import CampusNet.Homework11.StopAndWait

/-!
# A receiver left behind

After `max_retries` losses the sender goes on to the next packet, and the receiver takes only the
packet it expects: from then on no packet is accepted, and once the sender has set `done` neither
the receiver's loop nor the join in `main` ends.

* `Stranded` — the sender has finished, a packet is missing, and the mailbox does not hold it.
* `Place` — the mailbox against the sender's position, in every reachable state.
* `stranded_forever` — no later step accepts a packet or ends the receiver.
* `neverStranded_iff` — the runs in which the receiver is not stranded, by the steps they take.
* `acksLost_strand` — with the program's own constants, three lost ACKs of packet 0 are enough.
-/

namespace CampusNet.StopAndWait

open Runs

variable {P : Params} {s s' : State}

/-- The sender has finished, packets are missing, and the one expected is not in the mailbox. -/
def Stranded (P : Params) (s : State) : Prop :=
  s.done = true ∧ s.expectedSeq < P.packetCount ∧ s.senderSeq ≠ s.expectedSeq

/-- The mailbox is empty or holds the packet before the sender's. -/
def Previous (s : State) : Prop := s.senderSeq < 0 ∨ s.senderSeq + 1 = s.i

/-- The mailbox is empty or holds the sender's packet. -/
def Current (s : State) : Prop := s.senderSeq < 0 ∨ s.senderSeq = s.i

/-- What holds of the mailbox where the sender stands. -/
def PlaceAt (P : Params) (s : State) : SenderPc → Prop
  | .forTest => s.done = false ∧ s.i ≤ P.packetCount ∧ Previous s
  | .whileTest =>
    s.done = false ∧ s.i < P.packetCount ∧
      ((s.retries = 0 ∧ Previous s) ∨ (0 < s.retries ∧ Current s))
  | .announce => s.done = false ∧ s.i < P.packetCount ∧ 0 < P.maxRetries
  | .lossCheck | .awaitAck | .afterWhile => s.done = false ∧ s.i < P.packetCount ∧ Current s
  | .setDone => s.done = false ∧ s.i = P.packetCount ∧ Previous s
  | .returned => s.done = true ∧ s.i = P.packetCount ∧ Previous s

structure Place (P : Params) (s : State) : Prop where
  noRetry : P.maxRetries = 0 → s.senderSeq < 0
  at_pc : PlaceAt P s s.senderPc

/-! ## What a step does -/

/-- The receiver's step, up to what it prints: it leaves the mailbox alone, or it drops the
expected packet, or it accepts it. -/
theorem receiverStep_cases {drop : Bool} (h : receiverStep P drop s = some s') :
    (s'.i = s.i ∧ s'.retries = s.retries ∧ s'.senderPc = s.senderPc ∧ s'.done = s.done) ∧
    ((s'.senderSeq = s.senderSeq ∧ s'.expectedSeq = s.expectedSeq ∧
        ¬(s.receiverPc = .block ∧ 0 ≤ s.senderSeq ∧ s.senderSeq = s.expectedSeq)) ∨
      (s.receiverPc = .block ∧ 0 ≤ s.senderSeq ∧ s.senderSeq = s.expectedSeq ∧
        s'.senderSeq = -1 ∧
        ((drop = true ∧ s'.expectedSeq = s.expectedSeq) ∨
          (drop = false ∧ s'.expectedSeq = s.expectedSeq + 1)))) := by
  cases receives_of_step h with
  | enter hpc => exact ⟨⟨rfl, rfl, rfl, rfl⟩, Or.inl ⟨rfl, rfl, by simp [hpc]⟩⟩
  | finished hpc => exact ⟨⟨rfl, rfl, rfl, rfl⟩, Or.inl ⟨rfl, rfl, by simp [hpc]⟩⟩
  | ackLost hpc hfull hmatch hdrop =>
    exact ⟨⟨rfl, rfl, rfl, rfl⟩, Or.inr ⟨hpc, hfull, hmatch, rfl, Or.inl ⟨hdrop, rfl⟩⟩⟩
  | accept hpc hfull hmatch hdrop =>
    exact ⟨⟨rfl, rfl, rfl, rfl⟩, Or.inr ⟨hpc, hfull, hmatch, rfl, Or.inr ⟨hdrop, rfl⟩⟩⟩
  | ignore hpc hother =>
    exact ⟨⟨rfl, rfl, rfl, rfl⟩, Or.inl ⟨rfl, rfl, fun hnot => hother hnot.2⟩⟩

/-- The sender's step, up to what it prints: it leaves the mailbox alone or puts its packet there,
and sets `done` only where the program does. -/
theorem senderStep_cases {drop timedOut : Bool} (h : senderStep P drop timedOut s = some s') :
    s'.expectedSeq = s.expectedSeq ∧ s'.receiverPc = s.receiverPc ∧ s.i ≤ s'.i ∧
    ((s.senderPc = .announce ∧ s'.senderSeq = s.i ∧ s'.i = s.i) ∨
      (s.senderPc ≠ .announce ∧ s'.senderSeq = s.senderSeq)) ∧
    (s'.done = s.done ∨ s.senderPc = .setDone) := by
  cases sends_of_step h with
  | announce hpc => exact ⟨rfl, rfl, le_refl _, Or.inl ⟨hpc, rfl, rfl⟩, Or.inl rfl⟩
  | setDone hpc => exact ⟨rfl, rfl, le_refl _, Or.inr ⟨by simp [hpc], rfl⟩, Or.inr hpc⟩
  | failed hpc => exact ⟨rfl, rfl, Nat.le_succ _, Or.inr ⟨by simp [hpc], rfl⟩, Or.inl rfl⟩
  | acked hpc => exact ⟨rfl, rfl, Nat.le_succ _, Or.inr ⟨by simp [hpc], rfl⟩, Or.inl rfl⟩
  | nextPacket hpc | allSent hpc | attempt hpc | exhausted hpc | lost hpc | notLost hpc
  | gotAck hpc | timeout hpc | wait hpc =>
    exact ⟨rfl, rfl, le_refl _, Or.inr ⟨by simp [hpc], rfl⟩, Or.inl rfl⟩

/-! ## The sender's place -/

theorem Place.start : Place P State.start :=
  ⟨fun _ => by decide, rfl, Nat.zero_le _, Or.inl (by decide)⟩

theorem Place.senderStep {drop timedOut : Bool} (hs : Place P s)
    (h : StopAndWait.senderStep P drop timedOut s = some s') : Place P s' := by
  have hat := hs.at_pc
  cases sends_of_step h with
  | nextPacket hpc hmore =>
    rw [hpc] at hat
    obtain ⟨hdone, -, hprev⟩ := hat
    exact ⟨hs.noRetry, hdone, hmore, Or.inl ⟨rfl, hprev⟩⟩
  | allSent hpc hend =>
    rw [hpc] at hat
    obtain ⟨hdone, hle, hprev⟩ := hat
    exact ⟨hs.noRetry, hdone, Nat.le_antisymm hle (Nat.not_lt.mp hend), hprev⟩
  | attempt hpc hmore =>
    rw [hpc] at hat
    obtain ⟨hdone, hlt, -⟩ := hat
    exact ⟨hs.noRetry, hdone, hlt, Nat.zero_lt_of_lt hmore⟩
  | exhausted hpc hend =>
    rw [hpc] at hat
    obtain ⟨hdone, hlt, ⟨hretries, -⟩ | ⟨-, hcurrent⟩⟩ := hat
    · -- the loop is left before any retry only if there are none
      exact ⟨hs.noRetry, hdone, hlt, Or.inl (hs.noRetry (by omega))⟩
    · exact ⟨hs.noRetry, hdone, hlt, hcurrent⟩
  | announce hpc =>
    rw [hpc] at hat
    obtain ⟨hdone, hlt, hretries⟩ := hat
    exact ⟨fun hnone => absurd hnone (by omega), hdone, hlt, Or.inr rfl⟩
  | lost hpc | timeout hpc =>
    rw [hpc] at hat
    obtain ⟨hdone, hlt, hcurrent⟩ := hat
    exact ⟨hs.noRetry, hdone, hlt, Or.inr ⟨Nat.succ_pos _, hcurrent⟩⟩
  | notLost hpc | gotAck hpc =>
    rw [hpc] at hat
    obtain ⟨hdone, hlt, hcurrent⟩ := hat
    exact ⟨hs.noRetry, hdone, hlt, hcurrent⟩
  | wait => exact hs
  | failed hpc | acked hpc =>
    rw [hpc] at hat
    obtain ⟨hdone, hlt, hcurrent⟩ := hat
    refine ⟨hs.noRetry, hdone, hlt, ?_⟩
    rcases hcurrent with hempty | hcurrent
    · exact Or.inl hempty
    · refine Or.inr ?_
      show s.senderSeq + 1 = ((s.i + 1 : Nat) : Int)
      omega
  | setDone hpc =>
    rw [hpc] at hat
    obtain ⟨-, heq, hprev⟩ := hat
    exact ⟨hs.noRetry, rfl, heq, hprev⟩

/-- Emptying the mailbox, or leaving it, keeps the sender's place. -/
theorem Place.keep (hs : Place P s) (hi : s'.i = s.i) (hretries : s'.retries = s.retries)
    (hpc : s'.senderPc = s.senderPc) (hdone : s'.done = s.done)
    (hseq : s'.senderSeq = s.senderSeq ∨ s'.senderSeq = -1) : Place P s' := by
  have hprev : Previous s → Previous s' := by
    rintro (hempty | hprev)
    · exact Or.inl (by omega)
    · rcases hseq with hseq | hseq
      · exact Or.inr (by omega)
      · exact Or.inl (by omega)
  have hcurrent : Current s → Current s' := by
    rintro (hempty | hcurrent)
    · exact Or.inl (by omega)
    · rcases hseq with hseq | hseq
      · exact Or.inr (by omega)
      · exact Or.inl (by omega)
  refine ⟨fun hnone => ?_, ?_⟩
  · have hempty := hs.noRetry hnone
    omega
  · have hat := hs.at_pc
    rw [hpc]
    cases hs : s.senderPc with
    | forTest => rw [hs] at hat; exact ⟨hdone.trans hat.1, hi ▸ hat.2.1, hprev hat.2.2⟩
    | whileTest =>
      rw [hs] at hat
      refine ⟨hdone.trans hat.1, hi ▸ hat.2.1, ?_⟩
      rw [hretries]
      exact hat.2.2.imp (And.imp_right hprev) (And.imp_right hcurrent)
    | announce => rw [hs] at hat; exact ⟨hdone.trans hat.1, hi ▸ hat.2.1, hat.2.2⟩
    | lossCheck | awaitAck | afterWhile =>
      rw [hs] at hat
      exact ⟨hdone.trans hat.1, hi ▸ hat.2.1, hcurrent hat.2.2⟩
    | setDone | returned =>
      rw [hs] at hat
      exact ⟨hdone.trans hat.1, hi ▸ hat.2.1, hprev hat.2.2⟩

theorem Place.step {a : Action} (hs : Place P s) (h : StopAndWait.step P s a = some s') :
    Place P s' := by
  cases a with
  | sender drop timedOut => exact hs.senderStep h
  | receiver drop =>
    obtain ⟨⟨hi, hretries, hpc, hdone⟩, hseq⟩ := receiverStep_cases h
    refine hs.keep hi hretries hpc hdone ?_
    rcases hseq with ⟨hseq, -⟩ | ⟨-, -, -, hseq, -⟩
    · exact Or.inl hseq
    · exact Or.inr hseq

theorem place (h : Reachable (stopAndWait P) s) : Place P s :=
  h.induct Place.start fun _ _ _ hs hstep => hs.step hstep

/-- `done` is set exactly when the sender has returned; the mailbox then is empty or holds the last
packet. -/
theorem Place.done (hs : Place P s) (hdone : s.done = true) :
    s.senderPc = .returned ∧ s.i = P.packetCount ∧ Previous s := by
  have hat := hs.at_pc
  cases hpc : s.senderPc with
  | returned => rw [hpc] at hat; exact ⟨rfl, hat.2⟩
  | _ => rw [hpc] at hat; exact absurd (hat.1.symm.trans hdone) (by decide)

theorem Place.sender_done {drop timedOut : Bool} (hs : Place P s) (hdone : s.done = true) :
    StopAndWait.senderStep P drop timedOut s = none := by
  unfold StopAndWait.senderStep
  rw [(hs.done hdone).1]

/-! ## Stranded for good -/

theorem Stranded.step {a : Action} (hplace : Place P s) (hs : Stranded P s)
    (h : StopAndWait.step P s a = some s') : Stranded P s' ∧ s'.expectedSeq = s.expectedSeq := by
  obtain ⟨hdone, hmissing, hother⟩ := hs
  cases a with
  | sender drop timedOut =>
    have hnone : StopAndWait.step P s (.sender drop timedOut) = none := hplace.sender_done hdone
    rw [hnone] at h
    cases h
  | receiver drop =>
    obtain ⟨⟨-, -, -, hdone'⟩, ⟨hseq, hexpected, -⟩ | ⟨-, -, hmatch, -⟩⟩ := receiverStep_cases h
    · refine ⟨⟨hdone'.trans hdone, ?_, ?_⟩, hexpected⟩
      · rw [hexpected]; exact hmissing
      · rw [hseq, hexpected]; exact hother
    · exact absurd hmatch hother

/-- The receiver's loop ends only when `done` is set and all packets have been accepted. -/
theorem receiver_returned (h : Reachable (stopAndWait P) s) :
    s.receiverPc = .returned → s.done = true ∧ P.packetCount ≤ s.expectedSeq := by
  have hboth : Place P s ∧
      (s.receiverPc = .returned → s.done = true ∧ P.packetCount ≤ s.expectedSeq) := by
    refine h.induct (I := fun s => Place P s ∧
      (s.receiverPc = .returned → s.done = true ∧ P.packetCount ≤ s.expectedSeq))
      ⟨Place.start, fun hreturned => by cases hreturned⟩ ?_
    rintro s a s' ⟨hplace, hs⟩ hstep
    refine ⟨hplace.step hstep, fun hreturned => ?_⟩
    cases a with
    | sender drop timedOut =>
      obtain ⟨-, hpc, -⟩ := senderStep_cases hstep
      have hdone := (hs (hpc.symm.trans hreturned)).1
      have hnone : step P s (.sender drop timedOut) = none := hplace.sender_done hdone
      exact absurd (hnone.symm.trans hstep) nofun
    | receiver drop =>
      cases receives_of_step hstep with
      | finished hpc hend =>
        have hdone : s.done ≠ false := fun hdone => hend (Or.inl hdone)
        exact ⟨eq_true_of_ne_false hdone, Nat.not_lt.mp fun hmore => hend (Or.inr hmore)⟩
      | enter | ackLost | accept | ignore => cases hreturned
  exact hboth.2

/-- **A stranded receiver stays so**: no later step accepts a packet, and its loop never ends. -/
theorem stranded_forever (hreach : Reachable (stopAndWait P) s) (hs : Stranded P s)
    (h : Reachable ⟨s, step P⟩ s') :
    Stranded P s' ∧ s'.expectedSeq = s.expectedSeq ∧ s'.receiverPc ≠ .returned := by
  have hall : Reachable (stopAndWait P) s' ∧ Stranded P s' ∧ s'.expectedSeq = s.expectedSeq := by
    refine h.induct (I := fun s' => Reachable (stopAndWait P) s' ∧ Stranded P s' ∧
      s'.expectedSeq = s.expectedSeq) ⟨hreach, hs, rfl⟩ ?_
    rintro t a t' ⟨hreach', hstranded, hexpected⟩ hstep
    obtain ⟨hstranded', hsame⟩ := hstranded.step (place hreach') hstep
    exact ⟨hreach'.step hstep, hstranded', hsame.trans hexpected⟩
  obtain ⟨hreach', hstranded, hexpected⟩ := hall
  refine ⟨hstranded, hexpected, fun hreturned => ?_⟩
  have hle := (receiver_returned hreach' hreturned).2
  have hlt := hstranded.2.1
  omega

/-! ## Which steps leave a packet behind -/

/-- What a step must not do: the sender puts a packet in the mailbox before all earlier ones are
accepted; it finishes while the last packet is neither accepted nor in the mailbox; the receiver
drops the expected packet after that. -/
def LeavesNothing (P : Params) (s : State) : Action → Prop
  | .sender _ _ =>
    (s.senderPc = .announce → s.i ≤ s.expectedSeq) ∧
    (s.senderPc = .setDone → P.packetCount ≤ s.expectedSeq ∨ s.senderSeq + 1 = P.packetCount)
  | .receiver drop =>
    s.done = true → s.receiverPc = .block → 0 ≤ s.senderSeq → s.senderSeq = s.expectedSeq →
      drop = false

instance (P : Params) (s : State) : (a : Action) → Decidable (LeavesNothing P s a)
  | .sender _ _ => inferInstanceAs (Decidable (_ ∧ _))
  | .receiver _ => inferInstanceAs (Decidable (_ → _))

/-- The sender is past a packet that the receiver still expects. -/
def Overtaken (s : State) : Prop := s.expectedSeq < s.i ∧ s.senderSeq ≠ s.expectedSeq

theorem Overtaken.step {a : Action} (hs : Overtaken s) (h : StopAndWait.step P s a = some s') :
    Overtaken s' := by
  obtain ⟨hlt, hother⟩ := hs
  cases a with
  | sender drop timedOut =>
    obtain ⟨hexpected, -, hi, ⟨-, hseq, hsame⟩ | ⟨-, hseq⟩, -⟩ := senderStep_cases h
    · refine ⟨by omega, ?_⟩
      rw [hseq, hexpected]
      omega
    · refine ⟨by omega, ?_⟩
      rw [hseq, hexpected]
      exact hother
  | receiver drop =>
    obtain ⟨⟨hi, -⟩, ⟨hseq, hexpected, -⟩ | ⟨-, -, hmatch, -⟩⟩ := receiverStep_cases h
    · refine ⟨by omega, ?_⟩
      rw [hseq, hexpected]
      exact hother
    · exact absurd hmatch hother

/-- A step that leaves a packet behind: the receiver is overtaken, or stranded at once. -/
theorem left_behind {a : Action} (hplace : Place P s) (h : step P s a = some s')
    (hleft : ¬LeavesNothing P s a) : Overtaken s' ∨ Stranded P s' := by
  cases a with
  | sender drop timedOut =>
    obtain ⟨hexpected, -, -, hseq, -⟩ := senderStep_cases h
    by_cases hpc : s.senderPc = .announce
    · rcases hseq with ⟨-, hseq, hi⟩ | ⟨hnot, -⟩
      · have hearly : ¬s.i ≤ s.expectedSeq := fun hle =>
          hleft ⟨fun _ => hle, fun hset => absurd (hpc.symm.trans hset) nofun⟩
        refine Or.inl ⟨by omega, ?_⟩
        rw [hseq, hexpected]
        omega
      · exact absurd hpc hnot
    · have hset : s.senderPc = .setDone := by
        by_contra hnot
        exact hleft ⟨fun hann => absurd hann hpc, fun hset => absurd hset hnot⟩
      have hmissing : ¬(P.packetCount ≤ s.expectedSeq ∨ s.senderSeq + 1 = P.packetCount) :=
        fun hlast => hleft ⟨fun hann => absurd hann hpc, fun _ => hlast⟩
      have hat := hplace.at_pc
      rw [hset] at hat
      obtain ⟨-, heq, hprev⟩ := hat
      cases sends_of_step h with
      | setDone =>
        refine Or.inr ⟨rfl, ?_, ?_⟩
        · show s.expectedSeq < P.packetCount
          omega
        · show s.senderSeq ≠ s.expectedSeq
          rcases hprev with hempty | hprev
          · omega
          · omega
      | _ hother => exact absurd (hother.symm.trans hset) (by decide)
  | receiver drop =>
    simp only [LeavesNothing, Classical.not_imp] at hleft
    obtain ⟨hdone, hpc, hfull, hmatch, hdrop⟩ := hleft
    obtain ⟨-, heq, hprev⟩ := hplace.done hdone
    obtain ⟨⟨-, -, -, hdone'⟩, hseq⟩ := receiverStep_cases h
    rcases hseq with ⟨-, -, hnot⟩ | ⟨-, -, -, hseq, ⟨-, hexpected⟩ | ⟨hkept, -⟩⟩
    · exact absurd ⟨hpc, hfull, hmatch⟩ hnot
    · refine Or.inr ⟨hdone'.trans hdone, ?_, ?_⟩
      · rcases hprev with hempty | hprev
        · omega
        · omega
      · omega
    · exact absurd hkept hdrop

/-! ## Runs -/

theorem overtaken_or_stranded {h : List (State × Action)} (hr : Run (stopAndWait P) h s)
    (hleft : ∃ p ∈ h, ¬LeavesNothing P p.1 p.2) : Overtaken s ∨ Stranded P s := by
  induction hr with
  | nil => obtain ⟨p, hp, -⟩ := hleft; cases hp
  | @snoc h s s' a hr hstep ih =>
    have hplace := place hr.reachable
    obtain ⟨p, hp, hpleft⟩ := hleft
    rcases List.mem_cons.mp hp with rfl | hold
    · exact left_behind hplace hstep hpleft
    · rcases ih ⟨p, hold, hpleft⟩ with hover | hstranded
      · exact Or.inl (hover.step hstep)
      · exact Or.inr (hstranded.step hplace hstep).1

/-- With no packet left behind the mailbox is never ahead of the receiver, and at the end it holds
the packet expected, if one is. -/
theorem caught_up {h : List (State × Action)} (hr : Run (stopAndWait P) h s)
    (hok : ∀ p ∈ h, LeavesNothing P p.1 p.2) :
    s.senderSeq ≤ s.expectedSeq ∧
    (s.done = true → P.packetCount ≤ s.expectedSeq ∨ s.senderSeq = s.expectedSeq) := by
  induction hr with
  | nil =>
    refine ⟨?_, fun hdone => by cases hdone⟩
    show (-1 : Int) ≤ ((0 : Nat) : Int)
    decide
  | @snoc h s s' a hr hstep ih =>
    rw [List.forall_mem_cons] at hok
    obtain ⟨hbehind, hlast⟩ := ih hok.2
    have hplace := place hr.reachable
    cases a with
    | sender drop timedOut =>
      have hstepOk : LeavesNothing P s (.sender drop timedOut) := hok.1
      obtain ⟨hann, hset⟩ := hstepOk
      obtain ⟨hexpected, -, -, hseq, hdone⟩ := senderStep_cases hstep
      rw [hexpected]
      rcases hseq with ⟨hpc, hseq, -⟩ | ⟨hpc, hseq⟩
      · have hle := hann hpc
        refine ⟨by omega, fun hdone' => ?_⟩
        rcases hdone with hdone | hpc'
        · have hpc'' := (hplace.done (hdone.symm.trans hdone')).1
          exact absurd (hpc.symm.trans hpc'') nofun
        · exact absurd (hpc.symm.trans hpc') nofun
      · refine ⟨by omega, fun hdone' => ?_⟩
        rcases hdone with hdone | hpc'
        · rw [hseq]
          exact hlast (hdone.symm.trans hdone')
        · rcases hset hpc' with hall | hlastPacket
          · exact Or.inl hall
          · omega
    | receiver drop =>
      obtain ⟨⟨-, -, -, hdone⟩, hseq⟩ := receiverStep_cases hstep
      rcases hseq with ⟨hseq, hexpected, -⟩ | ⟨hpc, hfull, hmatch, hseq, hdrop⟩
      · rw [hseq, hexpected, hdone]
        exact ⟨hbehind, hlast⟩
      · refine ⟨by omega, fun hdone' => ?_⟩
        have hdoneS := hdone.symm.trans hdone'
        rcases hdrop with ⟨hdropped, -⟩ | ⟨-, hexpected⟩
        · have hkept := hok.1 hdoneS hpc hfull hmatch
          rw [hdropped] at hkept
          cases hkept
        · -- the packet accepted after the end is the last one
          obtain ⟨-, heq, hprev⟩ := hplace.done hdoneS
          rcases hprev with hempty | hprev
          · omega
          · omega

theorem notStranded_iff_last {h : List (State × Action)} (hr : Run (stopAndWait P) h s) :
    ¬Stranded P s ↔ (s.done = true → ∀ p ∈ h, LeavesNothing P p.1 p.2) := by
  constructor
  · intro hnot hdone
    by_contra hleft
    push Not at hleft
    rcases overtaken_or_stranded hr hleft with hover | hstranded
    · -- the sender is past all packets, so an overtaken receiver is stranded
      obtain ⟨-, heq, -⟩ := (place hr.reachable).done hdone
      exact hnot ⟨hdone, heq ▸ hover.1, hover.2⟩
    · exact hnot hstranded
  · rintro hok ⟨hdone, hmissing, hother⟩
    rcases (caught_up hr (hok hdone)).2 hdone with hall | hmailbox
    · omega
    · exact hother hmailbox

theorem step_done {a : Action} (hreach : Reachable (stopAndWait P) s)
    (h : step P s a = some s') (hdone : s.done = true) : s'.done = true := by
  cases a with
  | sender drop timedOut =>
    have hnone : step P s (.sender drop timedOut) = none := (place hreach).sender_done hdone
    exact absurd (hnone.symm.trans h) nofun
  | receiver drop =>
    obtain ⟨⟨-, -, -, hsame⟩, -⟩ := receiverStep_cases h
    exact hsame.trans hdone

/-- **No stranded receiver**, exactly: a run never strands the receiver if and only if, once the
sender has finished, no step of the run has left a packet behind. -/
theorem neverStranded_iff {h : List (State × Action)} (hr : Run (stopAndWait P) h s) :
    Throughout (fun s => ¬Stranded P s) h s ↔
      (s.done = true → ∀ p ∈ h, LeavesNothing P p.1 p.2) := by
  refine hr.throughout_iff_last
    (C := fun h s => s.done = true → ∀ p ∈ h, LeavesNothing P p.1 p.2)
    (fun h s hr => notStranded_iff_last hr) ?_
  intro h s a s' hr hstep hC hdone p hp
  exact hC (step_done hr.reachable hstep hdone) p (List.mem_cons_of_mem _ hp)

/-- After a lost packet and a lost ACK the sender finishes, and the receiver has both packets. -/
theorem neverStranded_iff_retried : ∃ h s, Run (stopAndWait ⟨2, 3⟩) h s ∧
    h.map Prod.snd = retried.reverse ∧ s.done = true ∧
    Throughout (fun s => ¬Stranded ⟨2, 3⟩ s) h s := by
  obtain ⟨h, s, hr, hmap, hp⟩ := exists_run_of_replay (M := stopAndWait ⟨2, 3⟩) retried
    (p := fun r => decide (r.2.done = true ∧ ∀ q ∈ r.1, LeavesNothing ⟨2, 3⟩ q.1 q.2)) (by decide)
  obtain ⟨hdone, hok⟩ := of_decide_eq_true hp
  exact ⟨h, s, hr, hmap, hdone, (neverStranded_iff hr).mpr fun _ => hok⟩

/-- One try of packet 0 whose ACK is lost. -/
def ackLost : List Action :=
  [.sender false false, .sender false false, .receiver true, .receiver true,
    .sender false false, .sender false true]

/-- One try of a packet that the receiver does not expect. -/
def unexpected : List Action :=
  [.sender false false, .sender false false, .sender false false, .sender false true]

/-- A packet with three tries. -/
def threeTries (attempt : List Action) : List Action :=
  [.sender false false] ++ attempt ++ attempt ++ attempt ++
    [.sender false false, .sender false false]

def acksLost : List Action :=
  threeTries ackLost ++ threeTries unexpected ++ threeTries unexpected ++ threeTries unexpected ++
    threeTries unexpected ++ [.sender false false, .sender false false]

/-- Three lost ACKs of packet 0, with five packets and three retries: the sender finishes, and the
receiver waits for packet 0 in every later state. -/
theorem acksLost_strand : ∃ s, Reachable (stopAndWait ⟨5, 3⟩) s ∧ Stranded ⟨5, 3⟩ s ∧
    ∀ s', Reachable ⟨s, step ⟨5, 3⟩⟩ s' → s'.expectedSeq = 0 ∧ s'.receiverPc ≠ .returned := by
  obtain ⟨s, hs, hp⟩ := exists_reachable_of_exec (M := stopAndWait ⟨5, 3⟩) acksLost
    (p := fun s => decide (s.done = true ∧ s.expectedSeq = 0 ∧ s.senderSeq = 4)) (by decide)
  obtain ⟨hdone, hexpected, hseq⟩ := of_decide_eq_true hp
  have hstranded : Stranded ⟨5, 3⟩ s := by
    refine ⟨hdone, ?_, ?_⟩
    · rw [hexpected]; decide
    · rw [hseq, hexpected]; decide
  refine ⟨s, hs, hstranded, fun s' hs' => ?_⟩
  obtain ⟨-, hsame, hloop⟩ := stranded_forever hs hstranded hs'
  exact ⟨hsame.trans hexpected, hloop⟩

end CampusNet.StopAndWait
