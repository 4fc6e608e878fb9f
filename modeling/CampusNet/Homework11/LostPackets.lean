import CampusNet.Homework11.Stranded

/-!
# Lost packets that are received

The sender puts a packet in the mailbox in one critical section and decides its loss in a later one,
which leaves the mailbox alone.

* `checked`, `announced`, `accepts` — what a step of the history does with packet `i`.
* `ledger` — every attempt is lost, not lost, or waits for its check.
* `passed_iff` — an attempt was found not lost exactly when the sender waits for the ACK, or has
  printed that it did.
* `LossRespected` — no packet is accepted before an attempt was found not lost.
* `TakesPassed` — the side condition on a receiver's step.
* `lossRespected_iff` — a run respects losses exactly when its steps all meet the condition.
-/

namespace CampusNet.StopAndWait

open Runs

variable {P : Params} {s s' : State} {h : List (State × Action)} {i : Nat}

/-- The loss check of an attempt of packet `i`, with the outcome `lost`. -/
def checked (i : Nat) (lost : Bool) : State × Action → Bool
  | (s, .sender drop _) => decide (s.senderPc = .lossCheck ∧ s.i = i ∧ drop = lost)
  | (_, .receiver _) => false

/-- An attempt of packet `i`. -/
def announced (i : Nat) : State × Action → Bool
  | (s, .sender _ _) => decide (s.senderPc = .announce ∧ s.i = i)
  | (_, .receiver _) => false

/-- The receiver acknowledges and counts packet `i`. -/
def accepts (i : Nat) : State × Action → Bool
  | (_, .sender _ _) => false
  | (s, .receiver drop) => decide (s.receiverPc = .block ∧ 0 ≤ s.senderSeq ∧
      s.senderSeq = s.expectedSeq ∧ s.expectedSeq = i ∧ drop = false)

/-- Some attempt of packet `i` was found not lost. -/
def Passed (i : Nat) (h : List (State × Action)) : Prop := ∃ p ∈ h, checked i false p = true

/-- All attempts of packet `i` made so far were found lost. -/
def AllLost (i : Nat) (h : List (State × Action)) : Prop :=
  h.countP (announced i) = h.countP (checked i true)

/-- Packets accepted so far had an attempt that was not lost, and packets whose attempts were all
lost are still expected. -/
structure LossRespected (h : List (State × Action)) (s : State) : Prop where
  accepted : ∀ i, (∃ p ∈ h, accepts i p = true) → Passed i h
  expected : ∀ i, AllLost i h → s.expectedSeq ≤ i

/-- A receiver that takes the packet it expects finds the sender waiting for its ACK, or a timeout
of such a wait printed. -/
def TakesPassed (s : State) : Action → Prop
  | .sender _ _ => True
  | .receiver drop => s.receiverPc = .block → 0 ≤ s.senderSeq → s.senderSeq = s.expectedSeq →
      drop = false → s.senderPc = .awaitAck ∨ Event.timeout s.expectedSeq ∈ s.log

instance (s : State) : (a : Action) → Decidable (TakesPassed s a)
  | .sender _ _ => inferInstanceAs (Decidable True)
  | .receiver _ => inferInstanceAs (Decidable (_ → _))

/-! ## The attempts -/

/-- The sender waits for the ACK of packet `i`, or has printed how such a wait ended. -/
def Awaited (i : Nat) (s : State) : Prop :=
  (s.senderPc = .awaitAck ∧ s.i = i) ∨ Event.timeout i ∈ s.log ∨ Event.gotAck i ∈ s.log

instance : Decidable (Awaited i s) := inferInstanceAs (Decidable (_ ∨ _ ∨ _))

/-- The sender's step, as far as attempts go: it makes one, or checks it, or neither. -/
theorem senderStep_attempt {drop timedOut : Bool} (h : senderStep P drop timedOut s = some s') :
    (s.senderPc = .announce ∧ s'.senderPc = .lossCheck ∧ s'.i = s.i ∧
      ∀ j, Awaited j s' ↔ Awaited j s) ∨
    (s.senderPc = .lossCheck ∧ s'.senderPc ≠ .lossCheck ∧
      ∀ j, Awaited j s' ↔ (s.i = j ∧ drop = false) ∨ Awaited j s) ∨
    (s.senderPc ≠ .announce ∧ s.senderPc ≠ .lossCheck ∧ s'.senderPc ≠ .lossCheck ∧
      ∀ j, Awaited j s' ↔ Awaited j s) := by
  cases sends_of_step h with
  | announce hpc => simp [Awaited, hpc]
  | lost hpc hdrop | notLost hpc hdrop => simp [Awaited, hpc, hdrop]
  | gotAck hpc =>
    refine Or.inr (Or.inr ⟨by simp [hpc], by simp [hpc], by simp, fun j => ?_⟩)
    simp only [Awaited, hpc, List.mem_append, List.mem_singleton, Event.gotAck.injEq]
    grind
  | timeout hpc =>
    refine Or.inr (Or.inr ⟨by simp [hpc], by simp [hpc], by simp, fun j => ?_⟩)
    simp only [Awaited, hpc, List.mem_append, List.mem_singleton, Event.timeout.injEq]
    grind
  | nextPacket hpc | allSent hpc | attempt hpc | exhausted hpc | wait hpc | failed hpc | acked hpc
  | setDone hpc => simp [Awaited, hpc]

/-- The receiver's step makes no attempt and prints no end of a wait. -/
theorem receiverStep_awaited {drop : Bool} (h : receiverStep P drop s = some s') (j : Nat) :
    Awaited j s' ↔ Awaited j s := by
  cases receives_of_step h with
  | enter | ignore => rfl
  | finished | ackLost | accept => simp [Awaited]

/-- An attempt of packet `i` waits for its check. -/
def pending (i : Nat) (s : State) : Nat := if s.senderPc = .lossCheck ∧ s.i = i then 1 else 0

/-- A step that makes an attempt leaves it to be checked, and a check settles the one that waits. -/
theorem ledger_step {a : Action} (hstep : step P s a = some s') (i : Nat) :
    (if announced i (s, a) then 1 else 0) + pending i s =
      (if checked i true (s, a) then 1 else 0) + (if checked i false (s, a) then 1 else 0) +
        pending i s' := by
  cases a with
  | sender drop timedOut =>
    rcases senderStep_attempt hstep with ⟨hpc, hpc', hi, -⟩ | ⟨hpc, hpc', -⟩ | ⟨ha, hc, hpc', -⟩
    · simp [announced, checked, pending, hpc, hpc', hi]
    · cases drop
      · simp [announced, checked, pending, hpc, hpc']
      · simp [announced, checked, pending, hpc, hpc']
    · simp [announced, checked, pending, ha, hc, hpc']
  | receiver drop =>
    obtain ⟨⟨hi, -, hpc, -⟩, -⟩ := receiverStep_cases hstep
    simp [announced, checked, pending, hi, hpc]

/-- **Every attempt is accounted for**: it was lost, was not lost, or waits for its check. -/
theorem ledger (hr : Run (stopAndWait P) h s) (i : Nat) :
    h.countP (announced i) = h.countP (checked i true) + h.countP (checked i false) +
      pending i s := by
  induction hr with
  | nil => simp [pending, stopAndWait, State.start]
  | snoc hr hstep ih =>
    have hone := ledger_step hstep i
    rw [List.countP_cons, List.countP_cons, List.countP_cons]
    omega

theorem passed_cons {p : State × Action} :
    Passed i (p :: h) ↔ checked i false p = true ∨ Passed i h := by
  simp [Passed]

/-- An attempt was found not lost exactly when the sender waits for the ACK or has printed how such
a wait ended. -/
theorem passed_iff (hr : Run (stopAndWait P) h s) : Passed i h ↔ Awaited i s := by
  induction hr with
  | nil => simp [Passed, Awaited, stopAndWait, State.start]
  | @snoc h s s' a hr hstep ih =>
    rw [passed_cons, ih]
    cases a with
    | sender drop timedOut =>
      rcases senderStep_attempt hstep with ⟨hpc, -, -, haw⟩ | ⟨hpc, -, haw⟩ | ⟨-, hpc, -, haw⟩
      · simp [haw, checked, hpc]
      · simp [haw, checked, hpc]
      · simp [haw, checked, hpc]
    | receiver drop =>
      simp [receiverStep_awaited hstep, checked]

theorem allLost_iff (hr : Run (stopAndWait P) h s) :
    AllLost i h ↔ ¬Passed i h ∧ pending i s = 0 := by
  have hledger := ledger hr i
  have hpassed : h.countP (checked i false) = 0 ↔ ¬Passed i h := by
    simp [Passed, List.countP_eq_zero]
  rw [← hpassed, AllLost]
  omega

/-! ## The acceptances -/

/-- The packets accepted are those below `expected_seq`. -/
theorem accepts_iff (hr : Run (stopAndWait P) h s) :
    (∃ p ∈ h, accepts i p = true) ↔ i < s.expectedSeq := by
  induction hr with
  | nil => simp [stopAndWait, State.start]
  | @snoc h s s' a hr hstep ih =>
    rw [List.exists_mem_cons_iff, ih]
    cases a with
    | sender drop timedOut =>
      obtain ⟨hexpected, -⟩ := senderStep_cases hstep
      simp [accepts, hexpected]
    | receiver drop =>
      obtain ⟨-, hseq⟩ := receiverStep_cases hstep
      rcases hseq with ⟨-, hexpected, hnot⟩ | ⟨hpc, hfull, hmatch, -, hdrop⟩
      · have hkept : accepts i (s, .receiver drop) = false := by
          simp only [accepts, decide_eq_false_iff_not]
          rintro ⟨hpc, hfull, hmatch, -⟩
          exact hnot ⟨hpc, hfull, hmatch⟩
        simp [hkept, hexpected]
      · rcases hdrop with ⟨rfl, hexpected⟩ | ⟨rfl, hexpected⟩
        · simp [accepts, hexpected]
        · rw [hexpected, Nat.lt_succ_iff, Nat.le_iff_lt_or_eq]
          simp [accepts, hpc, hmatch, or_comm, eq_comm]

/-- A packet whose ACK the sender has reported is no longer expected. -/
theorem Inv.gotAck_lt (hI : Inv s) (hgot : Event.gotAck i ∈ s.log) : i < s.expectedSeq := by
  obtain ⟨earlier, later, hlog⟩ := List.append_of_mem hgot
  have horder := hI.inOrder
  rw [hlog, accepted, List.filterMap_append, ← accepted, hI.reported earlier later i hlog] at horder
  have hlength := congrArg List.length horder
  simp only [List.length_append, upTo, List.length_map, List.length_range] at hlength
  omega

/-- Losses are respected exactly when each packet below `expected_seq` has passed a check. -/
theorem lossRespected_iff_passed (hr : Run (stopAndWait P) h s) :
    LossRespected h s ↔ ∀ i < s.expectedSeq, Passed i h := by
  constructor
  · intro hloss i hi
    exact hloss.accepted i ((accepts_iff hr).mpr hi)
  · intro hpassed
    refine ⟨fun i hi => hpassed i ((accepts_iff hr).mp hi), fun i hlost => ?_⟩
    by_contra hbeyond
    exact ((allLost_iff hr).mp hlost).1 (hpassed i (Nat.lt_of_not_le hbeyond))

/-- The packet expected has passed a check exactly when the condition on the receiver says so. -/
theorem passed_expected (hr : Run (stopAndWait P) h s) (hfull : 0 ≤ s.senderSeq)
    (hmatch : s.senderSeq = s.expectedSeq) :
    Passed s.expectedSeq h ↔ s.senderPc = .awaitAck ∨ Event.timeout s.expectedSeq ∈ s.log := by
  rw [passed_iff hr, Awaited]
  have hnone : Event.gotAck s.expectedSeq ∉ s.log := fun hgot =>
    lt_irrefl _ ((inv hr.reachable).gotAck_lt hgot)
  constructor
  · rintro (⟨hpc, -⟩ | htimeout | hgot)
    · exact Or.inl hpc
    · exact Or.inr htimeout
    · exact absurd hgot hnone
  · rintro (hpc | htimeout)
    · have hat := (place hr.reachable).at_pc
      rw [hpc] at hat
      obtain ⟨-, -, hempty | hcurrent⟩ := hat
      · omega
      · exact Or.inl ⟨hpc, by omega⟩
    · exact Or.inr (Or.inl htimeout)

/-- **Lost packets**, exactly: a run respects losses at every moment if and only if, whenever the
receiver takes and acknowledges the packet it expects, the sender is waiting for that ACK or has
printed a timeout for the packet. -/
theorem lossRespected_iff (hr : Run (stopAndWait P) h s) :
    EveryMoment LossRespected h s ↔ ∀ p ∈ h, TakesPassed p.1 p.2 := by
  refine hr.everyMoment_iff ((lossRespected_iff_passed .nil).mpr fun i hi => ?_) ?_
  · simp [stopAndWait, State.start] at hi
  · intro h s a s' hr hloss hstep
    rw [lossRespected_iff_passed hr] at hloss
    rw [lossRespected_iff_passed (hr.snoc hstep)]
    simp only [passed_cons]
    cases a with
    | sender drop timedOut =>
      obtain ⟨hexpected, -⟩ := senderStep_cases hstep
      rw [hexpected]
      exact iff_of_true (fun i hi => Or.inr (hloss i hi)) trivial
    | receiver drop =>
      simp only [checked, Bool.false_eq_true, false_or]
      obtain ⟨-, hseq⟩ := receiverStep_cases hstep
      rcases hseq with ⟨-, hexpected, hnot⟩ | ⟨hpc, hfull, hmatch, -, hdrop⟩
      · rw [hexpected]
        exact iff_of_true hloss fun hpc hfull hmatch => absurd ⟨hpc, hfull, hmatch⟩ hnot
      · rcases hdrop with ⟨rfl, hexpected⟩ | ⟨rfl, hexpected⟩
        · rw [hexpected]
          exact iff_of_true hloss fun _ _ _ hkept => Bool.noConfusion hkept
        · rw [hexpected]
          have hpassed := passed_expected hr hfull hmatch
          constructor
          · intro hall _ _ _ _
            exact hpassed.mp (hall s.expectedSeq (Nat.lt_succ_self _))
          · intro htakes i hi
            rcases Nat.lt_succ_iff_lt_or_eq.mp hi with hlt | rfl
            · exact hloss i hlt
            · exact hpassed.mpr (htakes hpc hfull hmatch rfl)

/-- With a lost packet and a lost ACK, the receiver takes both packets after their checks. -/
theorem lossRespected_iff_retried : ∃ h s, Run (stopAndWait ⟨2, 3⟩) h s ∧
    h.map Prod.snd = retried.reverse ∧ s.expectedSeq = 2 ∧ EveryMoment LossRespected h s := by
  obtain ⟨h, s, hr, hmap, hp⟩ := exists_run_of_replay (M := stopAndWait ⟨2, 3⟩) retried
    (p := fun r => decide (r.2.expectedSeq = 2 ∧ ∀ q ∈ r.1, TakesPassed q.1 q.2)) (by decide)
  obtain ⟨hexpected, hok⟩ := of_decide_eq_true hp
  exact ⟨h, s, hr, hmap, hexpected, (lossRespected_iff hr).mpr hok⟩

/-- **A lost packet is received**: with five packets and three tries, the receiver takes packet 0
between its announcement and the check that finds it lost. -/
theorem lostPacket_accepted : ∃ h s, Run (stopAndWait ⟨5, 3⟩) h s ∧ ¬LossRespected h s ∧
    (∃ p ∈ h, accepts 0 p = true) ∧ ¬Passed 0 h ∧ AllLost 0 h ∧ s.expectedSeq = 1 ∧
    s.log = [.sending 0 0, .sendingAck 0, .lost 0] := by
  have h1 : Run (stopAndWait ⟨5, 3⟩) [] State.start := .nil
  have h2 := h1.snoc (a := .sender false false) rfl
  have h3 := h2.snoc (a := .sender false false) rfl
  have h4 := h3.snoc (a := .sender false false) rfl
  have h5 := h4.snoc (a := .receiver false) rfl
  have h6 := h5.snoc (a := .receiver false) rfl
  have h7 := h6.snoc (a := .sender true false) rfl
  have hlost : AllLost 0 _ := (allLost_iff h7).mpr ⟨by rw [passed_iff h7]; decide, rfl⟩
  have hnone := ((allLost_iff h7).mp hlost).1
  have haccepted := (accepts_iff (i := 0) h7).mpr (Nat.zero_lt_one)
  exact ⟨_, _, h7, fun hloss => hnone (hloss.accepted 0 haccepted), haccepted, hnone, hlost, rfl,
    rfl⟩

end CampusNet.StopAndWait
