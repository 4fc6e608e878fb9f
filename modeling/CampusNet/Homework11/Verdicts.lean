import CampusNet.Homework11.LostPackets
import CampusNet.Lib.Fairness

/-!
# The sender's verdicts

For each packet the sender prints its attempts, how those before the last one failed, and one
verdict: `Got ACK` or `failed after ... retries`.

* `attempts`, `misses`, `verdicts` — what the log says of a packet.
* `Books` — the log against the sender's position, kept by every step.
* `stopAndWait_verdicts` — the accounts in every reachable state.
* `senderWork`, `receiverWork` — the steps each thread still has to take.
* `stopAndWait_ends` — if both threads run again and again and every wait times out in the end, the
  sender returns with one verdict for each packet, and the receiver returns with all packets or is
  stranded for good.
-/

namespace CampusNet.StopAndWait

open Runs Fairness

variable {P : Params} {s s' : State}

/-- The retry numbers of the attempts printed for packet `j`. -/
def attempts (log : List Event) (j : Nat) : List Nat :=
  log.filterMap fun e => match e with
    | .sending i retries => if i = j then some retries else none
    | _ => none

/-- The attempts for packet `j` that ended in a loss or a timeout. -/
def misses (log : List Event) (j : Nat) : Nat := log.count (.lost j) + log.count (.timeout j)

/-- The packets the sender has judged, in order, with the verdict. -/
def verdicts (log : List Event) : List (Nat × Bool) :=
  log.filterMap fun e => match e with
    | .gotAck i => some (i, true)
    | .failed i => some (i, false)
    | _ => none

/-- In the middle of an attempt: it is printed and its outcome is not. -/
def UnderWay (s : State) (j : Nat) : Prop :=
  s.i = j ∧ (s.senderPc = .lossCheck ∨ s.senderPc = .awaitAck)

/-- The `ACK` is reported and the packet index not yet advanced. -/
def JustAcked (P : Params) (s : State) : Prop :=
  s.senderPc = .afterWhile ∧ s.retries < P.maxRetries

instance (s : State) (j : Nat) : Decidable (UnderWay s j) := inferInstanceAs (Decidable (_ ∧ _))

instance (P : Params) (s : State) : Decidable (JustAcked P s) :=
  inferInstanceAs (Decidable (_ ∧ _))

structure Books (P : Params) (s : State) : Prop where
  within : s.retries ≤ P.maxRetries
  attempting : s.senderPc = .announce ∨ s.senderPc = .lossCheck ∨ s.senderPc = .awaitAck →
    s.retries < P.maxRetries
  judged : (verdicts s.log).map Prod.fst = List.range (s.i + if JustAcked P s then 1 else 0)
  numbered : ∀ j, attempts s.log j = List.range (misses s.log j +
    (if (j, true) ∈ verdicts s.log then 1 else 0) + if UnderWay s j then 1 else 0)
  current : misses s.log s.i =
    if s.senderPc = .forTest ∨ s.senderPc = .setDone ∨ s.senderPc = .returned then 0 else s.retries
  future : ∀ j, s.i < j → misses s.log j = 0
  past : ∀ j b, (j, b) ∈ verdicts s.log →
    misses s.log j ≤ P.maxRetries ∧ (b = false ↔ misses s.log j = P.maxRetries)

/-! ## The log -/

theorem attempts_append (log : List Event) (e : Event) (j : Nat) :
    attempts (log ++ [e]) j = attempts log j ++ attempts [e] j := List.filterMap_append

theorem misses_append (log : List Event) (e : Event) (j : Nat) :
    misses (log ++ [e]) j = misses log j + misses [e] j := by
  unfold misses
  rw [List.count_append, List.count_append]
  omega

theorem verdicts_append (log : List Event) (e : Event) :
    verdicts (log ++ [e]) = verdicts log ++ verdicts [e] := List.filterMap_append

/-- A line that says nothing about a packet's fate. -/
structure Silent (e : Event) : Prop where
  attempts : ∀ j, attempts [e] j = []
  misses : ∀ j, misses [e] j = 0
  verdicts : verdicts [e] = []

theorem silent_allSent : Silent .allSent := ⟨fun _ => rfl, fun _ => by simp [misses], rfl⟩

theorem silent_ackLost (seq : Int) : Silent (.ackLost seq) :=
  ⟨fun _ => rfl, fun _ => by simp [misses], rfl⟩

theorem silent_sendingAck (seq : Int) : Silent (.sendingAck seq) :=
  ⟨fun _ => rfl, fun _ => by simp [misses], rfl⟩

theorem silent_finished : Silent .finished := ⟨fun _ => rfl, fun _ => by simp [misses], rfl⟩

/-! ## One step -/

theorem books_start (P : Params) : Books P State.start where
  within := Nat.zero_le _
  attempting := by simp [State.start]
  judged := by simp [State.start, verdicts, JustAcked]
  numbered := fun j => by simp [State.start, attempts, misses, verdicts, UnderWay]
  current := by simp [State.start, misses]
  future := fun j _ => by simp [State.start, misses]
  past := fun j b h => by simp [State.start, verdicts] at h

/-- A step that prints nothing about the packets' fate and neither starts nor ends an attempt. -/
theorem Books.congr (h : Books P s) (hi : s'.i = s.i)
    (hlog : s'.log = s.log ∨ ∃ e, Silent e ∧ s'.log = s.log ++ [e])
    (hacked : JustAcked P s' ↔ JustAcked P s) (hway : ∀ j, UnderWay s' j ↔ UnderWay s j)
    (hwithin : s'.retries ≤ P.maxRetries)
    (hattempting : s'.senderPc = .announce ∨ s'.senderPc = .lossCheck ∨ s'.senderPc = .awaitAck →
      s'.retries < P.maxRetries)
    (hcurrent : misses s.log s.i = if s'.senderPc = .forTest ∨ s'.senderPc = .setDone ∨
      s'.senderPc = .returned then 0 else s'.retries) : Books P s' := by
  obtain ⟨hattempts, hmisses, hverdicts⟩ : (∀ j, attempts s'.log j = attempts s.log j) ∧
      (∀ j, misses s'.log j = misses s.log j) ∧ verdicts s'.log = verdicts s.log := by
    rcases hlog with hlog | ⟨e, he, hlog⟩
    · rw [hlog]; exact ⟨fun _ => rfl, fun _ => rfl, rfl⟩
    · rw [hlog, verdicts_append, he.verdicts, List.append_nil]
      refine ⟨fun j => ?_, fun j => ?_, rfl⟩
      · rw [attempts_append, he.attempts, List.append_nil]
      · rw [misses_append, he.misses, Nat.add_zero]
  refine ⟨hwithin, hattempting, ?_, fun j => ?_, ?_, fun j hj => ?_, fun j b hjb => ?_⟩
  · simp only [hverdicts, hi, hacked]; exact h.judged
  · simp only [hattempts, hmisses, hverdicts, hway]; exact h.numbered j
  · rw [hmisses, hi]; exact hcurrent
  · rw [hmisses]; exact h.future j (hi ▸ hj)
  · rw [hmisses]; exact h.past j b (hverdicts ▸ hjb)

theorem Books.receiverStep {drop : Bool} (h : Books P s)
    (hstep : StopAndWait.receiverStep P drop s = some s') : Books P s' := by
  have hquiet : ∀ {t : State}, t.i = s.i → t.retries = s.retries → t.senderPc = s.senderPc →
      (t.log = s.log ∨ ∃ e, Silent e ∧ t.log = s.log ++ [e]) → Books P t := by
    intro t hi hretries hpc hlog
    refine h.congr hi hlog ?_ (fun j => ?_) (hretries ▸ h.within) ?_ ?_
    · rw [JustAcked, JustAcked, hpc, hretries]
    · rw [UnderWay, UnderWay, hi, hpc]
    · rw [hpc, hretries]; exact h.attempting
    · rw [hpc, hretries]; exact h.current
  cases receives_of_step hstep with
  | enter | ignore => exact hquiet rfl rfl rfl (Or.inl rfl)
  | finished => exact hquiet rfl rfl rfl (Or.inr ⟨_, silent_finished, rfl⟩)
  | ackLost => exact hquiet rfl rfl rfl (Or.inr ⟨_, silent_ackLost _, rfl⟩)
  | accept => exact hquiet rfl rfl rfl (Or.inr ⟨_, silent_sendingAck _, rfl⟩)

/-- The current packet has no verdict while its attempts go on. -/
theorem Books.unjudged (h : Books P s) (hnot : ¬JustAcked P s) (b : Bool) :
    (s.i, b) ∉ verdicts s.log := by
  intro hmem
  have hmem' : s.i ∈ (verdicts s.log).map Prod.fst := List.mem_map_of_mem hmem
  rw [h.judged, if_neg hnot] at hmem'
  simp at hmem'

/-- An attempt ends in a loss or a timeout: the sender tries again. -/
theorem Books.miss (h : Books P s) (hpc : s.senderPc = .lossCheck ∨ s.senderPc = .awaitAck)
    {e : Event} (hattempts : ∀ j, attempts [e] j = []) (hverdicts : verdicts [e] = [])
    (hmisses : ∀ j, misses [e] j = if s.i = j then 1 else 0) :
    Books P { s with
      log := s.log ++ [e], retries := s.retries + 1, senderPc := .whileTest } := by
  have hlt := h.attempting (Or.inr hpc)
  have hacked : ¬JustAcked P s := by
    rintro ⟨hafter, -⟩
    rcases hpc with hpc | hpc <;> (rw [hpc] at hafter; cases hafter)
  have hunjudged := h.unjudged hacked
  have hway : ∀ j, UnderWay s j ↔ s.i = j := fun j => and_iff_left hpc
  refine ⟨hlt, by simp, ?_, fun j => ?_, ?_, fun j hj => ?_, fun j b hjb => ?_⟩
  · rw [verdicts_append, hverdicts, List.append_nil, h.judged, if_neg hacked,
      if_neg (by simp [JustAcked])]
  · -- what was under way is now a miss
    rw [attempts_append, hattempts, List.append_nil, h.numbered j, verdicts_append, hverdicts,
      List.append_nil, misses_append, hmisses]
    simp only [hway]
    simp only [UnderWay, reduceCtorEq, or_self, and_false, if_false]
    congr 1
    omega
  · have hcurrent := h.current
    rw [if_neg (by rcases hpc with hpc | hpc <;> simp [hpc])] at hcurrent
    rw [misses_append, hmisses, if_pos rfl, hcurrent, if_neg (by simp)]
  · rw [misses_append, hmisses, if_neg (Nat.ne_of_lt hj), Nat.add_zero]
    exact h.future j hj
  · rw [verdicts_append, hverdicts, List.append_nil] at hjb
    have hj : s.i ≠ j := by
      rintro rfl
      exact hunjudged b hjb
    rw [misses_append, hmisses, if_neg hj, Nat.add_zero]
    exact h.past j b hjb

theorem Books.announce (h : Books P s) (hpc : s.senderPc = .announce) :
    Books P { s with
      senderSeq := s.i, log := s.log ++ [.sending s.i s.retries], senderPc := .lossCheck } := by
  have hacked : ¬JustAcked P s := by simp [JustAcked, hpc]
  have hmisses : ∀ j, misses (s.log ++ [.sending s.i s.retries]) j = misses s.log j := fun j => by
    simp [misses]
  have hverdicts : verdicts (s.log ++ [.sending s.i s.retries]) = verdicts s.log := by
    rw [verdicts_append]
    exact List.append_nil _
  refine ⟨h.within, fun _ => h.attempting (Or.inl hpc), ?_, fun j => ?_, ?_, fun j hj => ?_,
    fun j b hjb => ?_⟩
  · rw [hverdicts, h.judged, if_neg hacked, if_neg (by simp [JustAcked])]
  · have hbefore := h.numbered j
    have hcurrent := h.current
    simp only [hpc, reduceCtorEq, or_self, if_false] at hcurrent
    simp only [UnderWay, hpc, reduceCtorEq, or_self, and_false, if_false, Nat.add_zero] at hbefore
    rw [attempts_append, hbefore, hmisses, hverdicts]
    by_cases hj : s.i = j
    · subst hj
      simp [attempts, UnderWay, hcurrent, h.unjudged hacked, List.range_succ]
    · simp [attempts, UnderWay, hj]
  · rw [hmisses, h.current, hpc]
    simp
  · rw [hmisses]; exact h.future j hj
  · rw [hmisses]; exact h.past j b (hverdicts ▸ hjb)

theorem Books.gotAck (h : Books P s) (hpc : s.senderPc = .awaitAck) :
    Books P { s with log := s.log ++ [.gotAck s.i], senderPc := .afterWhile } := by
  have hlt := h.attempting (Or.inr (Or.inr hpc))
  have hacked : ¬JustAcked P s := by simp [JustAcked, hpc]
  have hcurrent := h.current
  simp only [hpc, reduceCtorEq, or_self, if_false] at hcurrent
  have hmisses : ∀ j, misses (s.log ++ [.gotAck s.i]) j = misses s.log j := fun j => by
    simp [misses]
  have hverdicts : verdicts (s.log ++ [.gotAck s.i]) = verdicts s.log ++ [(s.i, true)] :=
    verdicts_append ..
  refine ⟨h.within, by simp, ?_, fun j => ?_, ?_, fun j hj => ?_, fun j b hjb => ?_⟩
  · rw [hverdicts, List.map_append, h.judged, if_neg hacked, if_pos ⟨rfl, hlt⟩, List.range_succ]
    rfl
  · rw [attempts_append, h.numbered j, hmisses, hverdicts]
    by_cases hj : s.i = j
    · subst hj
      simp [attempts, UnderWay, hpc, h.unjudged hacked]
    · simp [attempts, UnderWay, hj, Ne.symm hj]
  · rw [hmisses, hcurrent]
    simp
  · rw [hmisses]; exact h.future j hj
  · rw [hmisses]
    rw [hverdicts, List.mem_append, List.mem_singleton] at hjb
    rcases hjb with hjb | hjb
    · exact h.past j b hjb
    · cases hjb
      rw [hcurrent]
      exact ⟨h.within, by simp; omega⟩

/-- The sender goes on to the next packet, its verdict printed. -/
theorem Books.advance (h : Books P s) (hpc : s.senderPc = .afterWhile) :
    Books P { s with
      log := s.log ++ (if s.retries ≥ P.maxRetries then [.failed s.i] else []),
      i := s.i + 1, senderPc := .forTest } := by
  have hcurrent := h.current
  simp only [hpc, reduceCtorEq, or_self, if_false] at hcurrent
  have hwithin := h.within
  have hfuture := h.future
  by_cases hfailed : s.retries ≥ P.maxRetries
  · have hacked : ¬JustAcked P s := fun hacked => absurd hacked.2 (Nat.not_lt.mpr hfailed)
    have hmisses : ∀ j, misses (s.log ++ [.failed s.i]) j = misses s.log j := fun j => by
      simp [misses]
    have hverdicts : verdicts (s.log ++ [.failed s.i]) = verdicts s.log ++ [(s.i, false)] :=
      verdicts_append ..
    rw [if_pos hfailed]
    refine ⟨hwithin, by simp, ?_, fun j => ?_, ?_, fun j hj => ?_, fun j b hjb => ?_⟩
    · rw [hverdicts, List.map_append, h.judged, if_neg hacked, if_neg (by simp [JustAcked]),
        Nat.add_zero, Nat.add_zero, List.range_succ]
      rfl
    · rw [attempts_append, h.numbered j, hmisses, hverdicts]
      simp [attempts, UnderWay, hpc]
    · rw [hmisses, hfuture _ (Nat.lt_succ_self _)]
      simp
    · rw [hmisses]
      exact hfuture j (Nat.lt_of_succ_lt hj)
    · rw [hmisses]
      rw [hverdicts, List.mem_append, List.mem_singleton] at hjb
      rcases hjb with hjb | hjb
      · exact h.past j b hjb
      · cases hjb
        rw [hcurrent]
        exact ⟨hwithin, iff_of_true rfl (Nat.le_antisymm hwithin hfailed)⟩
  · have hacked : JustAcked P s := ⟨hpc, Nat.not_le.mp hfailed⟩
    rw [if_neg hfailed, List.append_nil]
    refine ⟨hwithin, by simp, ?_, fun j => ?_, ?_, fun j hj => ?_, h.past⟩
    · rw [h.judged, if_pos hacked, if_neg (by simp [JustAcked])]
    · rw [h.numbered j]
      simp [UnderWay, hpc]
    · rw [hfuture _ (Nat.lt_succ_self _)]
      simp
    · exact hfuture j (Nat.lt_of_succ_lt hj)

theorem Books.senderStep {drop timedOut : Bool} (h : Books P s)
    (hstep : StopAndWait.senderStep P drop timedOut s = some s') : Books P s' := by
  have hcurrent := h.current
  cases sends_of_step hstep with
  | nextPacket hpc =>
    refine h.congr rfl (Or.inl rfl) (by simp [JustAcked, hpc]) (fun j => by simp [UnderWay, hpc])
      (Nat.zero_le _) (by simp) ?_
    rw [hcurrent, hpc]
    simp
  | allSent hpc =>
    refine h.congr rfl (Or.inr ⟨_, silent_allSent, rfl⟩) (by simp [JustAcked, hpc])
      (fun j => by simp [UnderWay, hpc]) h.within (by simp) ?_
    rw [hcurrent, hpc]
    simp
  | attempt hpc hmore =>
    refine h.congr rfl (Or.inl rfl) (by simp [JustAcked, hpc]) (fun j => by simp [UnderWay, hpc])
      h.within (fun _ => hmore) ?_
    rw [hcurrent, hpc]
    simp
  | exhausted hpc hend =>
    refine h.congr rfl (Or.inl rfl) (by simp [JustAcked, hpc, hend])
      (fun j => by simp [UnderWay, hpc]) h.within (by simp) ?_
    rw [hcurrent, hpc]
    simp
  | announce hpc => exact h.announce hpc
  | lost hpc =>
    exact h.miss (Or.inl hpc) (fun _ => rfl) rfl fun j => by simp [misses, List.count_singleton]
  | notLost hpc =>
    refine h.congr rfl (Or.inl rfl) (by simp [JustAcked, hpc]) (fun j => by simp [UnderWay, hpc])
      h.within (fun _ => h.attempting (Or.inr (Or.inl hpc))) ?_
    rw [hcurrent, hpc]
    simp
  | gotAck hpc => exact h.gotAck hpc
  | timeout hpc =>
    exact h.miss (Or.inr hpc) (fun _ => rfl) rfl fun j => by simp [misses, List.count_singleton]
  | wait => exact h
  | failed hpc hfailed =>
    have hadvance := h.advance hpc
    rwa [if_pos hfailed] at hadvance
  | acked hpc hacked =>
    have hadvance := h.advance hpc
    rwa [if_neg hacked, List.append_nil] at hadvance
  | setDone hpc =>
    refine h.congr rfl (Or.inl rfl) (by simp [JustAcked, hpc]) (fun j => by simp [UnderWay, hpc])
      h.within (by simp) ?_
    rw [hcurrent, hpc]
    simp

theorem books (h : Reachable (stopAndWait P) s) : Books P s := by
  refine h.induct (books_start P) fun s a s' hs hstep => ?_
  cases a with
  | sender drop timedOut => exact hs.senderStep hstep
  | receiver drop => exact hs.receiverStep hstep

/-- **The sender's accounts**, in every reachable state.  The packets judged are those before the
current one, and that one too from the report of its ACK until the index advances, each judged once
and in order.  The attempts printed for a packet are numbered from 0 and are its misses, one more if
its ACK was reported, and one more while one is under way; a packet is given up exactly when it has
had `max_retries` misses, and none has more. -/
theorem stopAndWait_verdicts (h : Reachable (stopAndWait P) s) :
    (verdicts s.log).map Prod.fst = List.range (s.i + if JustAcked P s then 1 else 0) ∧
    (∀ j, attempts s.log j = List.range (misses s.log j +
      (if (j, true) ∈ verdicts s.log then 1 else 0) + if UnderWay s j then 1 else 0)) ∧
    (∀ j, misses s.log j ≤ P.maxRetries) ∧
    (∀ j b, (j, b) ∈ verdicts s.log → (b = false ↔ misses s.log j = P.maxRetries)) ∧
    (∀ j, (j, true) ∈ verdicts s.log → j < s.expectedSeq) := by
  have hB := books h
  refine ⟨hB.judged, hB.numbered, fun j => ?_, fun j b hjb => (hB.past j b hjb).2, fun j hj => ?_⟩
  · rcases Nat.lt_trichotomy j s.i with hlt | rfl | hgt
    · -- an earlier packet has its verdict
      have hmem : j ∈ (verdicts s.log).map Prod.fst := by
        rw [hB.judged, List.mem_range]
        omega
      obtain ⟨⟨j', b⟩, hjb, rfl⟩ := List.mem_map.mp hmem
      exact (hB.past j' b hjb).1
    · have hwithin := hB.within
      rw [hB.current]
      split <;> omega
    · rw [hB.future j hgt]
      exact Nat.zero_le _
  · -- a reported ACK is one of an accepted packet
    obtain ⟨e, he, hje⟩ := List.mem_filterMap.mp hj
    have hgot : Event.gotAck j ∈ s.log := by
      cases e with
      | gotAck i =>
        have hij : i = j := by simpa using hje
        exact hij ▸ he
      | failed i => simp at hje
      | _ => cases hje
    exact (inv h).gotAck_lt hgot

/-- A packet lost once, one whose wait times out once: both are judged, and both acknowledged. -/
theorem stopAndWait_verdicts_retried : ∃ s, Reachable (stopAndWait ⟨2, 3⟩) s ∧
    Event.lost 0 ∈ s.log ∧ Event.timeout 1 ∈ s.log ∧ (verdicts s.log).map Prod.fst = [0, 1] := by
  obtain ⟨s, hs, hp⟩ := exists_reachable_of_exec (M := stopAndWait ⟨2, 3⟩) retried
    (p := fun s => decide (Event.lost 0 ∈ s.log ∧ Event.timeout 1 ∈ s.log ∧ s.i = 2 ∧
      s.senderPc = .returned)) (by decide)
  obtain ⟨hlost, htimeout, hi, hpc⟩ := of_decide_eq_true hp
  have hjudged := (stopAndWait_verdicts hs).1
  rw [hi, if_neg (by simp [JustAcked, hpc])] at hjudged
  exact ⟨s, hs, hlost, htimeout, hjudged⟩

/-! ## The end of the sender's thread -/

/-- The steps the sender still has to take, polls of the ACK wait left out. -/
def senderWork (P : Params) (s : State) : Nat :=
  let later := (4 * P.maxRetries + 5) * (P.packetCount - s.i - 1)
  let tries := 4 * (P.maxRetries - s.retries)
  match s.senderPc with
  | .forTest => (4 * P.maxRetries + 5) * (P.packetCount - s.i) + 2
  | .whileTest => later + tries + 4
  | .announce => later + tries + 3
  | .lossCheck => later + tries + 2
  | .awaitAck => later + tries + 1
  | .afterWhile => later + 3
  | .setDone => 1
  | .returned => 0

/-- A sender's step takes its work down, or is a poll that finds no ACK in time. -/
theorem senderStep_work {drop timedOut : Bool} (hplace : Place P s) (hbooks : Books P s)
    (hstep : senderStep P drop timedOut s = some s') :
    senderWork P s' < senderWork P s ∨ (timedOut = false ∧ s' = s) := by
  have hat := hplace.at_pc
  have hattempting := hbooks.attempting
  -- the packet after this one
  have hlater : s.i < P.packetCount → (4 * P.maxRetries + 5) * (P.packetCount - s.i) =
      (4 * P.maxRetries + 5) * (P.packetCount - s.i - 1) + (4 * P.maxRetries + 5) := by
    intro hlt
    obtain ⟨k, hk⟩ : ∃ k, P.packetCount - s.i = k + 1 := ⟨P.packetCount - s.i - 1, by omega⟩
    rw [hk, Nat.add_sub_cancel, Nat.mul_succ]
  cases sends_of_step hstep with
  | nextPacket hpc hmore =>
    have heq := hlater hmore
    simp only [senderWork, hpc]
    omega
  | allSent hpc => simp only [senderWork, hpc]; omega
  | attempt hpc => simp only [senderWork, hpc]; omega
  | exhausted hpc => simp only [senderWork, hpc]; omega
  | announce hpc => simp only [senderWork, hpc]; omega
  | lost hpc =>
    have hlt := hattempting (Or.inr (Or.inl hpc))
    simp only [senderWork, hpc]
    omega
  | notLost hpc => simp only [senderWork, hpc]; omega
  | gotAck hpc =>
    have hlt := hattempting (Or.inr (Or.inr hpc))
    simp only [senderWork, hpc]
    omega
  | timeout hpc =>
    have hlt := hattempting (Or.inr (Or.inr hpc))
    simp only [senderWork, hpc]
    omega
  | wait hpc _ hlate => exact Or.inr ⟨hlate, rfl⟩
  | failed hpc | acked hpc =>
    simp only [senderWork, hpc, Nat.sub_sub]
    omega
  | setDone hpc => simp only [senderWork, hpc]; omega

/-- The receiver's steps after the sender has returned. -/
def receiverWork (P : Params) (s : State) : Nat :=
  match s.receiverPc with
  | .loopTest => if s.expectedSeq < P.packetCount then 4 else 1
  | .block => if s.expectedSeq < P.packetCount then 3 else 2
  | .returned => 0

theorem receiverWork_le : receiverWork P s ≤ 4 := by
  unfold receiverWork
  split
  · split <;> omega
  · split <;> omega
  · omega

def work (P : Params) (s : State) : Nat :=
  if s.senderPc = .returned then receiverWork P s else senderWork P s + 4

/-- Both threads are through, or the sender is and the receiver never will be. -/
def Over (P : Params) (s : State) : Prop :=
  s.senderPc = .returned ∧ (s.receiverPc = .returned ∨ Stranded P s)

inductive Thread where
  | sender
  | receiver

/-- A step of the thread; one of the sender counts when the wait it may be in has timed out. -/
def Turn : Thread → Action → Prop
  | .sender, a => ∃ drop, a = .sender drop true
  | .receiver, a => ∃ drop, a = .receiver drop

/-- The sender until it returns, then the receiver. -/
def Helpful : Thread → State → Prop
  | .sender, s => s.senderPc ≠ .returned
  | .receiver, s => s.senderPc = .returned

theorem Helpful.isSome {p : Thread} {a : Action} (hmore : ¬Over P s) (hp : Helpful p s)
    (hturn : Turn p a) : (step P s a).isSome := by
  cases p with
  | sender =>
    obtain ⟨drop, rfl⟩ := hturn
    show (senderStep P drop true s).isSome
    unfold senderStep
    split
    · split <;> rfl
    · rfl
    · rfl
    · split <;> rfl
    · split <;> rfl
    · rfl
    · rfl
    · rename_i hpc
      exact absurd hpc hp
  | receiver =>
    obtain ⟨drop, rfl⟩ := hturn
    show (receiverStep P drop s).isSome
    unfold receiverStep
    split
    · split <;> rfl
    · split
      · split <;> rfl
      · rfl
    · rename_i hpc
      exact absurd ⟨hp, Or.inl hpc⟩ hmore

/-- After the sender has returned, each step of the receiver brings it nearer to its own return or
leaves it stranded. -/
theorem receiverStep_work {drop : Bool} (hplace : Place P s) (hpc : s.senderPc = .returned)
    (hmore : ¬Over P s) (hstep : receiverStep P drop s = some s') :
    Over P s' ∨ work P s' < work P s := by
  have hat := hplace.at_pc
  rw [hpc] at hat
  obtain ⟨hdone, hi, hprev⟩ := hat
  unfold work
  rw [if_pos hpc]
  cases receives_of_step hstep with
  | enter hrecv hgo =>
    have hmissing : s.expectedSeq < P.packetCount := by
      rcases hgo with hnot | hmissing
      · rw [hdone] at hnot
        cases hnot
      · exact hmissing
    right
    simp [receiverWork, hpc, hrecv, hmissing]
  | finished => exact Or.inl ⟨hpc, Or.inl rfl⟩
  | ackLost hrecv hfull hmatch =>
    refine Or.inl ⟨hpc, Or.inr ⟨hdone, ?_, ?_⟩⟩
    · show s.expectedSeq < P.packetCount
      rcases hprev with hempty | hprev
      · omega
      · omega
    · show (-1 : Int) ≠ s.expectedSeq
      omega
  | accept hrecv hfull hmatch =>
    -- the packet in the mailbox is the last one
    have hlast : s.expectedSeq + 1 = P.packetCount := by
      rcases hprev with hempty | hprev
      · omega
      · omega
    right
    simp [receiverWork, hpc, hrecv, hlast, Nat.lt_of_succ_le (Nat.le_of_eq hlast)]
  | ignore hrecv hother =>
    have hall : ¬s.expectedSeq < P.packetCount := by
      intro hmissing
      refine hmore ⟨hpc, Or.inr ⟨hdone, hmissing, fun hmatch => hother ⟨?_, hmatch⟩⟩⟩
      omega
    right
    simp [receiverWork, hpc, hrecv, hall]

theorem Helpful.step {p : Thread} {a : Action} (h : Reachable (stopAndWait P) s)
    (hmore : ¬Over P s) (hp : Helpful p s) (hstep : StopAndWait.step P s a = some s') :
    Over P s' ∨ work P s' < work P s ∨ (work P s' ≤ work P s ∧ ¬Turn p a ∧ Helpful p s') := by
  have hplace := place h
  cases p with
  | sender =>
    have hpc : s.senderPc ≠ .returned := hp
    cases a with
    | sender drop timedOut =>
      rcases senderStep_work hplace (books h) hstep with hlt | ⟨hlate, rfl⟩
      · refine Or.inr (Or.inl ?_)
        have hrest := receiverWork_le (P := P) (s := s')
        unfold work
        rw [if_neg hpc]
        split <;> omega
      · refine Or.inr (Or.inr ⟨le_refl _, ?_, hp⟩)
        rintro ⟨_, ha⟩
        cases ha
        cases hlate
    | receiver drop =>
      obtain ⟨⟨hi, hretries, hpc', -⟩, -⟩ := receiverStep_cases hstep
      have hpc'' : s'.senderPc ≠ .returned := by rwa [hpc']
      refine Or.inr (Or.inr ⟨Nat.le_of_eq ?_, ?_, hpc''⟩)
      · unfold work
        rw [if_neg hpc, if_neg hpc'']
        simp only [senderWork, hi, hretries, hpc']
      · rintro ⟨_, ha⟩
        cases ha
  | receiver =>
    have hpc : s.senderPc = .returned := hp
    cases a with
    | sender drop timedOut =>
      have hat := hplace.at_pc
      rw [hpc] at hat
      have hnone : StopAndWait.step P s (.sender drop timedOut) = none :=
        hplace.sender_done hat.1
      rw [hnone] at hstep
      cases hstep
    | receiver drop =>
      rcases receiverStep_work hplace hpc hmore hstep with hover | hlt
      · exact Or.inl hover
      · exact Or.inr (Or.inl hlt)

theorem Over.step {a : Action} (h : Reachable (stopAndWait P) s) (hs : Over P s)
    (hstep : StopAndWait.step P s a = some s') : Over P s' := by
  obtain ⟨hpc, hover⟩ := hs
  have hplace := place h
  have hat := hplace.at_pc
  rw [hpc] at hat
  cases a with
  | sender drop timedOut =>
    have hnone : StopAndWait.step P s (.sender drop timedOut) = none := hplace.sender_done hat.1
    rw [hnone] at hstep
    cases hstep
  | receiver drop =>
    obtain ⟨⟨-, -, hpc', -⟩, -⟩ := receiverStep_cases hstep
    refine ⟨hpc'.trans hpc, ?_⟩
    rcases hover with hreturned | hstranded
    · exfalso
      cases receives_of_step hstep with
      | enter hrecv | finished hrecv | ackLost hrecv | accept hrecv | ignore hrecv =>
        rw [hreturned] at hrecv
        cases hrecv
    · exact Or.inr (hstranded.step hplace hstep).1

/-- No packet beyond the last is accepted. -/
theorem expectedSeq_le (h : Reachable (stopAndWait P) s) : s.expectedSeq ≤ P.packetCount := by
  induction h with
  | init => exact Nat.zero_le _
  | @step s s' a hr hstep ih =>
    cases a with
    | sender drop timedOut =>
      obtain ⟨hexpected, -⟩ := senderStep_cases hstep
      rw [hexpected]
      exact ih
    | receiver drop =>
      obtain ⟨-, ⟨-, hexpected, -⟩ | ⟨-, hfull, hmatch, -, ⟨-, hexpected⟩ | ⟨-, hexpected⟩⟩⟩ :=
        receiverStep_cases hstep
      · rw [hexpected]; exact ih
      · rw [hexpected]; exact ih
      · have hpending := (inv hr).pending
        have hat := (place hr).at_pc
        unfold PlaceAt Previous Current at hat
        rw [hexpected]
        split at hat <;> omega

/-- **The simulation ends or strands the receiver**: if both threads run again and again, the
sender also when its wait has timed out, then from some moment on the sender has returned, with
one verdict for each packet in order; and the receiver either has returned, all packets accepted
in order, or is stranded and never returns. -/
theorem stopAndWait_ends {sched : Nat → Action}
    (hsender : Recurs (stopAndWait P) sched fun _ a => ∃ drop, a = .sender drop true)
    (hreceiver : Recurs (stopAndWait P) sched fun _ a => ∃ drop, a = .receiver drop) :
    ∃ n, ∀ m, n ≤ m →
      (let s := trace (stopAndWait P) sched m
       s.senderPc = .returned ∧ (verdicts s.log).map Prod.fst = List.range P.packetCount ∧
       ((s.receiverPc = .returned ∧ accepted s.log = upTo P.packetCount) ∨
        (Stranded P s ∧ s.receiverPc ≠ .returned))) := by
  have hfair : ∀ p, Recurs (stopAndWait P) sched fun _ a => Turn p a := by
    intro p
    cases p with
    | sender => exact hsender
    | receiver => exact hreceiver
  obtain ⟨n, -, hn⟩ := eventually_of_rank (G := Over P) (H := Helpful)
    (T := fun p _ a => Turn p a) (work P)
    (fun s _ _ => by
      by_cases hpc : s.senderPc = .returned
      · exact ⟨.receiver, hpc⟩
      · exact ⟨.sender, hpc⟩)
    (fun p s a _ hmore hp hturn => hp.isSome hmore hturn)
    (fun p s a s' h hmore hp hstep => hp.step h hmore hstep) hfair 0
  refine ⟨n, fun m hm => ?_⟩
  have hreach : Reachable (stopAndWait P) (trace (stopAndWait P) sched m) := trace_reachable m
  obtain ⟨hpc, hover⟩ := eventually_forever (G := Over P)
    (fun s a s' h hs hstep => hs.step h hstep) hn m hm
  have hat := (place hreach).at_pc
  rw [hpc] at hat
  have hjudged := (books hreach).judged
  rw [if_neg (by simp [JustAcked, hpc]), hat.2.1] at hjudged
  refine ⟨hpc, hjudged, ?_⟩
  by_cases hreturned : (trace (stopAndWait P) sched m).receiverPc = .returned
  · refine Or.inl ⟨hreturned, ?_⟩
    have hge := (receiver_returned hreach hreturned).2
    have hle := expectedSeq_le hreach
    rw [(inv hreach).inOrder, Nat.le_antisymm hle hge]
  · exact Or.inr ⟨hover.resolve_left hreturned, hreturned⟩

/-- The program's own constants, the threads in turn and nothing lost. -/
theorem stopAndWait_ends_program : ∃ n, ∀ m, n ≤ m →
    (trace (stopAndWait ⟨5, 3⟩)
      (fun k => if k % 2 = 0 then .sender false true else .receiver false) m).senderPc =
        .returned := by
  have hsender : Recurs (stopAndWait ⟨5, 3⟩)
      (fun k => if k % 2 = 0 then .sender false true else .receiver false)
      fun _ a => ∃ drop, a = .sender drop true :=
    fun n => ⟨2 * n, by omega, false, if_pos (by omega)⟩
  obtain ⟨n, hn⟩ := stopAndWait_ends hsender
    (fun n => ⟨2 * n + 1, by omega, false, if_neg (by omega)⟩)
  exact ⟨n, fun m hm => (hn m hm).1⟩

end CampusNet.StopAndWait
