import CampusNet.Homework11.SlidingWindow

/-!
# Which packets the sliding window receiver receives

The receiver's loop does not look at what the sender has transmitted.

* `OnlyTransmitted` — every received packet was transmitted and not dropped, and the counters
  are as this implies.
* `AdmitsSent` — the side condition on a receiver's block: the packets of its window that
  `should_drop` lets through and that it has not received yet were transmitted and not dropped.
* `onlyTransmitted_iff` — a run is `OnlyTransmitted` throughout exactly when its steps all meet
  the condition.
* `receiverFirst` — a run that does not: the receiver's thread is scheduled first.
-/

namespace CampusNet.SlidingWindow

open Runs

structure OnlyTransmitted (s : State) : Prop where
  received : ∀ i, s.receiver.received[i]? = some true → Sent s i
  before : ∀ i, s.receiver.received[i]? = some true ∨ s.sender.ackReceived[i]? = some true →
    i < s.sender.nextSeq
  base : s.sender.base ≤ s.sender.nextSeq
  counts : s.sender.ackedCount ≤ s.sender.sentCount

/-- What a receiver's block newly receives has been transmitted without a drop. -/
def AdmitsSent (P : Params) (s : State) : Action → Prop
  | .receiver drop => ∀ j, s.receiver.base ≤ j → j < s.receiver.base + P.recvWindow →
      j < P.total → drop j = false → s.receiver.received[j]? ≠ some true → Sent s j
  | .sender _ => True

instance (P : Params) (s : State) : (a : Action) → Decidable (AdmitsSent P s a)
  | .receiver drop => decidable_of_iff (∀ j ∈ List.range P.total, s.receiver.base ≤ j →
      j < s.receiver.base + P.recvWindow → drop j = false →
        s.receiver.received[j]? ≠ some true → Sent s j)
      ⟨fun h j hbase hend htotal => h j (List.mem_range.mpr htotal) hbase hend,
        fun h j hj hbase hend => h j hbase hend (List.mem_range.mp hj)⟩
  | .sender _ => inferInstanceAs (Decidable True)

/-- The counters follow from the received packets. -/
theorem Inv.received_suffices {P : Params} {s : State} (h : Inv P s) :
    OnlyTransmitted s ↔ ∀ i, s.receiver.received[i]? = some true → Sent s i := by
  refine ⟨OnlyTransmitted.received, fun hsent => ?_⟩
  have hbefore : ∀ i, s.receiver.received[i]? = some true → i < s.sender.nextSeq :=
    fun i hi => h.sentNext i (hsent i hi)
  have hbase : s.sender.base ≤ s.sender.nextSeq := by
    rcases Nat.eq_zero_or_pos s.sender.base with hzero | hpos
    · omega
    · have hbehind := h.behind
      have := hbefore (s.sender.base - 1) (h.received _ (by omega))
      omega
  refine ⟨hsent, fun i hi => ?_, hbase, ?_⟩
  · rcases hi with hi | hi
    · exact hbefore i hi
    · exact hbefore i (h.received i ((h.ackReceived i).mp hi))
  · rw [← h.acked, ← h.sent]
    exact hbase

theorem step_onlyTransmitted {P : Params} {s s' : State} {a : Action} (hI : Inv P s)
    (h : OnlyTransmitted s) (hstep : step P s a = some s') :
    OnlyTransmitted s' ↔ AdmitsSent P s a := by
  have hI' := hI.step hstep
  rw [hI'.received_suffices]
  obtain ⟨drop, rfl, hblock⟩ | ⟨drop, rfl, hblock⟩ := step_cases hI hstep
  · refine iff_of_true (fun i hi => hblock.sent i (h.received i ?_)) trivial
    rw [← hblock.receiver]
    exact hi
  · constructor
    · intro hall j h1 h2 h3 hdrop _
      exact (hblock.sent j).mp (hall j ((hblock.received j).mpr (Or.inr ⟨h1, h2, h3, hdrop⟩)))
    · intro hadmits j hj
      rw [hblock.sent j]
      by_cases hold : s.receiver.received[j]? = some true
      · exact h.received j hold
      · obtain ⟨h1, h2, h3, hdrop⟩ := ((hblock.received j).mp hj).resolve_left hold
        exact hadmits j h1 h2 h3 hdrop hold

/-- **Only transmitted packets are received, exactly** when every receiver's block admits only
such packets. -/
theorem onlyTransmitted_iff {P : Params} {h : List (State × Action)} {s : State}
    (hr : Run (slidingWindow P) h s) :
    Throughout OnlyTransmitted h s ↔ ∀ p ∈ h, AdmitsSent P p.1 p.2 := by
  refine hr.always_iff ?_ fun s a s' hs hone hstep => step_onlyTransmitted (inv hs) hone hstep
  exact (inv_init P).received_suffices.mpr fun i hi => absurd hi (getElem?_replicate_ne _ _)

/-- Packet 2 is dropped on its way, and the others of the first six are received. -/
def thirdDropped : List Action :=
  [.sender fun i => i == 2, .receiver fun i => i == 2, .sender fun _ => false,
    .sender fun _ => false, .receiver fun i => i == 2]

theorem onlyTransmitted_iff_thirdDropped : ∃ h s, Run (slidingWindow ⟨10, 4, 4⟩) h s ∧
    h.map Prod.snd = thirdDropped.reverse ∧ s.sender.sentCount = 6 ∧
    s.receiver.received.count true = 5 ∧ Throughout OnlyTransmitted h s := by
  obtain ⟨h, s, hr, hmap, hp⟩ := exists_run_of_replay (M := slidingWindow ⟨10, 4, 4⟩) thirdDropped
    (p := fun r => decide (r.2.sender.sentCount = 6 ∧ r.2.receiver.received.count true = 5 ∧
      ∀ q ∈ r.1, AdmitsSent ⟨10, 4, 4⟩ q.1 q.2)) (by decide)
  obtain ⟨hsent, hreceived, hok⟩ := of_decide_eq_true hp
  exact ⟨h, s, hr, hmap, hsent, hreceived, (onlyTransmitted_iff hr).mpr hok⟩

/-- With the program's constants: the receiver's block runs twice before the sender's first. -/
def receiverFirst : List Action :=
  [.receiver fun _ => false, .receiver fun _ => false, .sender fun _ => false]

theorem receiverFirst_breaks_onlyTransmitted :
    ∃ s, Reachable (slidingWindow ⟨10, 4, 4⟩) s ∧ ¬ OnlyTransmitted s ∧
      s.sender.nextSeq < s.sender.base := by
  obtain ⟨s, hs, hp⟩ := exists_reachable_of_exec (M := slidingWindow ⟨10, 4, 4⟩)
    receiverFirst
    (p := fun s => decide (s.receiver.received[4]? = some true ∧ ¬ Sent s 4 ∧
      s.sender.nextSeq < s.sender.base)) (by decide)
  obtain ⟨hgot, hnot, hcounts⟩ := of_decide_eq_true hp
  exact ⟨s, hs, fun hone => hnot (hone.received 4 hgot), hcounts⟩

end CampusNet.SlidingWindow
