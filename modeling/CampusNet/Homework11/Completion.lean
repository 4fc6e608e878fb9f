import CampusNet.Homework11.SlidingWindow
import CampusNet.Lib.Fairness

/-!
# Completion of the sliding window transfer

The receiver's block delivers the packet at its base as soon as `should_drop` lets it through, and
the sender's block takes over all acknowledgements; so a schedule that runs both threads again and
again, and does not drop the packet at the receiver's base for ever, ends both loops.

* `ReceiverBlock.base_le`, `ReceiverBlock.base_lt` — what the receiver's block does to its base.
* `slidingWindow_completes` — both threads end; what the final summary of `main` prints then.
-/

namespace CampusNet.SlidingWindow

open Runs Fairness

variable {P : Params} {s s' : State}

inductive Thread where
  | sender
  | receiver

/-- A block of the thread; one of the receiver's counts when the packet at its base is let
through. -/
def Turn : Thread → State → Action → Prop
  | .sender, _, a => ∃ drop, a = .sender drop
  | .receiver, s, a => ∃ drop, a = .receiver drop ∧ drop s.receiver.base = false

/-- Packets still to be delivered and acknowledgements still to be taken. -/
def remaining (P : Params) (s : State) : Nat :=
  (P.total - s.receiver.base) + (P.total - s.sender.base)

/-- The thread whose turn brings the transfer on. -/
def Helpful (P : Params) : Thread → State → Prop
  | .sender, s => s.receiver.base = P.total ∧ s.sender.base < P.total
  | .receiver, s => s.receiver.base < P.total

/-! ## The two blocks -/

theorem ReceiverBlock.base_le {drop : Nat → Bool} (h : Inv P s) (hb : ReceiverBlock P drop s s') :
    s.receiver.base ≤ s'.receiver.base := by
  by_contra hlt
  exact hb.missing ((hb.received _).mpr (Or.inl (h.received _ (Nat.not_le.mp hlt))))

/-- A packet at the base that is let through is delivered. -/
theorem ReceiverBlock.base_lt {drop : Nat → Bool} (h : Inv P s) (hb : ReceiverBlock P drop s s')
    (hwindow : 0 < P.recvWindow) (hmore : s.receiver.base < P.total)
    (hkept : drop s.receiver.base = false) : s.receiver.base < s'.receiver.base := by
  have hgot : s'.receiver.received[s.receiver.base]? = some true :=
    (hb.received _).mpr (Or.inr ⟨le_refl _, by omega, hmore, hkept⟩)
  refine lt_of_le_of_ne (hb.base_le h) fun heq => hb.missing ?_
  rw [← heq]
  exact hgot

/-- Once an acknowledgement is taken, a whole window has been sent. -/
theorem window_sent (h : Reachable (slidingWindow P) s) :
    s.sender.base = 0 ∨ min P.total P.sendWindow ≤ s.sender.nextSeq := by
  induction h with
  | init => exact Or.inl rfl
  | step hr hstep ih =>
    obtain ⟨_, -, hb⟩ | ⟨_, -, hb⟩ := step_cases (inv hr) hstep
    · right
      rw [hb.nextSeq]
      omega
    · rw [hb.senderBase, hb.senderNext]
      exact ih

/-! ## Progress -/

theorem exists_helpful (h : Reachable (slidingWindow P) s) (hmore : s.sender.base ≠ P.total) :
    ∃ p, Helpful P p s := by
  have hI := inv h
  have hbehind := hI.behind
  have htotal := hI.inTotal
  by_cases hlast : s.receiver.base < P.total
  · exact ⟨.receiver, hlast⟩
  · exact ⟨.sender, by omega, by omega⟩

theorem Helpful.isSome {p : Thread} {a : Action} (h : Reachable (slidingWindow P) s)
    (hp : Helpful P p s) (hturn : Turn p s a) : (step P s a).isSome := by
  have hI := inv h
  have hacked := hI.acked
  have hdelivered := hI.delivered
  cases p with
  | sender =>
    obtain ⟨drop, rfl⟩ := hturn
    obtain ⟨t, ht, -⟩ := senderBlock_spec drop hI
    have hgo : s.sender.ackedCount < P.total := by
      have hlt := hp.2
      omega
    simp only [step, if_pos hgo, ht, Option.isSome_some]
  | receiver =>
    obtain ⟨drop, rfl, -⟩ := hturn
    obtain ⟨t, ht, -⟩ := receiverBlock_spec drop hI
    have hgo : s.receiver.receivedCount < P.total := by
      have hlt : s.receiver.base < P.total := hp
      omega
    simp only [step, if_pos hgo, ht, Option.isSome_some]

/-- The helpful turn brings the transfer on; every other block does too, or leaves the same turn
helpful. -/
theorem Helpful.step {p : Thread} {a : Action} (hwindow : 0 < P.recvWindow)
    (h : Reachable (slidingWindow P) s) (hp : Helpful P p s)
    (hstep : SlidingWindow.step P s a = some s') :
    s'.sender.base = P.total ∨ remaining P s' < remaining P s ∨
      (remaining P s' ≤ remaining P s ∧ ¬Turn p s a ∧ Helpful P p s') := by
  have hI := inv h
  have hbehind := hI.behind
  unfold remaining
  obtain ⟨drop, rfl, hb⟩ | ⟨drop, rfl, hb⟩ := step_cases hI hstep
  · -- the sender takes over the acknowledgements of all packets delivered
    have hbase := hb.base
    cases p with
    | sender =>
      left
      rw [hbase]
      exact hp.1
    | receiver =>
      refine Or.inr (Or.inr ⟨?_, ?_, ?_⟩)
      · rw [hbase, hb.receiver]
        omega
      · rintro ⟨_, ha, -⟩
        cases ha
      · show s'.receiver.base < P.total
        rw [hb.receiver]
        exact hp
  · have hsender := hb.senderBase
    have hle := hb.base_le hI
    have hdelivered := hI.delivered
    cases p with
    | sender =>
      -- the receiver's loop has ended
      have hlast := hp.1
      have hstopped : ¬s.receiver.receivedCount < P.total := by omega
      simp only [SlidingWindow.step, if_neg hstopped, reduceCtorEq] at hstep
    | receiver =>
      have hmore : s.receiver.base < P.total := hp
      rcases Nat.lt_or_ge s.receiver.base s'.receiver.base with hlt | hge
      · exact Or.inr (Or.inl (by omega))
      · refine Or.inr (Or.inr ⟨by omega, ?_, ?_⟩)
        · rintro ⟨drop', ha, hkept⟩
          cases ha
          have hlt := hb.base_lt hI hwindow hmore hkept
          omega
        · show s'.receiver.base < P.total
          omega

/-- **The transfer completes**: under a schedule that runs the sender's block again and again, and
again and again a block of the receiver that does not drop the packet at its base, both threads
end and nothing changes any more.  All packets are then delivered in order and acknowledged, and
the number of packets sent lies between one window and the total. -/
theorem slidingWindow_completes {sched : Nat → Action} (hwindow : 0 < P.recvWindow)
    (hsender : Recurs (slidingWindow P) sched (Turn .sender))
    (hreceiver : Recurs (slidingWindow P) sched (Turn .receiver)) :
    ∃ n, ∀ m, n ≤ m →
      trace (slidingWindow P) sched m = trace (slidingWindow P) sched n ∧
      (let s := trace (slidingWindow P) sched m
       (s.sender.base = P.total ∧ s.sender.ackedCount = P.total) ∧
       (s.receiver.base = P.total ∧ s.receiver.receivedCount = P.total) ∧
       acks s.log = List.range P.total ∧
       min P.total P.sendWindow ≤ s.sender.sentCount ∧ s.sender.sentCount ≤ P.total) := by
  have hfair : ∀ p, Recurs (slidingWindow P) sched (Turn p) := by
    intro p
    cases p with
    | sender => exact hsender
    | receiver => exact hreceiver
  obtain ⟨n, -, hn⟩ := eventually_of_rank (G := fun s => s.sender.base = P.total)
    (H := Helpful P) (T := Turn) (remaining P) (fun s h hmore => exists_helpful h hmore)
    (fun p s a h _ hp hturn => hp.isSome h hturn)
    (fun p s a s' h _ hp hstep => hp.step hwindow h hstep) hfair 0
  have hreach : Reachable (slidingWindow P) (trace (slidingWindow P) sched n) := trace_reachable n
  have hsent := window_sent hreach
  have hI := inv hreach
  have hacked := hI.acked
  have hbehind := hI.behind
  have hdelivered := hI.delivered
  have htotal := hI.inTotal
  have hcount := hI.sent
  have hnext := hI.nextTotal
  have hinOrder := hI.inOrder
  have hlast : (trace (slidingWindow P) sched n).receiver.base = P.total := by omega
  have hstopped : ∀ a, (slidingWindow P).step (trace (slidingWindow P) sched n) a = none := by
    intro a
    cases a with
    | sender drop => exact if_neg (by omega)
    | receiver drop => exact if_neg (by omega)
  refine ⟨n, fun m hm => ?_⟩
  rw [trace_stable hstopped m hm]
  refine ⟨rfl, ⟨hn, by omega⟩, ⟨hlast, by omega⟩, ?_, by omega, by omega⟩
  rw [hinOrder, hlast]

/-- The program's own constants, the threads in turn, every other block of the receiver losing
everything. -/
theorem slidingWindow_completes_program : ∃ n, ∀ m, n ≤ m →
    (trace (slidingWindow ⟨10, 4, 4⟩) (fun k => if k % 2 = 0 then .sender fun _ => false
      else .receiver fun _ => k % 4 == 1) m).receiver.base = 10 := by
  have hsender : Recurs (slidingWindow ⟨10, 4, 4⟩) (fun k => if k % 2 = 0 then
      .sender fun _ => false else .receiver fun _ => k % 4 == 1) (Turn .sender) :=
    fun n => ⟨2 * n, by omega, fun _ => false, if_pos (by omega)⟩
  obtain ⟨n, hn⟩ := slidingWindow_completes (by decide) hsender
    (fun n => ⟨4 * n + 3, by omega, fun _ => (4 * n + 3) % 4 == 1, if_neg (by omega), by
      show ((4 * n + 3) % 4 == 1) = false
      rw [beq_eq_false_iff_ne]
      omega⟩)
  exact ⟨n, fun m hm => (hn m hm).2.2.1.1⟩

end CampusNet.SlidingWindow
