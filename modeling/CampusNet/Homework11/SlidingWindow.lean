import CampusNet.Lib.Loop
import CampusNet.Lib.Runs
import Mathlib.Data.List.Basic
import Mathlib.Data.List.Range

/-!
# The sliding window simulation

Model of `homework11/sliding_window.cpp` for any number of packets and any window sizes in place
of the three constants.  Each locked block of a thread is one step; `drop i` is the outcome of
the block's call of `should_drop` for packet `i` (no packet is asked about twice in a block).

* `senderBlock`, `receiverBlock` — the locked blocks; `none` is an array index out of range.
* `slidingWindow` — any interleaving of the two threads, with the lines printed so far.
* `Inv` — the invariant, kept by every round of the four loops.
* `slidingWindow_safe` — the counters and arrays in every reachable state.

All counters stay at most `total` and all window ends at most `total` plus a window size, so no
`int` sum overflows while these fit.
-/

namespace CampusNet.SlidingWindow

open Runs Loop

structure Params where
  total : Nat
  sendWindow : Nat
  recvWindow : Nat

structure SenderWindow where
  base : Nat
  nextSeq : Nat
  ackReceived : List Bool
  sentCount : Nat
  ackedCount : Nat

structure ReceiverWindow where
  base : Nat
  received : List Bool
  receivedCount : Nat

/-- The lines the two threads print. -/
inductive Event where
  | sending (i : Nat)
  | dropped (i : Nat)
  | received (i : Nat)
  | sendingAck (i : Nat)
  deriving DecidableEq, Repr

structure State where
  sender : SenderWindow
  receiver : ReceiverWindow
  log : List Event

/-- `init_windows`. -/
def initWindows (P : Params) : State :=
  ⟨⟨0, 0, List.replicate P.total false, 0, 0⟩, ⟨0, List.replicate P.total false, 0⟩, []⟩

/-- `a[i] = 1`. -/
def mark (a : List Bool) (i : Nat) : Option (List Bool) :=
  if i < a.length then some (a.set i true) else none

/-! ## The sender's block -/

def sendBody (P : Params) (drop : Nat → Bool) (s : State) : Option (ForInStep State) :=
  if s.sender.nextSeq < s.sender.base + P.sendWindow ∧ s.sender.nextSeq < P.total then
    some (.yield { s with
      sender := { s.sender with
        nextSeq := s.sender.nextSeq + 1, sentCount := s.sender.sentCount + 1 },
      log := s.log ++ [if drop s.sender.nextSeq then .dropped s.sender.nextSeq
        else .sending s.sender.nextSeq] })
  else some (.done s)

/-- The `for` loop over the acks; the loop variable is paired with the state. -/
def ackBody (P : Params) : Nat × State → Option (ForInStep (Nat × State))
  | (i, s) =>
    if i < P.total then do
      let ack ← s.sender.ackReceived[i]?
      if ack = true ∧ i = s.sender.base then
        some (.yield (i + 1, { s with
          sender := { s.sender with
            base := s.sender.base + 1, ackedCount := s.sender.ackedCount + 1 } }))
      else if ack = false then some (.done (i, s))
      else some (.yield (i + 1, s))
    else some (.done (i, s))

def senderBlock (P : Params) (drop : Nat → Bool) (s : State) : Option State := do
  let s ← loop (sendBody P drop) (P.total + 1) s
  let (_, s) ← loop (ackBody P) (P.total + 1) (s.sender.base, s)
  some s

/-! ## The receiver's block -/

def recvBody (P : Params) (drop : Nat → Bool) : Nat × State → Option (ForInStep (Nat × State))
  | (i, s) =>
    if i < s.receiver.base + P.recvWindow ∧ i < P.total then do
      let received ← s.receiver.received[i]?
      if received = false ∧ drop i = false then do
        let marked ← mark s.receiver.received i
        some (.yield (i + 1, { s with
          receiver := { s.receiver with received := marked }, log := s.log ++ [.received i] }))
      else some (.yield (i + 1, s))
    else some (.done (i, s))

def deliverBody (P : Params) (s : State) : Option (ForInStep State) :=
  if s.receiver.base < P.total then do
    let received ← s.receiver.received[s.receiver.base]?
    if received then do
      let marked ← mark s.sender.ackReceived s.receiver.base
      some (.yield {
        sender := { s.sender with ackReceived := marked },
        receiver := { s.receiver with
          base := s.receiver.base + 1, receivedCount := s.receiver.receivedCount + 1 },
        log := s.log ++ [.sendingAck s.receiver.base] })
    else some (.done s)
  else some (.done s)

def receiverBlock (P : Params) (drop : Nat → Bool) (s : State) : Option State := do
  let (_, s) ← loop (recvBody P drop) (P.total + 1) (s.receiver.base, s)
  loop (deliverBody P) (P.total + 1) s

/-! ## The threads -/

inductive Action where
  | sender (drop : Nat → Bool)
  | receiver (drop : Nat → Bool)

def step (P : Params) (s : State) : Action → Option State
  | .sender drop => if s.sender.ackedCount < P.total then senderBlock P drop s else none
  | .receiver drop => if s.receiver.receivedCount < P.total then receiverBlock P drop s else none

def slidingWindow (P : Params) : Machine State Action := ⟨initWindows P, step P⟩

/-- The packets acknowledged so far, in order. -/
def acks (log : List Event) : List Nat :=
  log.filterMap fun e => match e with
    | .sendingAck i => some i
    | _ => none

/-- Packet `i` was transmitted and the transmission was not dropped. -/
def Sent (s : State) (i : Nat) : Prop := Event.sending i ∈ s.log

instance (s : State) (i : Nat) : Decidable (Sent s i) := inferInstanceAs (Decidable (_ ∈ _))

/-! ## The invariant -/

structure Inv (P : Params) (s : State) : Prop where
  ackLength : s.sender.ackReceived.length = P.total
  recvLength : s.receiver.received.length = P.total
  acked : s.sender.base = s.sender.ackedCount
  behind : s.sender.base ≤ s.receiver.base
  delivered : s.receiver.base = s.receiver.receivedCount
  inTotal : s.receiver.base ≤ P.total
  ackReceived : ∀ i, s.sender.ackReceived[i]? = some true ↔ i < s.receiver.base
  received : ∀ i, i < s.receiver.base → s.receiver.received[i]? = some true
  ahead : ∀ i, s.receiver.base + P.recvWindow ≤ i → s.receiver.received[i]? ≠ some true
  sent : s.sender.nextSeq = s.sender.sentCount
  nextTotal : s.sender.nextSeq ≤ P.total
  nextWindow : s.sender.nextSeq ≤ s.sender.base + P.sendWindow
  inOrder : acks s.log = List.range s.receiver.base
  sentNext : ∀ i, Sent s i → i < s.sender.nextSeq

theorem getElem?_replicate_ne (n i : Nat) : (List.replicate n false)[i]? ≠ some true := by
  rw [List.getElem?_replicate]
  split <;> simp

theorem inv_init (P : Params) : Inv P (initWindows P) where
  ackLength := List.length_replicate
  recvLength := List.length_replicate
  acked := rfl
  behind := le_refl _
  delivered := rfl
  inTotal := Nat.zero_le _
  ackReceived := fun i => iff_of_false (getElem?_replicate_ne _ _) (Nat.not_lt_zero i)
  received := fun i h => absurd h (Nat.not_lt_zero i)
  ahead := fun _ _ => getElem?_replicate_ne _ _
  sent := rfl
  nextTotal := Nat.zero_le _
  nextWindow := Nat.zero_le _
  inOrder := rfl
  sentNext := fun _ h => absurd h List.not_mem_nil

theorem mark_eq {a : List Bool} {i : Nat} (h : i < a.length) : mark a i = some (a.set i true) :=
  if_pos h

theorem marked_iff {a : List Bool} {i j : Nat} (h : i < a.length) :
    (a.set i true)[j]? = some true ↔ j = i ∨ a[j]? = some true := by
  rw [List.getElem?_set]
  by_cases hij : i = j
  · subst hij; simp [h]
  · rw [if_neg hij]
    exact ⟨Or.inr, fun hor => hor.resolve_left (fun he => hij he.symm)⟩

theorem acks_append (log : List Event) (e : Event) :
    acks (log ++ [e]) = acks log ++ acks [e] := List.filterMap_append

theorem sent_append {s : State} {i : Nat} {e : Event} :
    Event.sending i ∈ s.log ++ [e] ↔ Sent s i ∨ e = .sending i := by
  rw [List.mem_append, List.mem_singleton]
  exact ⟨fun h => h.imp id Eq.symm, fun h => h.imp id Eq.symm⟩

/-- The sending loop fills the window; only the sender's counters and the log change. -/
theorem sendLoop_spec {P : Params} (drop : Nat → Bool) {s : State} (h : Inv P s) :
    ∃ s', loop (sendBody P drop) (P.total + 1) s = some s' ∧ Inv P s' ∧
      s'.receiver = s.receiver ∧ s'.sender.base = s.sender.base ∧
      s'.sender.nextSeq = min P.total (s.sender.base + P.sendWindow) ∧
      ∀ i, Sent s i → Sent s' i := by
  refine loop_total (m := fun t => P.total - t.sender.nextSeq)
    (I := fun t => Inv P t ∧ t.receiver = s.receiver ∧ t.sender.base = s.sender.base ∧
      ∀ i, Sent s i → Sent t i) ?_ ⟨h, rfl, rfl, fun _ => id⟩ (by omega)
  rintro t ⟨hI, hrecv, hbase, hsent⟩
  unfold sendBody
  split
  · rename_i hgo
    refine Or.inr ⟨_, rfl, ⟨?_, hrecv, hbase, fun i hi => sent_append.mpr (Or.inl (hsent i hi))⟩,
      by simp only; omega⟩
    refine { hI with
      sent := congrArg (· + 1) hI.sent, nextTotal := hgo.2, nextWindow := hgo.1,
      inOrder := ?_, sentNext := fun i hi => ?_ }
    · show acks (t.log ++ _) = _
      rw [acks_append, ← hI.inOrder]
      split <;> simp [acks]
    · show i < t.sender.nextSeq + 1
      rcases sent_append.mp hi with hi | hi
      · have := hI.sentNext i hi; omega
      · split at hi
        · cases hi
        · cases hi; omega
  · rename_i hstop
    have hnext : t.sender.nextSeq = min P.total (s.sender.base + P.sendWindow) := by
      have := hI.nextTotal
      have := hI.nextWindow
      omega
    exact Or.inl ⟨t, rfl, hI, hrecv, hbase, hnext, hsent⟩

/-- The ack loop takes `base` to the receiver's; only `base` and `acked_count` change. -/
theorem ackLoop_spec {P : Params} {s : State} (h : Inv P s) :
    ∃ r, loop (ackBody P) (P.total + 1) (s.sender.base, s) = some r ∧ Inv P r.2 ∧
      r.2.receiver = s.receiver ∧ r.2.log = s.log ∧ r.2.sender.base = s.receiver.base ∧
      r.2.sender.nextSeq = s.sender.nextSeq := by
  refine loop_total (m := fun r : Nat × State => P.total - r.1)
    (I := fun r => Inv P r.2 ∧ r.2.receiver = s.receiver ∧ r.2.log = s.log ∧
      r.2.sender.nextSeq = s.sender.nextSeq ∧ r.1 = r.2.sender.base) ?_
    ⟨h, rfl, rfl, rfl, rfl⟩ (by simp only; omega)
  rintro ⟨i, t⟩ ⟨hI, hrecv, hlog, hnext, hi⟩
  simp only at hI hrecv hlog hnext hi
  have hbehind := hI.behind
  have htotal := hI.inTotal
  unfold ackBody
  simp only
  split
  · rename_i hlt
    have hlt' : i < t.sender.ackReceived.length := by rw [hI.ackLength]; exact hlt
    rw [List.getElem?_eq_getElem hlt']
    simp only [Option.bind_eq_bind, Option.bind_some]
    split
    · rename_i hgo
      refine Or.inr ⟨_, rfl, ⟨?_, hrecv, hlog, hnext, congrArg (· + 1) hi⟩, by simp only; omega⟩
      have hack : i < t.receiver.base :=
        (hI.ackReceived i).mp (by rw [List.getElem?_eq_getElem hlt', hgo.1])
      have hwindow := hI.nextWindow
      exact { hI with
        acked := congrArg (· + 1) hI.acked
        behind := show t.sender.base + 1 ≤ t.receiver.base by omega
        nextWindow := show t.sender.nextSeq ≤ t.sender.base + 1 + P.sendWindow by omega }
    · rename_i hstop
      have hnot : ¬i < t.receiver.base := by
        intro hack
        have hgot := (hI.ackReceived i).mpr hack
        rw [List.getElem?_eq_getElem hlt', Option.some.injEq] at hgot
        exact hstop ⟨hgot, hi⟩
      split
      · refine Or.inl ⟨_, rfl, hI, hrecv, hlog, ?_, hnext⟩
        rw [← hrecv]
        show t.sender.base = t.receiver.base
        omega
      · rename_i hack
        exact absurd ⟨eq_true_of_ne_false hack, hi⟩ hstop
  · refine Or.inl ⟨_, rfl, hI, hrecv, hlog, ?_, hnext⟩
    rw [← hrecv]
    show t.sender.base = t.receiver.base
    omega

theorem sent_append_other {s : State} {i : Nat} {e : Event} (he : e ≠ .sending i) :
    Event.sending i ∈ s.log ++ [e] ↔ Sent s i :=
  sent_append.trans (or_iff_left he)

/-- Receiving a packet of the window keeps the invariant. -/
theorem Inv.receive {P : Params} {s : State} (h : Inv P s) {i : Nat}
    (hwindow : i < s.receiver.base + P.recvWindow) (hi : i < s.receiver.received.length) :
    Inv P { s with
      receiver := { s.receiver with received := s.receiver.received.set i true }
      log := s.log ++ [.received i] } := by
  refine { h with
    recvLength := by simpa using h.recvLength, received := fun j hj => ?_,
    ahead := fun j hj => ?_, inOrder := ?_, sentNext := fun j hj => ?_ }
  · exact (marked_iff hi).mpr (Or.inr (h.received j hj))
  · intro hj'
    rcases (marked_iff hi).mp hj' with rfl | hj'
    · exact absurd hwindow (Nat.not_lt.mpr hj)
    · exact h.ahead j hj hj'
  · show acks (s.log ++ _) = _
    rw [acks_append]
    simpa [acks] using h.inOrder
  · exact h.sentNext j ((sent_append_other (by simp)).mp hj)

/-- Where the receiving loop of a block that started in `s` stands at index `i`. -/
structure Receiving (P : Params) (drop : Nat → Bool) (s : State) (i : Nat) (t : State) : Prop where
  inv : Inv P t
  sender : t.sender = s.sender
  sent : ∀ j, Sent t j ↔ Sent s j
  base : t.receiver.base = s.receiver.base
  start : s.receiver.base ≤ i
  received : ∀ j, t.receiver.received[j]? = some true ↔ s.receiver.received[j]? = some true ∨
    (s.receiver.base ≤ j ∧ j < s.receiver.base + P.recvWindow ∧ j < P.total ∧ drop j = false ∧
      j < i)

/-- Packet `i` of the window is received now if it is not dropped; nothing else changes. -/
theorem Receiving.next {P : Params} {drop : Nat → Bool} {s t t' : State} {i : Nat}
    (hr : Receiving P drop s i t) (hwindow : i < t.receiver.base + P.recvWindow)
    (htotal : i < P.total) (hinv : Inv P t') (hsender : t'.sender = t.sender)
    (hbase : t'.receiver.base = t.receiver.base) (hsent : ∀ j, Sent t' j ↔ Sent t j)
    (hrecv : ∀ j, t'.receiver.received[j]? = some true ↔
      (j = i ∧ drop i = false) ∨ t.receiver.received[j]? = some true) :
    Receiving P drop s (i + 1) t' := by
  rw [hr.base] at hwindow
  refine ⟨hinv, hsender.trans hr.sender, fun j => (hsent j).trans (hr.sent j),
    hbase.trans hr.base, Nat.le_succ_of_le hr.start, fun j => ?_⟩
  rw [hrecv j, hr.received j]
  constructor
  · rintro (⟨rfl, hkept⟩ | hj | hj)
    · exact Or.inr ⟨hr.start, hwindow, htotal, hkept, Nat.lt_succ_self _⟩
    · exact Or.inl hj
    · exact Or.inr ⟨hj.1, hj.2.1, hj.2.2.1, hj.2.2.2.1, Nat.lt_succ_of_lt hj.2.2.2.2⟩
  · rintro (hj | ⟨h1, h2, h3, hkept, hj⟩)
    · exact Or.inr (Or.inl hj)
    · rcases Nat.lt_succ_iff_lt_or_eq.mp hj with hlt | rfl
      · exact Or.inr (Or.inr ⟨h1, h2, h3, hkept, hlt⟩)
      · exact Or.inl ⟨rfl, hkept⟩

/-- The receiving loop marks the packets of the window that are not dropped. -/
theorem recvLoop_spec {P : Params} (drop : Nat → Bool) {s : State} (h : Inv P s) :
    ∃ r, loop (recvBody P drop) (P.total + 1) (s.receiver.base, s) = some r ∧ Inv P r.2 ∧
      r.2.sender = s.sender ∧ (∀ i, Sent r.2 i ↔ Sent s i) ∧
      ∀ j, r.2.receiver.received[j]? = some true ↔ s.receiver.received[j]? = some true ∨
        (s.receiver.base ≤ j ∧ j < s.receiver.base + P.recvWindow ∧ j < P.total ∧
          drop j = false) := by
  have hstart : Receiving P drop s s.receiver.base s :=
    ⟨h, rfl, fun _ => Iff.rfl, rfl, le_refl _,
      fun j => ⟨Or.inl, fun hor => hor.resolve_right fun hj => by omega⟩⟩
  refine loop_total (m := fun r : Nat × State => P.total - r.1)
    (I := fun r => Receiving P drop s r.1 r.2) ?_ hstart (by simp only; omega)
  rintro ⟨i, t⟩ hr
  unfold recvBody
  simp only
  split
  · rename_i hgo
    have hlt : i < t.receiver.received.length := by rw [hr.inv.recvLength]; exact hgo.2
    rw [List.getElem?_eq_getElem hlt]
    simp only [Option.bind_eq_bind, Option.bind_some]
    split
    · rename_i hnew
      rw [mark_eq hlt]
      refine Or.inr ⟨_, rfl, hr.next hgo.1 hgo.2 (hr.inv.receive hgo.1 hlt) rfl rfl
        (fun j => sent_append_other (by simp)) fun j => ?_, by simp only; omega⟩
      rw [marked_iff hlt, and_iff_left hnew.2]
    · rename_i hold
      refine Or.inr ⟨_, rfl, hr.next hgo.1 hgo.2 hr.inv rfl rfl (fun _ => Iff.rfl) fun j => ?_,
        by simp only; omega⟩
      refine ⟨Or.inr, fun hor => hor.elim ?_ id⟩
      -- a packet that is not dropped had been received before
      rintro ⟨rfl, hkept⟩
      rw [List.getElem?_eq_getElem hlt]
      simp only [hkept, and_true, Bool.not_eq_false] at hold
      rw [hold]
  · rename_i hstop
    rw [hr.base] at hstop
    refine Or.inl ⟨_, rfl, hr.inv, hr.sender, hr.sent, fun j => (hr.received j).trans ?_⟩
    exact or_congr_right ⟨fun hj => ⟨hj.1, hj.2.1, hj.2.2.1, hj.2.2.2.1⟩,
      fun hj => ⟨hj.1, hj.2.1, hj.2.2.1, hj.2.2.2, by omega⟩⟩

/-- Delivering the packet at `base` keeps the invariant. -/
theorem Inv.deliver {P : Params} {s : State} (h : Inv P s)
    (hack : s.receiver.base < s.sender.ackReceived.length)
    (hgot : s.receiver.received[s.receiver.base]? = some true) :
    Inv P {
      sender := { s.sender with ackReceived := s.sender.ackReceived.set s.receiver.base true }
      receiver := { s.receiver with
        base := s.receiver.base + 1, receivedCount := s.receiver.receivedCount + 1 }
      log := s.log ++ [.sendingAck s.receiver.base] } := by
  refine { h with
    ackLength := by simpa using h.ackLength, behind := Nat.le_succ_of_le h.behind,
    delivered := congrArg (· + 1) h.delivered, inTotal := by rw [← h.ackLength]; exact hack,
    ackReceived := fun i => ?_, received := fun i hi => ?_, ahead := fun i hi => ?_,
    inOrder := ?_, sentNext := fun i hi => ?_ }
  · rw [marked_iff hack, h.ackReceived i]
    show _ ↔ i < s.receiver.base + 1
    omega
  · by_cases hib : i = s.receiver.base
    · rw [hib]
      exact hgot
    · have hi' : i < s.receiver.base + 1 := hi
      apply h.received i
      omega
  · have hi' : s.receiver.base + 1 + P.recvWindow ≤ i := hi
    apply h.ahead i
    omega
  · show acks (s.log ++ _) = List.range (s.receiver.base + 1)
    rw [acks_append, h.inOrder, List.range_succ]
    rfl
  · exact h.sentNext i ((sent_append_other (by simp)).mp hi)

/-- The delivering loop ends at the first packet that is missing; `received` and the sender's
counters stay as they are. -/
theorem deliverLoop_spec {P : Params} {s : State} (h : Inv P s) :
    ∃ s', loop (deliverBody P) (P.total + 1) s = some s' ∧ Inv P s' ∧
      s'.receiver.received = s.receiver.received ∧
      s'.receiver.received[s'.receiver.base]? ≠ some true ∧
      (s'.sender.base = s.sender.base ∧ s'.sender.nextSeq = s.sender.nextSeq) ∧
      ∀ i, Sent s' i ↔ Sent s i := by
  refine loop_total (m := fun t => P.total - t.receiver.base)
    (I := fun t => Inv P t ∧ t.receiver.received = s.receiver.received ∧
      (t.sender.base = s.sender.base ∧ t.sender.nextSeq = s.sender.nextSeq) ∧
      ∀ i, Sent t i ↔ Sent s i) ?_ ⟨h, rfl, ⟨rfl, rfl⟩, fun _ => Iff.rfl⟩ (by omega)
  rintro t ⟨hI, hrecv, hsender, hsent⟩
  unfold deliverBody
  split
  · rename_i hlt
    have hlt' : t.receiver.base < t.receiver.received.length := by rw [hI.recvLength]; exact hlt
    have hack : t.receiver.base < t.sender.ackReceived.length := by rw [hI.ackLength]; exact hlt
    rw [List.getElem?_eq_getElem hlt']
    simp only [Option.bind_eq_bind, Option.bind_some]
    split
    · rename_i hgot
      rw [mark_eq hack]
      have hfirst : t.receiver.received[t.receiver.base]? = some true := by
        rw [List.getElem?_eq_getElem hlt', hgot]
      exact Or.inr ⟨_, rfl, ⟨hI.deliver hack hfirst, hrecv, hsender,
        fun i => (sent_append_other (by simp)).trans (hsent i)⟩, by simp only; omega⟩
    · rename_i hmissing
      refine Or.inl ⟨t, rfl, hI, hrecv, ?_, hsender, hsent⟩
      rw [List.getElem?_eq_getElem hlt']
      exact fun hgot => hmissing (Option.some.inj hgot)
  · rename_i hend
    refine Or.inl ⟨t, rfl, hI, hrecv, ?_, hsender, hsent⟩
    have hlength := hI.recvLength
    rw [List.getElem?_eq_none (by omega)]
    simp

/-- What the sender's block does: it sends to the end of the window, then takes the ACKs. -/
structure SenderBlock (P : Params) (s s' : State) : Prop where
  inv : Inv P s'
  receiver : s'.receiver = s.receiver
  base : s'.sender.base = s.receiver.base
  nextSeq : s'.sender.nextSeq = min P.total (s.sender.base + P.sendWindow)
  sent : ∀ i, Sent s i → Sent s' i

/-- What the receiver's block does: it receives what the window admits and `should_drop` lets
through, and delivers up to the first packet that is missing. -/
structure ReceiverBlock (P : Params) (drop : Nat → Bool) (s s' : State) : Prop where
  inv : Inv P s'
  sent : ∀ i, Sent s' i ↔ Sent s i
  received : ∀ j, s'.receiver.received[j]? = some true ↔ s.receiver.received[j]? = some true ∨
    (s.receiver.base ≤ j ∧ j < s.receiver.base + P.recvWindow ∧ j < P.total ∧ drop j = false)
  missing : s'.receiver.received[s'.receiver.base]? ≠ some true
  senderBase : s'.sender.base = s.sender.base
  senderNext : s'.sender.nextSeq = s.sender.nextSeq

theorem senderBlock_spec {P : Params} (drop : Nat → Bool) {s : State} (h : Inv P s) :
    ∃ s', senderBlock P drop s = some s' ∧ SenderBlock P s s' := by
  obtain ⟨t, ht, hI, hrecv, _, hnext, hsent⟩ := sendLoop_spec drop h
  obtain ⟨⟨i, s'⟩, hs', hI', hrecv', hlog, hbase, hnext'⟩ := ackLoop_spec hI
  refine ⟨s', ?_, hI', hrecv'.trans hrecv, ?_, hnext'.trans hnext, fun j hj => ?_⟩
  · simp only [senderBlock, ht, hs', Option.bind_eq_bind, Option.bind_some]
  · rw [← hrecv]
    exact hbase
  · have hmem := hsent j hj
    unfold Sent at hmem ⊢
    rw [hlog]; exact hmem

theorem receiverBlock_spec {P : Params} (drop : Nat → Bool) {s : State} (h : Inv P s) :
    ∃ s', receiverBlock P drop s = some s' ∧ ReceiverBlock P drop s s' := by
  obtain ⟨⟨i, t⟩, ht, hI, hsender, hsent, hrecv⟩ := recvLoop_spec drop h
  obtain ⟨s', hs', hI', hrecv', hmissing, ⟨hbase, hnext⟩, hsent'⟩ := deliverLoop_spec hI
  simp only at hsender
  rw [hsender] at hbase hnext
  refine ⟨s', ?_, hI', fun j => (hsent' j).trans (hsent j), fun j => ?_, hmissing, hbase, hnext⟩
  · simp only [receiverBlock, ht, Option.bind_eq_bind, Option.bind_some]
    exact hs'
  · rw [hrecv']
    exact hrecv j

/-- **One step** is one of the two blocks. -/
theorem step_cases {P : Params} {s s' : State} {a : Action} (h : Inv P s)
    (hstep : step P s a = some s') :
    (∃ drop, a = .sender drop ∧ SenderBlock P s s') ∨
      ∃ drop, a = .receiver drop ∧ ReceiverBlock P drop s s' := by
  cases a with
  | sender drop =>
    simp only [step] at hstep
    split at hstep
    · obtain ⟨t, ht, hblock⟩ := senderBlock_spec drop h
      rw [ht] at hstep; cases hstep
      exact Or.inl ⟨drop, rfl, hblock⟩
    · cases hstep
  | receiver drop =>
    simp only [step] at hstep
    split at hstep
    · obtain ⟨t, ht, hblock⟩ := receiverBlock_spec drop h
      rw [ht] at hstep; cases hstep
      exact Or.inr ⟨drop, rfl, hblock⟩
    · cases hstep

theorem Inv.step {P : Params} {s s' : State} {a : Action} (h : Inv P s)
    (hstep : SlidingWindow.step P s a = some s') : Inv P s' := by
  obtain ⟨_, _, hblock⟩ | ⟨_, _, hblock⟩ := step_cases h hstep
  · exact hblock.inv
  · exact hblock.inv

theorem inv {P : Params} {s : State} (h : Reachable (slidingWindow P) s) : Inv P s :=
  h.induct (inv_init P) fun _ _ _ hI hstep => hI.step hstep

/-- **Safety of the sliding window**, in every reachable state. -/
theorem slidingWindow_safe {P : Params} {s : State} (h : Reachable (slidingWindow P) s) :
    (s.sender.base = s.sender.ackedCount ∧ s.sender.ackedCount ≤ s.receiver.base ∧
      s.receiver.base = s.receiver.receivedCount ∧ s.receiver.receivedCount ≤ P.total) ∧
    (∀ i, s.sender.ackReceived[i]? = some true ↔ i < s.receiver.base) ∧
    (∀ i, i < s.receiver.base → s.receiver.received[i]? = some true) ∧
    (∀ i, s.receiver.base + P.recvWindow ≤ i → s.receiver.received[i]? ≠ some true) ∧
    (s.sender.nextSeq = s.sender.sentCount ∧
      s.sender.sentCount ≤ min P.total (s.sender.base + P.sendWindow)) ∧
    (¬ s.sender.ackedCount < P.total →
      s.receiver.base = P.total ∧ acks s.log = List.range P.total) ∧
    (∀ drop, (senderBlock P drop s).isSome ∧ (receiverBlock P drop s).isSome) := by
  have hI := inv h
  have hacked := hI.acked
  have hbehind := hI.behind
  have hdelivered := hI.delivered
  have htotal := hI.inTotal
  refine ⟨⟨hacked, by omega, hdelivered, by omega⟩, hI.ackReceived, hI.received, hI.ahead,
    ⟨hI.sent, ?_⟩, fun hended => ?_, fun drop => ?_⟩
  · rw [← hI.sent]
    exact le_min hI.nextTotal hI.nextWindow
  · have hall : s.receiver.base = P.total := by omega
    exact ⟨hall, by rw [hI.inOrder, hall]⟩
  · obtain ⟨t, ht, _⟩ := senderBlock_spec drop hI
    obtain ⟨t', ht', _⟩ := receiverBlock_spec drop hI
    rw [ht, ht']
    exact ⟨rfl, rfl⟩

/-- Two packets, both transmitted, both received, both acknowledged. -/
theorem slidingWindow_safe_two : ∃ s, Reachable (slidingWindow ⟨2, 4, 4⟩) s ∧
    s.receiver.base = 2 ∧ acks s.log = [0, 1] := by
  obtain ⟨s, hs, hp⟩ := exists_reachable_of_exec (M := slidingWindow ⟨2, 4, 4⟩)
    [.sender fun _ => false, .receiver fun _ => false, .sender fun _ => false]
    (p := fun s => decide (¬ s.sender.ackedCount < 2)) (by decide)
  exact ⟨s, hs, (slidingWindow_safe hs).2.2.2.2.2.1 (of_decide_eq_true hp)⟩

end CampusNet.SlidingWindow
