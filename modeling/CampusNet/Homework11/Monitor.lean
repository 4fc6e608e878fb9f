import CampusNet.Homework11.SlidingWindow

/-!
# The window state that is printed

Model of `monitor_thread_func` of `homework11/sliding_window.cpp`: what it prints of a state it
finds under the lock.

* `Report`, `monitor` — the numbers printed.
* `AccountsOnce` — the sender's counts, and the receiver's, are a partition of the packets.
* `accountsOnce_iff` — in one state: the sender has not been overtaken, and both windows end with
  the last packet or before.
* `KeepsRoom` — the side condition on a step.
* `accounts_iff` — every report of a run accounts for the packets exactly when its steps all meet
  the condition.
-/

namespace CampusNet.SlidingWindow

open Runs

/-- One window state, but for its clock. -/
structure Report where
  senderBase : Int
  senderNext : Int
  sentPackets : Int
  ackedPackets : Int
  alreadyAcked : Int
  sentNoAck : Int
  canSendNotSent : Int
  cannotSend : Int
  receiverBase : Int
  receivedPackets : Int
  delivered : Int
  canRecv : Int
  cannotRecv : Int
  deriving DecidableEq, Repr

/-- `x > 0 ? x : 0`. -/
def orZero (x : Int) : Int := if x > 0 then x else 0

theorem orZero_eq (x : Int) : orZero x = max x 0 := by
  unfold orZero
  split
  · omega
  · omega

def monitor (P : Params) (s : State) : Report where
  senderBase := s.sender.base
  senderNext := s.sender.nextSeq
  sentPackets := s.sender.sentCount
  ackedPackets := s.sender.ackedCount
  alreadyAcked := s.sender.base
  sentNoAck := s.sender.nextSeq - s.sender.base
  canSendNotSent := orZero (s.sender.base + P.sendWindow - s.sender.nextSeq)
  cannotSend := orZero (P.total - (s.sender.base + P.sendWindow))
  receiverBase := s.receiver.base
  receivedPackets := s.receiver.receivedCount
  delivered := s.receiver.base
  canRecv := P.recvWindow
  cannotRecv := orZero (P.total - (s.receiver.base + P.recvWindow))

/-- Every packet is counted once for the sender and once for the receiver. -/
structure AccountsOnce (P : Params) (r : Report) : Prop where
  senderNonneg : 0 ≤ r.alreadyAcked ∧ 0 ≤ r.sentNoAck ∧ 0 ≤ r.canSendNotSent ∧ 0 ≤ r.cannotSend
  senderSum : r.alreadyAcked + r.sentNoAck + r.canSendNotSent + r.cannotSend = P.total
  receiverNonneg : 0 ≤ r.delivered ∧ 0 ≤ r.canRecv ∧ 0 ≤ r.cannotRecv
  receiverSum : r.delivered + r.canRecv + r.cannotRecv = P.total

/-- **One report**: the sender is not overtaken by its ACKs, and neither window goes past the last
packet. -/
theorem accountsOnce_iff {P : Params} {s : State} (h : Inv P s) :
    AccountsOnce P (monitor P s) ↔ s.sender.base ≤ s.sender.nextSeq ∧
      s.sender.base + P.sendWindow ≤ P.total ∧ s.receiver.base + P.recvWindow ≤ P.total := by
  have hwindow := h.nextWindow
  constructor
  · rintro ⟨⟨-, hsent, -, -⟩, hsum, -, hsum'⟩
    simp only [monitor, orZero_eq] at hsent hsum hsum'
    omega
  · rintro ⟨hbase, hsend, hrecv⟩
    refine ⟨?_, ?_, ?_, ?_⟩
    · simp only [monitor, orZero_eq]
      omega
    · simp only [monitor, orZero_eq]
      omega
    · simp only [monitor, orZero_eq]
      omega
    · simp only [monitor, orZero_eq]
      omega

/-! ## Which steps keep the reports right -/

/-- What a step must do: the sender's block finds no ACK for a packet it has not sent, and its new
window ends with the last packet or before; the receiver's block leaves a packet missing whose
window does. -/
def KeepsRoom (P : Params) (s : State) : Action → Prop
  | .sender _ =>
    s.receiver.base ≤ s.sender.base + P.sendWindow ∧ s.receiver.base + P.sendWindow ≤ P.total
  | .receiver drop => ∃ j, s.receiver.base ≤ j ∧ j + P.recvWindow ≤ P.total ∧
      s.receiver.received[j]? ≠ some true ∧ (j < s.receiver.base + P.recvWindow → drop j = true)

/-- The receiver's window after its block. -/
theorem ReceiverBlock.room_iff {P : Params} {drop : Nat → Bool} {s s' : State} (h : Inv P s)
    (hblock : ReceiverBlock P drop s s') :
    s'.receiver.base + P.recvWindow ≤ P.total ↔ KeepsRoom P s (.receiver drop) := by
  constructor
  · intro hroom
    -- the first packet missing after the block
    have hmissing := hblock.missing
    rw [Ne, hblock.received] at hmissing
    push Not at hmissing
    obtain ⟨hold, hdrop⟩ := hmissing
    have hbase : s.receiver.base ≤ s'.receiver.base := by
      by_contra hlt
      exact hold (h.received _ (by omega))
    refine ⟨s'.receiver.base, hbase, hroom, hold, fun hwindow => ?_⟩
    have := hdrop hbase hwindow (by omega)
    simpa using this
  · rintro ⟨j, hbase, hroom, hold, hdrop⟩
    have hnot : s'.receiver.received[j]? ≠ some true := by
      rw [Ne, hblock.received]
      rintro (hgot | ⟨-, hwindow, -, hkept⟩)
      · exact hold hgot
      · rw [hdrop hwindow] at hkept
        cases hkept
    have hle : s'.receiver.base ≤ j := by
      by_contra hlt
      exact hnot (hblock.inv.received j (by omega))
    omega

theorem step_accountsOnce {P : Params} {s s' : State} {a : Action} (h : Inv P s)
    (haccounts : AccountsOnce P (monitor P s)) (hstep : step P s a = some s') :
    AccountsOnce P (monitor P s') ↔ KeepsRoom P s a := by
  rw [accountsOnce_iff h] at haccounts
  obtain ⟨hnext, hsend, hrecv⟩ := haccounts
  have htotal := h.inTotal
  obtain ⟨drop, rfl, hblock⟩ | ⟨drop, rfl, hblock⟩ := step_cases h hstep
  · rw [accountsOnce_iff hblock.inv, hblock.base, hblock.nextSeq, hblock.receiver]
    unfold KeepsRoom
    omega
  · rw [accountsOnce_iff hblock.inv, hblock.senderBase, hblock.senderNext, ← hblock.room_iff h]
    omega

/-- **The reports of a run** account for every packet once, exactly when both windows fit in the
beginning and every step keeps them so. -/
theorem accounts_iff {P : Params} {h : List (State × Action)} {s : State}
    (hr : Run (slidingWindow P) h s) :
    Throughout (fun s => AccountsOnce P (monitor P s)) h s ↔
      (P.sendWindow ≤ P.total ∧ P.recvWindow ≤ P.total) ∧ ∀ p ∈ h, KeepsRoom P p.1 p.2 := by
  have hinit : AccountsOnce P (monitor P (slidingWindow P).init) ↔
      P.sendWindow ≤ P.total ∧ P.recvWindow ≤ P.total := by
    refine (accountsOnce_iff (inv_init P)).trans ?_
    show 0 ≤ 0 ∧ 0 + P.sendWindow ≤ P.total ∧ 0 + P.recvWindow ≤ P.total ↔ _
    omega
  by_cases hfits : P.sendWindow ≤ P.total ∧ P.recvWindow ≤ P.total
  · rw [hr.always_iff (hinit.mpr hfits)
      fun s a s' hs haccounts hstep => step_accountsOnce (inv hs) haccounts hstep]
    exact (and_iff_right hfits).symm
  · apply iff_of_false
    · intro hall
      exact hfits (hinit.mp (hr.init_of_throughout hall))
    · exact fun hcond => hfits hcond.1

/-- With the program's constants: the first window sent and delivered. -/
theorem accounts_iff_firstWindow : ∃ h s, Run (slidingWindow ⟨10, 4, 4⟩) h s ∧ h.length = 2 ∧
    Throughout (fun s => AccountsOnce ⟨10, 4, 4⟩ (monitor ⟨10, 4, 4⟩ s)) h s := by
  have h0 : Run (slidingWindow ⟨10, 4, 4⟩) [] (slidingWindow ⟨10, 4, 4⟩).init := .nil
  have h1 := h0.snoc (a := .sender fun _ => false) rfl
  have h2 := h1.snoc (a := .receiver fun _ => false) rfl
  refine ⟨_, _, h2, rfl, (accounts_iff h2).mpr ⟨by decide, ?_⟩⟩
  simp only [List.forall_mem_cons, List.not_mem_nil, false_imp_iff, implies_true, and_true]
  exact ⟨⟨4, by decide⟩, by decide, by decide⟩

/-- Nothing is dropped: after the second window the receiver's counts are 8, 4 and 0; and where the
receiver runs twice before the sender, -4 packets are sent but not acknowledged. -/
theorem secondWindow_breaks_accounts :
    (∃ s, Reachable (slidingWindow ⟨10, 4, 4⟩) s ∧
      ¬AccountsOnce ⟨10, 4, 4⟩ (monitor ⟨10, 4, 4⟩ s) ∧
      (monitor ⟨10, 4, 4⟩ s).delivered = 8 ∧ (monitor ⟨10, 4, 4⟩ s).canRecv = 4) ∧
    ∃ s, Reachable (slidingWindow ⟨10, 4, 4⟩) s ∧ (monitor ⟨10, 4, 4⟩ s).sentNoAck = -4 := by
  constructor
  · obtain ⟨s, hs, hp⟩ := exists_reachable_of_exec (M := slidingWindow ⟨10, 4, 4⟩)
      [.sender fun _ => false, .receiver fun _ => false, .sender fun _ => false,
        .sender fun _ => false, .receiver fun _ => false]
      (p := fun s => decide (s.receiver.base = 8)) (by decide)
    have hbase : s.receiver.base = 8 := of_decide_eq_true hp
    refine ⟨s, hs, ?_, ?_, rfl⟩
    · rw [accountsOnce_iff (inv hs), hbase]
      simp
    · simp [monitor, hbase]
  · obtain ⟨s, hs, hp⟩ := exists_reachable_of_exec (M := slidingWindow ⟨10, 4, 4⟩)
      [.receiver fun _ => false, .receiver fun _ => false, .sender fun _ => false]
      (p := fun s => decide ((monitor ⟨10, 4, 4⟩ s).sentNoAck = -4)) (by decide)
    exact ⟨s, hs, of_decide_eq_true hp⟩

end CampusNet.SlidingWindow
