import CampusNet.Lib.Runs
import Mathlib.Data.List.Range

/-!
# The stop-and-wait simulation

Model of `homework11/stop_and_wait.cpp` for any number of packets and any retry limit.  Every
locked block, every poll of the ACK wait and every loop test is a step of its own; the outcome of
`should_drop` and whether the 500 ms have passed are part of the action.

* `senderStep`, `receiverStep` — one step of a thread, by where it stands.
* `stopAndWait` — any interleaving of the two threads, with the lines printed so far.
* `Sends`, `Receives` — the same steps as relations, one named case for each way through a block.
* `Inv` — the two mailboxes against `expected_seq` and the sender's packet index.
* `stopAndWait_agree` — agreement in every reachable state.
-/

namespace CampusNet.StopAndWait

open Runs

structure Params where
  packetCount : Nat
  maxRetries : Nat

/-- Where `sender_thread_func` stands. -/
inductive SenderPc where
  | forTest
  | whileTest
  | announce
  | lossCheck
  | awaitAck
  | afterWhile
  | setDone
  | returned
  deriving DecidableEq, Repr

/-- Where `receiver_thread_func` stands. -/
inductive ReceiverPc where
  | loopTest
  | block
  | returned
  deriving DecidableEq, Repr

inductive Event where
  | sending (seq retries : Nat)
  | lost (seq : Nat)
  | gotAck (seq : Nat)
  | timeout (seq : Nat)
  | failed (seq : Nat)
  | allSent
  | ackLost (seq : Int)
  | sendingAck (seq : Int)
  | finished
  deriving DecidableEq, Repr

structure State where
  senderSeq : Int
  receiverAck : Int
  done : Bool
  i : Nat
  retries : Nat
  senderPc : SenderPc
  expectedSeq : Nat
  receiverPc : ReceiverPc
  log : List Event

def State.start : State := ⟨-1, -1, false, 0, 0, .forTest, 0, .loopTest, []⟩

def senderStep (P : Params) (drop timedOut : Bool) (s : State) : Option State :=
  match s.senderPc with
  | .forTest =>
    if s.i < P.packetCount then some { s with retries := 0, senderPc := .whileTest }
    else some { s with log := s.log ++ [.allSent], senderPc := .setDone }
  | .whileTest =>
    some { s with senderPc := if s.retries < P.maxRetries then .announce else .afterWhile }
  | .announce =>
    some { s with
      senderSeq := s.i, log := s.log ++ [.sending s.i s.retries], senderPc := .lossCheck }
  | .lossCheck =>
    if drop then
      some { s with
        log := s.log ++ [.lost s.i], retries := s.retries + 1, senderPc := .whileTest }
    else some { s with senderPc := .awaitAck }
  | .awaitAck =>
    if s.receiverAck = s.i then
      some { s with log := s.log ++ [.gotAck s.i], senderPc := .afterWhile }
    else if timedOut then
      some { s with
        log := s.log ++ [.timeout s.i], retries := s.retries + 1, senderPc := .whileTest }
    else some s
  | .afterWhile =>
    some { s with
      log := s.log ++ (if s.retries ≥ P.maxRetries then [.failed s.i] else []),
      i := s.i + 1, senderPc := .forTest }
  | .setDone => some { s with done := true, senderPc := .returned }
  | .returned => none

def receiverStep (P : Params) (drop : Bool) (s : State) : Option State :=
  match s.receiverPc with
  | .loopTest =>
    if s.done = false ∨ s.expectedSeq < P.packetCount then some { s with receiverPc := .block }
    else some { s with log := s.log ++ [.finished], receiverPc := .returned }
  | .block =>
    if s.senderSeq ≥ 0 ∧ s.senderSeq = s.expectedSeq then
      if drop then
        some { s with
          log := s.log ++ [.ackLost s.senderSeq], senderSeq := -1, receiverPc := .loopTest }
      else
        some { s with
          receiverAck := s.senderSeq, log := s.log ++ [.sendingAck s.senderSeq],
          expectedSeq := s.expectedSeq + 1, senderSeq := -1, receiverPc := .loopTest }
    else some { s with receiverPc := .loopTest }
  | .returned => none

inductive Action where
  | sender (drop timedOut : Bool)
  | receiver (drop : Bool)
  deriving DecidableEq, Repr

def step (P : Params) (s : State) : Action → Option State
  | .sender drop timedOut => senderStep P drop timedOut s
  | .receiver drop => receiverStep P drop s

def stopAndWait (P : Params) : Machine State Action := ⟨State.start, step P⟩

/-- The sender's steps, one case for each way through a block. -/
inductive Sends (P : Params) (drop timedOut : Bool) (s : State) : State → Prop
  | nextPacket (hpc : s.senderPc = .forTest) (hmore : s.i < P.packetCount) :
      Sends P drop timedOut s { s with retries := 0, senderPc := .whileTest }
  | allSent (hpc : s.senderPc = .forTest) (hend : ¬s.i < P.packetCount) :
      Sends P drop timedOut s { s with log := s.log ++ [.allSent], senderPc := .setDone }
  | attempt (hpc : s.senderPc = .whileTest) (hmore : s.retries < P.maxRetries) :
      Sends P drop timedOut s { s with senderPc := .announce }
  | exhausted (hpc : s.senderPc = .whileTest) (hend : ¬s.retries < P.maxRetries) :
      Sends P drop timedOut s { s with senderPc := .afterWhile }
  | announce (hpc : s.senderPc = .announce) :
      Sends P drop timedOut s { s with
        senderSeq := s.i, log := s.log ++ [.sending s.i s.retries], senderPc := .lossCheck }
  | lost (hpc : s.senderPc = .lossCheck) (hdrop : drop = true) :
      Sends P drop timedOut s { s with
        log := s.log ++ [.lost s.i], retries := s.retries + 1, senderPc := .whileTest }
  | notLost (hpc : s.senderPc = .lossCheck) (hdrop : drop = false) :
      Sends P drop timedOut s { s with senderPc := .awaitAck }
  | gotAck (hpc : s.senderPc = .awaitAck) (hgot : s.receiverAck = s.i) :
      Sends P drop timedOut s { s with log := s.log ++ [.gotAck s.i], senderPc := .afterWhile }
  | timeout (hpc : s.senderPc = .awaitAck) (hnone : s.receiverAck ≠ s.i)
      (hlate : timedOut = true) :
      Sends P drop timedOut s { s with
        log := s.log ++ [.timeout s.i], retries := s.retries + 1, senderPc := .whileTest }
  | wait (hpc : s.senderPc = .awaitAck) (hnone : s.receiverAck ≠ s.i) (hlate : timedOut = false) :
      Sends P drop timedOut s s
  | failed (hpc : s.senderPc = .afterWhile) (hfailed : s.retries ≥ P.maxRetries) :
      Sends P drop timedOut s { s with
        log := s.log ++ [.failed s.i], i := s.i + 1, senderPc := .forTest }
  | acked (hpc : s.senderPc = .afterWhile) (hacked : ¬s.retries ≥ P.maxRetries) :
      Sends P drop timedOut s { s with i := s.i + 1, senderPc := .forTest }
  | setDone (hpc : s.senderPc = .setDone) :
      Sends P drop timedOut s { s with done := true, senderPc := .returned }

theorem sends_of_step {P : Params} {drop timedOut : Bool} {s s' : State}
    (h : senderStep P drop timedOut s = some s') : Sends P drop timedOut s s' := by
  unfold senderStep at h
  split at h
  · rename_i hpc
    split at h
    · rename_i hmore
      cases h
      exact .nextPacket hpc hmore
    · rename_i hend
      cases h
      exact .allSent hpc hend
  · rename_i hpc
    cases h
    split
    · rename_i hmore
      exact .attempt hpc hmore
    · rename_i hend
      exact .exhausted hpc hend
  · rename_i hpc
    cases h
    exact .announce hpc
  · rename_i hpc
    split at h
    · rename_i hdrop
      cases h
      exact .lost hpc hdrop
    · rename_i hdrop
      cases h
      exact .notLost hpc (eq_false_of_ne_true hdrop)
  · rename_i hpc
    split at h
    · rename_i hgot
      cases h
      exact .gotAck hpc hgot
    · rename_i hnone
      split at h
      · rename_i hlate
        cases h
        exact .timeout hpc hnone hlate
      · rename_i hlate
        cases h
        exact .wait hpc hnone (eq_false_of_ne_true hlate)
  · rename_i hpc
    cases h
    split
    · rename_i hfailed
      exact .failed hpc hfailed
    · rename_i hacked
      rw [List.append_nil]
      exact .acked hpc hacked
  · rename_i hpc
    cases h
    exact .setDone hpc
  · cases h

/-- The receiver's steps. -/
inductive Receives (P : Params) (drop : Bool) (s : State) : State → Prop
  | enter (hpc : s.receiverPc = .loopTest)
      (hmore : s.done = false ∨ s.expectedSeq < P.packetCount) :
      Receives P drop s { s with receiverPc := .block }
  | finished (hpc : s.receiverPc = .loopTest)
      (hend : ¬(s.done = false ∨ s.expectedSeq < P.packetCount)) :
      Receives P drop s { s with log := s.log ++ [.finished], receiverPc := .returned }
  | ackLost (hpc : s.receiverPc = .block) (hfull : s.senderSeq ≥ 0)
      (hmatch : s.senderSeq = s.expectedSeq) (hdrop : drop = true) :
      Receives P drop s { s with
        log := s.log ++ [.ackLost s.senderSeq], senderSeq := -1, receiverPc := .loopTest }
  | accept (hpc : s.receiverPc = .block) (hfull : s.senderSeq ≥ 0)
      (hmatch : s.senderSeq = s.expectedSeq) (hdrop : drop = false) :
      Receives P drop s { s with
        receiverAck := s.senderSeq, log := s.log ++ [.sendingAck s.senderSeq],
        expectedSeq := s.expectedSeq + 1, senderSeq := -1, receiverPc := .loopTest }
  | ignore (hpc : s.receiverPc = .block)
      (hother : ¬(s.senderSeq ≥ 0 ∧ s.senderSeq = s.expectedSeq)) :
      Receives P drop s { s with receiverPc := .loopTest }

theorem receives_of_step {P : Params} {drop : Bool} {s s' : State}
    (h : receiverStep P drop s = some s') : Receives P drop s s' := by
  unfold receiverStep at h
  split at h
  · rename_i hpc
    split at h
    · rename_i hmore
      cases h
      exact .enter hpc hmore
    · rename_i hend
      cases h
      exact .finished hpc hend
  · rename_i hpc
    split at h
    · rename_i hmatch
      split at h
      · rename_i hdrop
        cases h
        exact .ackLost hpc hmatch.1 hmatch.2 hdrop
      · rename_i hdrop
        cases h
        exact .accept hpc hmatch.1 hmatch.2 (eq_false_of_ne_true hdrop)
    · rename_i hother
      cases h
      exact .ignore hpc hother
  · cases h

/-- The sequence numbers the receiver accepted, in order. -/
def accepted (log : List Event) : List Int :=
  log.filterMap fun e => match e with
    | .sendingAck seq => some seq
    | _ => none

/-- The sequence numbers below `n`, in order. -/
def upTo (n : Nat) : List Int := (List.range n).map (↑)

/-- Every `Got ACK` line stands right after the receiver has accepted the sequence numbers up to
the one it reports, and no other. -/
def AcksReported (log : List Event) : Prop :=
  ∀ earlier later seq, log = earlier ++ .gotAck seq :: later → accepted earlier = upTo (seq + 1)

/-! ## The log -/

theorem accepted_append (log : List Event) (e : Event) :
    accepted (log ++ [e]) = accepted log ++ accepted [e] := List.filterMap_append

theorem upTo_succ (n : Nat) : upTo (n + 1) = upTo n ++ [(n : Int)] := by
  simp [upTo, List.range_succ]

theorem AcksReported.append {log : List Event} {e : Event} (h : AcksReported log)
    (he : ∀ seq, e = .gotAck seq → accepted log = upTo (seq + 1)) : AcksReported (log ++ [e]) := by
  intro earlier later seq hlog
  rcases List.eq_nil_or_concat later with rfl | ⟨later', x, rfl⟩
  · obtain ⟨hl, hx⟩ := List.append_inj' hlog rfl
    rw [← hl]
    exact he seq (List.cons.inj hx).1
  · rw [List.concat_eq_append, ← List.cons_append, ← List.append_assoc] at hlog
    exact h earlier later' seq (List.append_inj' hlog rfl).1

/-! ## The invariant -/

structure Inv (s : State) : Prop where
  ack : s.receiverAck = s.expectedSeq - 1
  pending : s.senderSeq ≤ s.i
  ahead : s.expectedSeq ≤ s.i + 1
  inOrder : accepted s.log = upTo s.expectedSeq
  reported : AcksReported s.log

theorem inv_start : Inv State.start where
  ack := rfl
  pending := by decide
  ahead := by decide
  inOrder := rfl
  reported := fun earlier later seq h => by simp [State.start] at h

/-- A step that only prints a line that is neither an acceptance nor a report. -/
theorem Inv.print {s : State} (h : Inv s) {e : Event} (hacc : accepted [e] = [])
    (hgot : ∀ seq, e ≠ .gotAck seq) :
    accepted (s.log ++ [e]) = upTo s.expectedSeq ∧ AcksReported (s.log ++ [e]) := by
  refine ⟨?_, h.reported.append fun seq he => absurd he (hgot seq)⟩
  rw [accepted_append, hacc, List.append_nil]
  exact h.inOrder

theorem Inv.senderStep {P : Params} {drop timedOut : Bool} {s s' : State} (h : Inv s)
    (hstep : StopAndWait.senderStep P drop timedOut s = some s') : Inv s' := by
  have hpending := h.pending
  have hahead := h.ahead
  have hnext : Inv { s with i := s.i + 1, senderPc := .forTest } :=
    { h with
      pending := show s.senderSeq ≤ ((s.i + 1 : Nat) : Int) by omega
      ahead := show s.expectedSeq ≤ s.i + 1 + 1 by omega }
  cases sends_of_step hstep with
  | nextPacket => exact { h with }
  | allSent =>
    obtain ⟨h1, h2⟩ := h.print (e := .allSent) rfl (by simp)
    exact { h with inOrder := h1, reported := h2 }
  | attempt => exact { h with }
  | exhausted => exact { h with }
  | announce =>
    obtain ⟨h1, h2⟩ := h.print (e := .sending s.i s.retries) rfl (by simp)
    exact { h with pending := Int.le_refl _, inOrder := h1, reported := h2 }
  | lost =>
    obtain ⟨h1, h2⟩ := h.print (e := .lost s.i) rfl (by simp)
    exact { h with inOrder := h1, reported := h2 }
  | notLost => exact { h with }
  | gotAck hpc hgot =>
    -- the ack read is the last one sent
    have hack := h.ack
    have hexpected : s.expectedSeq = s.i + 1 := by omega
    refine { h with inOrder := ?_, reported := h.reported.append fun seq he => ?_ }
    · show accepted (s.log ++ _) = _
      rw [accepted_append, h.inOrder]
      exact List.append_nil _
    · cases he
      rw [h.inOrder, hexpected]
  | timeout =>
    obtain ⟨h1, h2⟩ := h.print (e := .timeout s.i) rfl (by simp)
    exact { h with inOrder := h1, reported := h2 }
  | wait => exact h
  | failed =>
    obtain ⟨h1, h2⟩ := h.print (e := .failed s.i) rfl (by simp)
    exact { hnext with inOrder := h1, reported := h2 }
  | acked => exact hnext
  | setDone => exact { h with }

theorem Inv.receiverStep {P : Params} {drop : Bool} {s s' : State} (h : Inv s)
    (hstep : StopAndWait.receiverStep P drop s = some s') : Inv s' := by
  have hcleared : (-1 : Int) ≤ s.i := by omega
  cases receives_of_step hstep with
  | enter => exact { h with }
  | finished =>
    obtain ⟨h1, h2⟩ := h.print (e := .finished) rfl (by simp)
    exact { h with inOrder := h1, reported := h2 }
  | ackLost =>
    obtain ⟨h1, h2⟩ := h.print (e := .ackLost s.senderSeq) rfl (by simp)
    exact { h with pending := hcleared, inOrder := h1, reported := h2 }
  | accept hpc hfull hmatch =>
    have hpending := h.pending
    refine ⟨?_, hcleared, ?_, ?_, h.reported.append fun seq he => by cases he⟩
    · show s.senderSeq = ((s.expectedSeq + 1 : Nat) : Int) - 1
      omega
    · show s.expectedSeq + 1 ≤ s.i + 1
      omega
    · show accepted (s.log ++ _) = upTo (s.expectedSeq + 1)
      rw [accepted_append, h.inOrder, upTo_succ, hmatch]
      rfl
  | ignore => exact { h with }

theorem Inv.step {P : Params} {s s' : State} {a : Action} (h : Inv s)
    (hstep : StopAndWait.step P s a = some s') : Inv s' := by
  cases a with
  | sender drop timedOut => exact h.senderStep hstep
  | receiver drop => exact h.receiverStep hstep

theorem inv {P : Params} {s : State} (h : Reachable (stopAndWait P) s) : Inv s :=
  h.induct inv_start fun _ _ _ hI hstep => hI.step hstep

/-- **Stop-and-wait agreement**: the acknowledgement mailbox, the accepted sequence numbers, the
sender's packet index, and every `Got ACK` line of the sender. -/
theorem stopAndWait_agree {P : Params} {s : State} (h : Reachable (stopAndWait P) s) :
    s.receiverAck = s.expectedSeq - 1 ∧
    accepted s.log = upTo s.expectedSeq ∧
    s.expectedSeq ≤ s.i + 1 ∧
    (∀ earlier later seq, s.log = earlier ++ .gotAck seq :: later →
      accepted earlier = upTo (seq + 1)) ∧
    (∀ drop timedOut s' seq, senderStep P drop timedOut s = some s' →
      s'.log = s.log ++ [.gotAck seq] →
      s.expectedSeq = seq + 1 ∧ accepted s.log = upTo (seq + 1)) := by
  have hI := inv h
  refine ⟨hI.ack, hI.inOrder, hI.ahead, hI.reported, fun drop timedOut s' seq hstep hlog => ?_⟩
  have hreport := (hI.senderStep hstep).reported s.log [] seq hlog
  refine ⟨?_, hreport⟩
  rw [hI.inOrder] at hreport
  have hlength := congrArg List.length hreport
  simpa [upTo] using hlength

/-- Two packets: the first try of packet 0 is lost, the first ACK of packet 1 is lost and its wait
times out, and the second try of each succeeds. -/
def retried : List Action :=
  [.sender false false, .sender false false, .sender false false, .sender true false,
    .sender false false, .sender false false, .sender false false, .receiver false,
    .receiver false, .sender false false, .sender false false] ++
  [.sender false false, .sender false false, .sender false false, .sender false false,
    .receiver false, .receiver true, .sender false true, .sender false false, .sender false false,
    .sender false false, .receiver false, .receiver false, .sender false false,
    .sender false false] ++
  [.sender false false, .sender false false]

/-- Both packets are accepted, and packet 0 alone when its ACK is reported. -/
theorem stopAndWait_agree_retried : ∃ s, Reachable (stopAndWait ⟨2, 3⟩) s ∧
    accepted s.log = [0, 1] ∧ Event.lost 0 ∈ s.log ∧ Event.timeout 1 ∈ s.log ∧
    ∃ earlier later, s.log = earlier ++ .gotAck 0 :: later ∧ accepted earlier = [0] := by
  obtain ⟨s, hs, hp⟩ := exists_reachable_of_exec (M := stopAndWait ⟨2, 3⟩) retried
    (p := fun s => decide (s.expectedSeq = 2 ∧ Event.lost 0 ∈ s.log ∧ Event.timeout 1 ∈ s.log ∧
      Event.gotAck 0 ∈ s.log)) (by decide)
  obtain ⟨hexpected, hlost, htimeout, hgot⟩ := of_decide_eq_true hp
  obtain ⟨-, horder, -, hreported, -⟩ := stopAndWait_agree hs
  rw [hexpected] at horder
  obtain ⟨earlier, later, hlog⟩ := List.append_of_mem hgot
  exact ⟨s, hs, horder, hlost, htimeout, earlier, later, hlog, hreported _ _ _ hlog⟩

end CampusNet.StopAndWait
