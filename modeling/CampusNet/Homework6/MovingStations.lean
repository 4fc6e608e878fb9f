import CampusNet.Homework6.BridgeLearning
import CampusNet.Lib.Runs
import Mathlib.Logic.Function.Basic

/-!
# Moving stations

The two segments of `homework6/bridge_learning.cpp` with the stations on them.  Stations move and
speak in any order; the bridge sees what is spoken and learns nothing of the moves.

* `lan` — the runs; `Lan.Hears` — on which segments a frame is heard, by the lines that
  `process_frame` prints.
* `lastSpoke` — the segment from which a station last spoke; `port_eq_lastSpoke` — the bridge's
  table has exactly that.
* `hears_iff` — where a frame is heard after any run.
* `frame_delivery` — which frames are lost, and which cross the bridge.
-/

namespace CampusNet.BridgeLearning

open Runs

/-- Where the stations are, and the bridge between the segments. -/
structure Lan where
  place : Int → Int
  bridge : Bridge

inductive Event where
  | move (addr port : Int)
  | send (src dest : Int)

/-- A frame from where its source is. -/
def Lan.frame (n : Lan) (src dest : Int) : Frame := ⟨src, n.place src, dest⟩

/-- Stations on the ports 1 and 2 of a bridge that knows nothing yet. -/
def lan (place : Int → Int) : Machine Lan Event :=
  ⟨⟨place, Bridge.new⟩, fun n event =>
    match event with
    | .move addr port =>
      if port = 1 ∨ port = 2 then some { n with place := Function.update n.place addr port }
      else none
    | .send src dest => some { n with bridge := (processFrame n.bridge (n.frame src dest)).1 }⟩

/-- The bridge puts the frame on the segment. -/
def Decision.Reaches : Decision → Int → Prop
  | .broadcast, _ => True
  | .flood, _ => True
  | .filter _, _ => False
  | .forward port, q => q = port

/-- A frame is heard where it is sent, and where the bridge puts it. -/
def Lan.Hears (n : Lan) (src dest q : Int) : Prop :=
  q = n.place src ∨ (processFrame n.bridge (n.frame src dest)).2.Reaches q

/-- The segment from which the station last spoke. -/
def lastSpoke (addr : Int) : List (Lan × Event) → Option Int
  | [] => none
  | (n, .send src _) :: h => if src = addr then some (n.place src) else lastSpoke addr h
  | (_, .move _ _) :: h => lastSpoke addr h

/-! ## The table -/

variable {place : Int → Int} {h : List (Lan × Event)} {n : Lan}

theorem port_processFrame (bridge : Bridge) (frame : Frame) (addr : Int) :
    (processFrame bridge frame).1.port addr =
      if frame.srcAddr = addr then some frame.srcPort else bridge.port addr := by
  by_cases haddr : frame.srcAddr = addr
  · subst haddr
    rw [if_pos rfl]
    exact learn_keyed.own bridge frame.srcAddr frame.srcPort
  · rw [if_neg haddr]
    exact learn_keyed.other bridge frame.srcAddr frame.srcPort addr (Ne.symm haddr)

/-- **The table says where a station last spoke**, after any run. -/
theorem port_eq_lastSpoke (hr : Run (lan place) h n) (addr : Int) :
    n.bridge.port addr = lastSpoke addr h := by
  induction hr with
  | nil => exact port_new addr
  | @snoc h n n' event hr hstep ih =>
    cases event with
    | move moved port =>
      simp only [lan] at hstep
      split at hstep
      · cases hstep
        exact ih
      · cases hstep
    | send src dest =>
      cases hstep
      rw [port_processFrame, lastSpoke, ih]
      rfl

/-- Stations stay on the two segments. -/
theorem place_cases (hplace : ∀ addr, place addr = 1 ∨ place addr = 2)
    (hr : Reachable (lan place) n) (addr : Int) : n.place addr = 1 ∨ n.place addr = 2 := by
  refine hr.induct (I := fun n => ∀ addr, n.place addr = 1 ∨ n.place addr = 2) hplace ?_ addr
  intro n event n' hall hstep addr
  cases event with
  | move moved port =>
    simp only [lan] at hstep
    split at hstep
    · rename_i hport
      cases hstep
      by_cases haddr : addr = moved
      · simpa [haddr] using hport
      · simpa [haddr] using hall addr
    · cases hstep
  | send src dest =>
    cases hstep
    exact hall addr

/-- Nobody has spoken from anywhere else. -/
theorem lastSpoke_cases (hplace : ∀ addr, place addr = 1 ∨ place addr = 2)
    (hr : Run (lan place) h n) {addr port : Int} (hspoke : lastSpoke addr h = some port) :
    port = 1 ∨ port = 2 := by
  induction hr with
  | nil => cases hspoke
  | @snoc h n n' event hr _ ih =>
    cases event with
    | move moved port => exact ih hspoke
    | send src dest =>
      rw [lastSpoke] at hspoke
      split at hspoke
      · cases hspoke
        exact place_cases hplace hr.reachable src
      · exact ih hspoke

/-! ## Where frames are heard -/

/-- **Where a frame is heard**: on every segment while the destination has not spoken, otherwise
where it is sent and where the destination last spoke, the frame itself included. -/
theorem hears_iff (hplace : ∀ addr, place addr = 1 ∨ place addr = 2) (hr : Run (lan place) h n)
    {src dest : Int} (hdest : dest ≠ BROADCAST_ADDR) (q : Int) :
    n.Hears src dest q ↔ q = n.place src ∨
      ∀ port, lastSpoke dest ((n, .send src dest) :: h) = some port → q = port := by
  have hr' := hr.snoc (show (lan place).step n (.send src dest) = some _ from rfl)
  have hport := port_eq_lastSpoke hr' dest
  unfold Lan.Hears
  rw [processFrame_snd, if_neg (show (n.frame src dest).destAddr ≠ BROADCAST_ADDR from hdest)]
  rw [show (processFrame n.bridge (n.frame src dest)).1.port (n.frame src dest).destAddr = _
    from hport]
  cases hspoke : lastSpoke dest ((n, .send src dest) :: h) with
  | none => simp [Decision.Reaches]
  | some port =>
    have hreal : port ≠ -1 := by
      rcases lastSpoke_cases hplace hr' hspoke with rfl | rfl
      · decide
      · decide
    simp only [if_neg hreal, Option.some.injEq, forall_eq']
    by_cases hsame : port = n.place src
    · rw [if_pos (show port = (n.frame src dest).srcPort from hsame), hsame]
      simp [Decision.Reaches]
    · rw [if_neg (show port ≠ (n.frame src dest).srcPort from hsame)]
      exact Iff.rfl

/-- Which of the frames from `src` to `dest` arrive, after the run with history `h`. -/
structure Delivery (h : List (Lan × Event)) (n : Lan) (src dest : Int) : Prop where
  lost : ¬n.Hears src dest (n.place dest) ↔
    lastSpoke dest h = some (n.place src) ∧ n.place dest ≠ n.place src
  crosses : (∃ q, (q = 1 ∨ q = 2) ∧ q ≠ n.place src ∧ n.Hears src dest q) ↔
    src ≠ dest ∧ lastSpoke dest h ≠ some (n.place src)
  settled : lastSpoke dest h = some (n.place dest) →
    ∀ q, n.Hears src dest q ↔ q = n.place src ∨ q = n.place dest

/-- **Lost frames and needless ones**, after any moves and frames: a frame to a station is lost
exactly when the station last spoke from the sender's segment and has moved to the other one; a
frame crosses the bridge exactly when its destination is another station that did not last speak
from the sender's segment; and once a station has spoken from where it is, its frames are heard
there, where they are sent, and nowhere else. -/
theorem frame_delivery (hplace : ∀ addr, place addr = 1 ∨ place addr = 2)
    (hr : Run (lan place) h n) {src dest : Int} (hdest : dest ≠ BROADCAST_ADDR) :
    Delivery h n src dest := by
  have hhears : ∀ q, n.Hears src dest q ↔ _ := hears_iff hplace hr hdest
  have hsrc := place_cases hplace hr.reachable src
  have hdst := place_cases hplace hr.reachable dest
  by_cases hself : src = dest
  · subst hself
    have hnow : ∀ q, n.Hears src src q ↔ q = n.place src := by
      intro q
      rw [hhears q, lastSpoke, if_pos rfl]
      simp
    refine ⟨?_, ?_, fun _ q => ?_⟩
    · rw [hnow]
      simp
    · simp [hnow]
    · rw [hnow]
      simp
  · simp only [lastSpoke, if_neg hself] at hhears
    cases hspoke : lastSpoke dest h with
    | none =>
      have hall : ∀ q, n.Hears src dest q := fun q => (hhears q).mpr (Or.inr (by simp [hspoke]))
      refine ⟨?_, ?_, ?_⟩
      · rw [hspoke]
        exact iff_of_false (not_not_intro (hall _)) (by simp)
      · rw [hspoke]
        refine iff_of_true ?_ ⟨hself, by simp⟩
        rcases hsrc with hone | htwo
        · exact ⟨2, Or.inr rfl, by omega, hall 2⟩
        · exact ⟨1, Or.inl rfl, by omega, hall 1⟩
      · rw [hspoke]
        intro hnone
        cases hnone
    | some port =>
      have hspokeFrom := lastSpoke_cases hplace hr hspoke
      simp only [hspoke, Option.some.injEq, forall_eq'] at hhears
      refine ⟨?_, ?_, ?_⟩
      · rw [hhears, hspoke, Option.some.injEq]
        omega
      · rw [hspoke, and_iff_right hself, Ne, Option.some.injEq]
        constructor
        · rintro ⟨q, -, hne, hq⟩ heq
          rcases (hhears q).mp hq with h | h
          · exact hne h
          · exact hne (h.trans heq)
        · intro hne
          exact ⟨port, hspokeFrom, hne, (hhears port).mpr (Or.inr rfl)⟩
      · rw [hspoke, Option.some.injEq]
        rintro rfl q
        exact hhears q

/-- Both stations on the first segment; the station 2 answers and moves away, and then the station 1
calls it in vain. -/
theorem frame_delivery_moved : ∃ h n, Run (lan fun _ => 1) h n ∧
    h.map Prod.snd = [.move 2 2, .send 2 1, .send 1 2] ∧ ¬n.Hears 1 2 (n.place 2) := by
  have hplace : ∀ addr : Int, (fun _ => 1 : Int → Int) addr = 1 ∨
      (fun _ => 1 : Int → Int) addr = 2 :=
    fun _ => Or.inl rfl
  have hr := ((Run.nil (M := lan fun _ => 1)).snoc
    (show (lan fun _ => 1).step _ (.send 1 2) = some _ from rfl)).snoc
    (show (lan fun _ => 1).step _ (.send 2 1) = some _ from rfl)
  have hr' := hr.snoc (show (lan fun _ => 1).step _ (.move 2 2) = some _ from rfl)
  refine ⟨_, _, hr', rfl, (frame_delivery hplace hr' (by decide)).lost.mpr ⟨rfl, by decide⟩⟩

end CampusNet.BridgeLearning
