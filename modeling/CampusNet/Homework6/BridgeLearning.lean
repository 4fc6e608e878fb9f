import CampusNet.Lib.KeyedFold

/-!
# The learning bridge

Model of `homework6/bridge_learning.cpp`: the bridge learns the port of a frame's source and then
looks up its destination.

* `Bridge.learn`, `Bridge.lookup`, `processFrame` — as the source has them; `processFrames` — the
  loop of `main`.
* `LatestPort` — the source port of the most recent frame from an address.
* `FollowsLatest` — the decision that the frames seen so far call for.
* `processFrames_followsLatest` — the decision taken for the last of any sequence of frames.
-/

namespace CampusNet.BridgeLearning

open KeyedFold

def BROADCAST_ADDR : Int := 0xF

structure MacTableEntry where
  port : Int

structure Bridge where
  macTable : Std.ExtTreeMap Int MacTableEntry

/-- The bridge as constructed, with an empty table. -/
def Bridge.new : Bridge := ⟨∅⟩

def Bridge.learn (bridge : Bridge) (srcAddr srcPort : Int) : Bridge :=
  ⟨bridge.macTable.insert srcAddr ⟨srcPort⟩⟩

def Bridge.lookup (bridge : Bridge) (destAddr : Int) : Int :=
  if destAddr = BROADCAST_ADDR then 0
  else
    match bridge.macTable[destAddr]? with
    | some entry => entry.port
    | none => -1

structure Frame where
  srcAddr : Int
  srcPort : Int
  destAddr : Int

/-- The lines that `process_frame` prints of the destination port. -/
inductive Decision where
  | broadcast
  | flood
  | filter (port : Int)
  | forward (port : Int)
  deriving DecidableEq, Repr

def processFrame (bridge : Bridge) (frame : Frame) : Bridge × Decision :=
  let learnt := bridge.learn frame.srcAddr frame.srcPort
  let destPort := learnt.lookup frame.destAddr
  (learnt,
    if frame.destAddr = BROADCAST_ADDR then .broadcast
    else if destPort = -1 then .flood
    else if destPort = frame.srcPort then .filter destPort
    else .forward destPort)

/-- The loop over the frames, with the decisions in order. -/
def processFrames : Bridge → List Frame → Bridge × List Decision
  | bridge, [] => (bridge, [])
  | bridge, frame :: frames =>
    let (bridge', decision) := processFrame bridge frame
    let (last, decisions) := processFrames bridge' frames
    (last, decision :: decisions)

/-- The most recent frame from `addr` came in at `port`. -/
def LatestPort (frames : List Frame) (addr port : Int) : Prop :=
  ∃ earlier frame later, frames = earlier ++ frame :: later ∧
    frame.srcAddr = addr ∧ frame.srcPort = port ∧ ∀ g ∈ later, g.srcAddr ≠ addr

/-- The decision for `frame` that the frames seen, itself included, call for. -/
inductive FollowsLatest (frames : List Frame) (frame : Frame) : Decision → Prop
  | broadcast : frame.destAddr = BROADCAST_ADDR → FollowsLatest frames frame .broadcast
  | filter : frame.destAddr ≠ BROADCAST_ADDR →
      LatestPort frames frame.destAddr frame.srcPort →
      FollowsLatest frames frame (.filter frame.srcPort)
  | forward {port : Int} : frame.destAddr ≠ BROADCAST_ADDR →
      LatestPort frames frame.destAddr port → port ≠ frame.srcPort →
      FollowsLatest frames frame (.forward port)
  | flood : frame.destAddr ≠ BROADCAST_ADDR → (∀ g ∈ frames, g.srcAddr ≠ frame.destAddr) →
      FollowsLatest frames frame .flood

/-! ## The table -/

/-- The port the table has for an address. -/
def Bridge.port (bridge : Bridge) (addr : Int) : Option Int :=
  bridge.macTable[addr]?.map MacTableEntry.port

/-- What a frame gives the bridge to learn. -/
def Frame.source (frame : Frame) : Int × Int := (frame.srcAddr, frame.srcPort)

theorem learn_keyed :
    Keyed Bridge.port (fun bridge source => bridge.learn source.1 source.2)
      fun port _ => some port where
  own bridge addr port := by simp [Bridge.port, Bridge.learn]
  other bridge addr port other hne := by
    simp [Bridge.port, Bridge.learn, Std.ExtTreeMap.getElem?_insert, Ne.symm hne]

theorem port_new (addr : Int) : Bridge.new.port addr = none := by
  simp [Bridge.port, Bridge.new]

theorem latest_source {frames : List Frame} {addr port : Int} :
    Latest (frames.map Frame.source) addr port ↔ LatestPort frames addr port := by
  constructor
  · rintro ⟨earlier, later, hframes, hlast⟩
    obtain ⟨earlier', rest, rfl, rfl, hrest⟩ := List.map_eq_append_iff.mp hframes
    obtain ⟨frame, later', rfl, hframe, rfl⟩ := List.map_eq_cons_iff.mp hrest
    obtain ⟨haddr, hport⟩ := Prod.mk.inj hframe
    refine ⟨earlier', frame, later', rfl, haddr, hport, fun g hg heq => hlast ?_⟩
    simp only [List.map_map, List.mem_map]
    exact ⟨g, hg, heq⟩
  · rintro ⟨earlier, frame, later, rfl, rfl, rfl, hlast⟩
    refine ⟨earlier.map Frame.source, later.map Frame.source, by simp [Frame.source], ?_⟩
    simpa [Frame.source] using hlast

theorem processFrames_append (bridge : Bridge) (frames : List Frame) (frame : Frame) :
    (processFrames bridge (frames ++ [frame])).2 = (processFrames bridge frames).2 ++
      [(processFrame (processFrames bridge frames).1 frame).2] := by
  induction frames generalizing bridge with
  | nil => rfl
  | cons f frames ih => simp [processFrames, ih]

theorem processFrames_bridge (bridge : Bridge) (frames : List Frame) :
    (processFrames bridge frames).1 = (frames.map Frame.source).foldl
      (fun bridge source => bridge.learn source.1 source.2) bridge := by
  induction frames generalizing bridge with
  | nil => rfl
  | cons f frames ih => exact ih _

/-- The bridge after any frames has the latest port of each address. -/
theorem port_iff (frames : List Frame) (addr port : Int) :
    (processFrames Bridge.new frames).1.port addr = some port ↔ LatestPort frames addr port := by
  rw [processFrames_bridge, learn_keyed.foldl_eq_some_iff (port_new addr), latest_source]

theorem port_none_iff (frames : List Frame) (addr : Int) :
    (processFrames Bridge.new frames).1.port addr = none ↔ ∀ g ∈ frames, g.srcAddr ≠ addr := by
  rw [processFrames_bridge, learn_keyed.foldl_eq_none_iff (port_new addr)]
  simp [Frame.source]

/-! ## The decision -/

theorem LatestPort.mem {frames : List Frame} {addr port : Int} (h : LatestPort frames addr port) :
    ∃ g ∈ frames, g.srcAddr = addr ∧ g.srcPort = port := by
  obtain ⟨earlier, frame, later, rfl, haddr, hport, -⟩ := h
  exact ⟨frame, by simp, haddr, hport⟩

/-- What `process_frame` decides, by the table that has learnt the frame's source. -/
theorem processFrame_snd (bridge : Bridge) (frame : Frame) :
    (processFrame bridge frame).2 =
      if frame.destAddr = BROADCAST_ADDR then .broadcast
      else
        match (processFrame bridge frame).1.port frame.destAddr with
        | none => .flood
        | some port =>
          if port = -1 then .flood else if port = frame.srcPort then .filter port
          else .forward port := by
  by_cases hall : frame.destAddr = BROADCAST_ADDR
  · simp [processFrame, hall]
  · simp only [processFrame, Bridge.lookup, Bridge.port, if_neg hall]
    cases (bridge.learn frame.srcAddr frame.srcPort).macTable[frame.destAddr]? with
    | none => simp
    | some entry => simp

/-- The decision follows the latest evidence, on ports that are not the mark of a missing entry. -/
theorem processFrame_followsLatest {frames : List Frame} {frame : Frame} {decision : Decision}
    (hports : ∀ g ∈ frames ++ [frame], g.srcPort ≠ -1) :
    (processFrame (processFrames Bridge.new frames).1 frame).2 = decision ↔
      FollowsLatest (frames ++ [frame]) frame decision := by
  have hbridge : (processFrame (processFrames Bridge.new frames).1 frame).1 =
      (processFrames Bridge.new (frames ++ [frame])).1 := by
    rw [processFrames_bridge, processFrames_bridge, List.map_append, List.foldl_append]
    rfl
  have hreal : ∀ {port}, LatestPort (frames ++ [frame]) frame.destAddr port → port ≠ -1 := by
    intro port hlatest
    obtain ⟨g, hg, -, rfl⟩ := hlatest.mem
    exact hports g hg
  rw [processFrame_snd, hbridge]
  constructor
  · rintro rfl
    by_cases hall : frame.destAddr = BROADCAST_ADDR
    · rw [if_pos hall]
      exact .broadcast hall
    · rw [if_neg hall]
      cases hport : (processFrames Bridge.new (frames ++ [frame])).1.port frame.destAddr with
      | none => exact .flood hall ((port_none_iff _ _).mp hport)
      | some port =>
        have hlatest := (port_iff _ _ _).mp hport
        simp only [if_neg (hreal hlatest)]
        by_cases hsame : port = frame.srcPort
        · rw [if_pos hsame]
          subst hsame
          exact .filter hall hlatest
        · rw [if_neg hsame]
          exact .forward hall hlatest hsame
  · intro hfollows
    cases hfollows with
    | broadcast hall => rw [if_pos hall]
    | filter hall hlatest => simp [hall, (port_iff _ _ _).mpr hlatest, hreal hlatest]
    | forward hall hlatest hne => simp [hall, (port_iff _ _ _).mpr hlatest, hreal hlatest, hne]
    | flood hall hnone => simp [hall, (port_none_iff _ _).mpr hnone]

/-- **The bridge follows the latest evidence**: the decision for the last of any sequence of frames
on the ports 1 and 2. -/
theorem processFrames_followsLatest {frames : List Frame} {frame : Frame}
    (hports : ∀ g ∈ frames ++ [frame], g.srcPort = 1 ∨ g.srcPort = 2) (decision : Decision) :
    (processFrames Bridge.new (frames ++ [frame])).2.getLast? = some decision ↔
      FollowsLatest (frames ++ [frame]) frame decision := by
  rw [processFrames_append, List.getLast?_concat, Option.some.injEq]
  refine processFrame_followsLatest fun g hg => ?_
  rcases hports g hg with hone | htwo
  · simp [hone]
  · simp [htwo]

/-- The station 1 answers from port 1, moves to port 2, and is sent a frame from there. -/
theorem processFrames_followsLatest_moved :
    (processFrames Bridge.new ([⟨1, 1, 2⟩, ⟨1, 2, 15⟩] ++ [⟨3, 2, 1⟩])).2.getLast? =
      some (.filter 2) := by
  refine (processFrames_followsLatest (by simp) _).mpr ?_
  exact .filter (by decide) ⟨[⟨1, 1, 2⟩], ⟨1, 2, 15⟩, [⟨3, 2, 1⟩], rfl, rfl, rfl, by simp⟩

end CampusNet.BridgeLearning
