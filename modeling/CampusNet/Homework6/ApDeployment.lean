import CampusNet.Lib.Grid

/-!
# Walls between an access point and a target

Model of `count_walls` and `wall_attenuation` of `homework6/ap_deployment.cpp`, on exact
coordinates.

* `countWalls`, `wallAttenuation` — as the source has them.
* `NeverUncrosses` — on the way to the target no count and no attenuation is higher than there.
* `neverUncrosses_iff` — that holds exactly unless the target is in the corridor and two row walls
  are crossed before it.
-/

namespace CampusNet.ApDeployment

open Grid

def BUILDING_WIDTH : ℚ := 100
def BUILDING_LENGTH : ℚ := 80
def BEARING_WALL_ATTEN : ℚ := 12
def PARTITION_WALL_ATTEN : ℚ := 6
def GLASS_WALL_ATTEN : ℚ := 7
def CORRIDOR_WIDTH : ℚ := 2
def CLASSROOM_WIDTH : ℚ := 15
def CLASSROOM_LENGTH : ℚ := 10

structure WallCount where
  bearingWalls : ℤ
  partitionWalls : ℤ
  glassWalls : ℤ

def corridorCenter : ℚ := BUILDING_LENGTH / 2
def corridorMin : ℚ := corridorCenter - CORRIDOR_WIDTH / 2
def corridorMax : ℚ := corridorCenter + CORRIDOR_WIDTH / 2

def InCorridor (y : ℚ) : Prop := y ≥ corridorMin ∧ y ≤ corridorMax

instance (y : ℚ) : Decidable (InCorridor y) := inferInstanceAs (Decidable (_ ∧ _))

def countWalls (apX apY targetX targetY : ℚ) : WallCount :=
  let walls : WallCount := ⟨0, 0, 0⟩
  let walls :=
    if ¬(InCorridor apY ↔ InCorridor targetY) then
      { walls with partitionWalls := walls.partitionWalls + 1 }
    else walls
  let apRoomX := truncate (apX / CLASSROOM_WIDTH)
  let targetRoomX := truncate (targetX / CLASSROOM_WIDTH)
  let walls := { walls with bearingWalls := walls.bearingWalls + |targetRoomX - apRoomX| }
  let apRoomY := truncate (apY / CLASSROOM_LENGTH)
  let targetRoomY := truncate (targetY / CLASSROOM_LENGTH)
  if apRoomY ≠ targetRoomY ∧ ¬InCorridor apY ∧ ¬InCorridor targetY then
    { walls with partitionWalls := walls.partitionWalls + |targetRoomY - apRoomY| }
  else walls

def wallAttenuation (walls : WallCount) : ℚ :=
  walls.bearingWalls * BEARING_WALL_ATTEN + walls.partitionWalls * PARTITION_WALL_ATTEN +
    walls.glassWalls * GLASS_WALL_ATTEN

structure Point where
  x : ℚ
  y : ℚ

def InBuilding (p : Point) : Prop :=
  (0 ≤ p.x ∧ p.x ≤ BUILDING_WIDTH) ∧ 0 ≤ p.y ∧ p.y ≤ BUILDING_LENGTH

/-- The point on the way from `p` to `q` at the ratio `t`. -/
def Point.toward (p q : Point) (t : ℚ) : Point := ⟨onWay p.x q.x t, onWay p.y q.y t⟩

def wallsTo (ap p : Point) : WallCount := countWalls ap.x ap.y p.x p.y

/-- Up to `m` no more walls of any kind are counted, and no more attenuation, than up to the
target. -/
structure NeverUncrosses (ap m target : Point) : Prop where
  bearing : (wallsTo ap m).bearingWalls ≤ (wallsTo ap target).bearingWalls
  partition : (wallsTo ap m).partitionWalls ≤ (wallsTo ap target).partitionWalls
  glass : (wallsTo ap m).glassWalls ≤ (wallsTo ap target).glassWalls
  attenuation : wallAttenuation (wallsTo ap m) ≤ wallAttenuation (wallsTo ap target)

/-- Only the target is in the corridor, and two row walls are crossed before it. -/
def RowsBeforeCorridor (ap m target : Point) : Prop :=
  ¬InCorridor ap.y ∧ ¬InCorridor m.y ∧ InCorridor target.y ∧
    (WallsBetween CLASSROOM_LENGTH 1 ap.y m.y ∨ WallsBetween CLASSROOM_LENGTH 1 m.y ap.y)

/-! ## The counts -/

/-- Room walls along the corridor, one corridor wall if only one end is there, and the row walls if
none is. -/
theorem wallsTo_eq (p q : Point) :
    wallsTo p q =
      ⟨crossed CLASSROOM_WIDTH p.x q.x,
        if InCorridor p.y then if InCorridor q.y then 0 else 1
        else if InCorridor q.y then 1 else crossed CLASSROOM_LENGTH p.y q.y,
        0⟩ := by
  unfold wallsTo countWalls
  by_cases hp : InCorridor p.y
  · by_cases hq : InCorridor q.y
    · simp [hp, hq, crossed, cell]
    · simp [hp, hq, crossed, cell]
  · by_cases hq : InCorridor q.y
    · simp [hp, hq, crossed, cell]
    · by_cases hrows : truncate (p.y / CLASSROOM_LENGTH) = truncate (q.y / CLASSROOM_LENGTH)
      · simp [hp, hq, hrows, crossed, cell]
      · simp [hp, hq, hrows, crossed, cell]

theorem wallAttenuation_mono {walls walls' : WallCount}
    (hbearing : walls.bearingWalls ≤ walls'.bearingWalls)
    (hpartition : walls.partitionWalls ≤ walls'.partitionWalls)
    (hglass : walls.glassWalls ≤ walls'.glassWalls) :
    wallAttenuation walls ≤ wallAttenuation walls' := by
  unfold wallAttenuation BEARING_WALL_ATTEN PARTITION_WALL_ATTEN GLASS_WALL_ATTEN
  gcongr

/-! ## Along the way -/

theorem classroomLength_pos : 0 < CLASSROOM_LENGTH := by norm_num [CLASSROOM_LENGTH]

theorem classroomWidth_pos : 0 < CLASSROOM_WIDTH := by norm_num [CLASSROOM_WIDTH]

theorem inCorridor_iff {y : ℚ} : InCorridor y ↔ 39 ≤ y ∧ y ≤ 41 := by
  norm_num [InCorridor, corridorMin, corridorMax, corridorCenter, BUILDING_LENGTH, CORRIDOR_WIDTH]

/-- The row wall at 40 runs along the corridor. -/
theorem crossed_corridor_of_le {a b m : ℚ} (ha : 0 ≤ a) (ham : a ≤ m) (hmb : m ≤ b)
    (haOut : ¬InCorridor a) (hmIn : InCorridor m) (hbOut : ¬InCorridor b) :
    0 < crossed CLASSROOM_LENGTH a b := by
  rw [inCorridor_iff] at haOut hmIn hbOut
  have hbelow : a < 39 := lt_of_not_ge fun h => haOut ⟨h, ham.trans hmIn.2⟩
  have habove : 41 < b := lt_of_not_ge fun h => hbOut ⟨hmIn.1.trans hmb, h⟩
  refine (lt_crossed_iff_of_le classroomLength_pos ha (ham.trans hmb) 0).mpr ⟨4, ?_, ?_⟩
  · norm_num [CLASSROOM_LENGTH]
    linarith
  · norm_num [CLASSROOM_LENGTH]
    linarith

theorem crossed_corridor {a b m : ℚ} (ha : 0 ≤ a) (hb : 0 ≤ b) (hm : m ∈ Set.uIcc a b)
    (haOut : ¬InCorridor a) (hmIn : InCorridor m) (hbOut : ¬InCorridor b) :
    0 < crossed CLASSROOM_LENGTH a b := by
  rcases Set.mem_uIcc.mp hm with ⟨ham, hmb⟩ | ⟨hbm, hma⟩
  · exact crossed_corridor_of_le ha ham hmb haOut hmIn hbOut
  · rw [crossed_comm]
    exact crossed_corridor_of_le hb hbm hma hbOut hmIn haOut

theorem partition_le_iff {ap m target : Point} (hap : 0 ≤ ap.y) (htarget : 0 ≤ target.y)
    (hm : m.y ∈ Set.uIcc ap.y target.y) :
    (wallsTo ap m).partitionWalls ≤ (wallsTo ap target).partitionWalls ↔
      ¬RowsBeforeCorridor ap m target := by
  simp only [wallsTo_eq]
  by_cases hapIn : InCorridor ap.y
  · rw [if_pos hapIn, if_pos hapIn]
    refine iff_of_true ?_ fun h => h.1 hapIn
    by_cases htargetIn : InCorridor target.y
    · have hmIn : InCorridor m.y := Set.ordConnected_Icc.uIcc_subset hapIn htargetIn hm
      rw [if_pos hmIn, if_pos htargetIn]
    · rw [if_neg htargetIn]
      split
      · exact Int.one_nonneg
      · exact le_rfl
  · rw [if_neg hapIn, if_neg hapIn]
    by_cases htargetIn : InCorridor target.y
    · by_cases hmIn : InCorridor m.y
      · rw [if_pos hmIn, if_pos htargetIn]
        exact iff_of_true le_rfl fun h => h.2.1 hmIn
      · have hmNonneg : 0 ≤ m.y := (le_inf hap htarget).trans hm.1
        have hrows := lt_crossed_iff classroomLength_pos hap hmNonneg 1
        rw [if_neg hmIn, if_pos htargetIn, ← not_lt, RowsBeforeCorridor]
        simpa [hapIn, hmIn, htargetIn] using not_congr hrows
    · refine iff_of_true ?_ fun h => htargetIn h.2.2.1
      rw [if_neg htargetIn]
      by_cases hmIn : InCorridor m.y
      · rw [if_pos hmIn]
        exact crossed_corridor hap htarget hm hapIn hmIn htargetIn
      · rw [if_neg hmIn]
        exact crossed_le classroomLength_pos hap htarget hm

/-- **Walls are un-crossed** exactly where the corridor hides them: on the way from an access point
to a target, both in the building, no count and no attenuation goes down, unless only the target is
in the corridor and two row walls are crossed before it. -/
theorem neverUncrosses_iff {ap target : Point} (hap : InBuilding ap) (htarget : InBuilding target)
    {t : ℚ} (h0 : 0 ≤ t) (h1 : t ≤ 1) :
    NeverUncrosses ap (ap.toward target t) target ↔
      ¬RowsBeforeCorridor ap (ap.toward target t) target := by
  have hpartition := partition_le_iff hap.2.1 htarget.2.1
    (m := ap.toward target t) (onWay_mem_uIcc h0 h1)
  have hbearing : (wallsTo ap (ap.toward target t)).bearingWalls ≤
      (wallsTo ap target).bearingWalls := by
    simp only [wallsTo_eq]
    exact crossed_le classroomWidth_pos hap.1.1 htarget.1.1 (onWay_mem_uIcc h0 h1)
  have hglass : (wallsTo ap (ap.toward target t)).glassWalls ≤ (wallsTo ap target).glassWalls := by
    simp only [wallsTo_eq]
    exact le_rfl
  constructor
  · intro hnever
    exact hpartition.mp hnever.partition
  · intro hnot
    have hle := hpartition.mpr hnot
    exact ⟨hbearing, hle, hglass, wallAttenuation_mono hbearing hle hglass⟩

/-- From a classroom at the front through the corridor to one at the back. -/
theorem neverUncrosses_iff_throughCorridor :
    NeverUncrosses ⟨50, 5⟩ (Point.toward ⟨50, 5⟩ ⟨50, 75⟩ (1 / 2)) ⟨50, 75⟩ := by
  refine (neverUncrosses_iff ?_ ?_ (by norm_num) (by norm_num)).mpr ?_
  · norm_num [InBuilding, BUILDING_WIDTH, BUILDING_LENGTH]
  · norm_num [InBuilding, BUILDING_WIDTH, BUILDING_LENGTH]
  · rintro ⟨-, -, hin, -⟩
    norm_num [inCorridor_iff] at hin

/-- **Three walls become one**: a metre before the corridor three row walls are counted, in the
middle of it only the corridor wall, and the attenuation falls from 18 dB to 6 dB. -/
theorem corridor_uncrosses :
    InBuilding ⟨50, 5⟩ ∧ InBuilding ⟨50, 40⟩ ∧
    ¬NeverUncrosses ⟨50, 5⟩ (Point.toward ⟨50, 5⟩ ⟨50, 40⟩ (33 / 35)) ⟨50, 40⟩ ∧
    wallsTo ⟨50, 5⟩ (Point.toward ⟨50, 5⟩ ⟨50, 40⟩ (33 / 35)) = ⟨0, 3, 0⟩ ∧
    wallsTo ⟨50, 5⟩ ⟨50, 40⟩ = ⟨0, 1, 0⟩ ∧
    wallAttenuation ⟨0, 3, 0⟩ = 18 ∧ wallAttenuation ⟨0, 1, 0⟩ = 6 := by
  have hbefore : wallsTo ⟨50, 5⟩ (Point.toward ⟨50, 5⟩ ⟨50, 40⟩ (33 / 35)) = ⟨0, 3, 0⟩ := by
    norm_num [wallsTo_eq, inCorridor_iff, Point.toward, onWay, crossed, cell, truncate,
      CLASSROOM_WIDTH, CLASSROOM_LENGTH]
  have hinside : wallsTo ⟨50, 5⟩ ⟨50, 40⟩ = ⟨0, 1, 0⟩ := by
    norm_num [wallsTo_eq, inCorridor_iff, crossed]
  refine ⟨?_, ?_, fun hnever => ?_, hbefore, hinside, ?_, ?_⟩
  · norm_num [InBuilding, BUILDING_WIDTH, BUILDING_LENGTH]
  · norm_num [InBuilding, BUILDING_WIDTH, BUILDING_LENGTH]
  · have hle := hnever.partition
    rw [hbefore, hinside] at hle
    norm_num at hle
  · norm_num [wallAttenuation, PARTITION_WALL_ATTEN]
  · norm_num [wallAttenuation, PARTITION_WALL_ATTEN]

end CampusNet.ApDeployment
