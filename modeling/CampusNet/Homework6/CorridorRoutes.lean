import CampusNet.Homework6.ApDeployment
import CampusNet.Lib.Route

/-!
# Routes through the corridor

The wall counts of `homework6/ap_deployment.cpp` between any two points of the building, leg by leg
along a route.  They obey no triangle inequality: a leg into the corridor counts one wall however
many rows it crosses.

* `leastWalls` — at most two row walls: as many as a way through the corridor counts.
* `leastWalls_triangle` — these counts do obey it.
* `cheapest_route` — over any stops, no route counts less, one counts as much, and the direct one
  does exactly unless three row walls lie between two points outside the corridor.
-/

namespace CampusNet.ApDeployment

open Grid Route

/-- The attenuation of one leg. -/
def legAttenuation (p q : Point) : ℚ := wallAttenuation (wallsTo p q)

/-- The walls of a way that may turn into the corridor. -/
def leastWalls (p q : Point) : WallCount :=
  ⟨crossed CLASSROOM_WIDTH p.x q.x,
    if InCorridor p.y then if InCorridor q.y then 0 else 1
    else if InCorridor q.y then 1 else min (crossed CLASSROOM_LENGTH p.y q.y) 2,
    0⟩

/-- Outside the corridor, with three row walls between them. -/
def RowsApart (p q : Point) : Prop :=
  ¬InCorridor p.y ∧ ¬InCorridor q.y ∧
    (WallsBetween CLASSROOM_LENGTH 2 p.y q.y ∨ WallsBetween CLASSROOM_LENGTH 2 q.y p.y)

/-! ## The bound -/

theorem crossed_triangle (w a m b : ℚ) : crossed w a b ≤ crossed w a m + crossed w m b := by
  unfold crossed
  rw [add_comm]
  exact abs_sub_le _ _ _

theorem crossed_nonneg (w a b : ℚ) : 0 ≤ crossed w a b := abs_nonneg _

theorem wallAttenuation_add (b b' p p' g g' : ℤ) :
    wallAttenuation ⟨b + b', p + p', g + g'⟩ =
      wallAttenuation ⟨b, p, g⟩ + wallAttenuation ⟨b', p', g'⟩ := by
  unfold wallAttenuation
  push_cast
  ring

theorem leastWalls_partition_triangle (p m q : Point) :
    (leastWalls p q).partitionWalls ≤
      (leastWalls p m).partitionWalls + (leastWalls m q).partitionWalls := by
  have hrows := crossed_triangle CLASSROOM_LENGTH p.y m.y q.y
  have hbefore := crossed_nonneg CLASSROOM_LENGTH p.y m.y
  have hafter := crossed_nonneg CLASSROOM_LENGTH m.y q.y
  unfold leastWalls
  by_cases hp : InCorridor p.y
  · by_cases hm : InCorridor m.y
    · simp [hp, hm]
    · by_cases hq : InCorridor q.y
      · simp [hp, hm, hq]
      · simp only [hp, hm, hq, if_true, if_false]
        omega
  · by_cases hm : InCorridor m.y
    · by_cases hq : InCorridor q.y
      · simp [hp, hm, hq]
      · -- in and out again
        simp only [hp, hm, hq, if_true, if_false]
        omega
    · by_cases hq : InCorridor q.y
      · simp only [hp, hm, hq, if_true, if_false]
        omega
      · simp only [hp, hm, hq, if_false]
        omega

/-- **The bound is a distance**: going over a stop does not count less. -/
theorem leastWalls_triangle (p m q : Point) :
    wallAttenuation (leastWalls p q) ≤
      wallAttenuation (leastWalls p m) + wallAttenuation (leastWalls m q) := by
  have hsum := wallAttenuation_add (leastWalls p m).bearingWalls (leastWalls m q).bearingWalls
    (leastWalls p m).partitionWalls (leastWalls m q).partitionWalls 0 0
  refine le_trans (wallAttenuation_mono ?_ ?_ ?_) (le_of_eq hsum)
  · exact crossed_triangle CLASSROOM_WIDTH p.x m.x q.x
  · exact leastWalls_partition_triangle p m q
  · exact le_rfl

theorem leastWalls_le (p q : Point) : wallAttenuation (leastWalls p q) ≤ legAttenuation p q := by
  unfold legAttenuation
  rw [wallsTo_eq]
  refine wallAttenuation_mono le_rfl ?_ le_rfl
  show (leastWalls p q).partitionWalls ≤ _
  unfold leastWalls
  dsimp only
  split
  · exact le_rfl
  · split
    · exact le_rfl
    · exact min_le_left _ _

/-! ## The routes -/

theorem lt_crossed_iff_rowsApart {p q : Point} (hp : InBuilding p) (hq : InBuilding q)
    (hpOut : ¬InCorridor p.y) (hqOut : ¬InCorridor q.y) :
    2 < crossed CLASSROOM_LENGTH p.y q.y ↔ RowsApart p q := by
  have hrows := lt_crossed_iff classroomLength_pos hp.2.1 hq.2.1 2
  simpa [RowsApart, hpOut, hqOut] using hrows

/-- The direct leg counts as little as any route, unless the corridor hides row walls. -/
theorem direct_iff {p q : Point} (hp : InBuilding p) (hq : InBuilding q) :
    legAttenuation p q = wallAttenuation (leastWalls p q) ↔ ¬RowsApart p q := by
  unfold legAttenuation
  rw [wallsTo_eq]
  unfold leastWalls
  by_cases hpIn : InCorridor p.y
  · exact iff_of_true (by rw [if_pos hpIn, if_pos hpIn]) fun h => h.1 hpIn
  · by_cases hqIn : InCorridor q.y
    · refine iff_of_true ?_ fun h => h.2.1 hqIn
      rw [if_neg hpIn, if_neg hpIn, if_pos hqIn, if_pos hqIn]
    · rw [← lt_crossed_iff_rowsApart hp hq hpIn hqIn, if_neg hpIn, if_neg hpIn, if_neg hqIn,
        if_neg hqIn, not_lt]
      constructor
      · intro heq
        norm_num [wallAttenuation, PARTITION_WALL_ATTEN] at heq
        exact_mod_cast heq
      · intro hle
        rw [min_eq_left hle]

/-- The middle of the corridor, in front of a point. -/
def corridorStop (p : Point) : Point := ⟨p.x, 40⟩

theorem corridorStop_inCorridor (p : Point) : InCorridor (corridorStop p).y := by
  rw [inCorridor_iff]
  norm_num [corridorStop]

/-- The way over the corridor, from outside to outside. -/
theorem total_corridorStop {p q : Point} (hpOut : ¬InCorridor p.y) (hqOut : ¬InCorridor q.y) :
    total legAttenuation p [corridorStop p, q] =
      wallAttenuation ⟨crossed CLASSROOM_WIDTH p.x q.x, 2, 0⟩ := by
  have hin := corridorStop_inCorridor p
  have hfirst : wallsTo p (corridorStop p) = ⟨0, 1, 0⟩ := by
    rw [wallsTo_eq, if_neg hpOut, if_pos hin]
    simp [corridorStop, crossed]
  have hsecond : wallsTo (corridorStop p) q = ⟨crossed CLASSROOM_WIDTH p.x q.x, 1, 0⟩ := by
    rw [wallsTo_eq, if_pos hin, if_neg hqOut]
    rfl
  show legAttenuation p (corridorStop p) + (legAttenuation (corridorStop p) q + 0) = _
  unfold legAttenuation
  rw [hfirst, hsecond, add_zero, ← wallAttenuation_add, zero_add]
  rfl

/-- **The cheapest routes** between two points of the building: over any stops in it, no route
counts less attenuation than `leastWalls` and some route counts as much; the direct one does exactly
unless both points are outside the corridor with three row walls between them. -/
theorem cheapest_route {p q : Point} (hp : InBuilding p) (hq : InBuilding q) :
    IsLeast (totals legAttenuation InBuilding p q) (wallAttenuation (leastWalls p q)) ∧
    (legAttenuation p q = wallAttenuation (leastWalls p q) ↔ ¬RowsApart p q) := by
  refine ⟨isLeast_total leastWalls_le leastWalls_triangle ?_, direct_iff hp hq⟩
  by_cases hrows : RowsApart p q
  · refine ⟨[corridorStop p], ?_, ?_⟩
    · rintro m hm
      rw [List.mem_singleton.mp hm]
      refine ⟨hp.1, ?_⟩
      norm_num [corridorStop, BUILDING_LENGTH]
    · have hmany := (lt_crossed_iff_rowsApart hp hq hrows.1 hrows.2.1).mpr hrows
      refine (total_corridorStop hrows.1 hrows.2.1).trans ?_
      unfold leastWalls
      rw [if_neg hrows.1, if_neg hrows.2.1, min_eq_right hmany.le]
  · refine ⟨[], List.forall_mem_nil _, ?_⟩
    rw [← (direct_iff hp hq).mpr hrows]
    exact add_zero _

/-- From a classroom at the front to one at the back: 12 dB over the corridor, and 42 dB at once. -/
theorem cheapest_route_frontToBack :
    IsLeast (totals legAttenuation InBuilding ⟨50, 5⟩ ⟨50, 75⟩) 12 ∧
      legAttenuation ⟨50, 5⟩ ⟨50, 75⟩ = 42 := by
  have hp : InBuilding ⟨50, 5⟩ := by norm_num [InBuilding, BUILDING_WIDTH, BUILDING_LENGTH]
  have hq : InBuilding ⟨50, 75⟩ := by norm_num [InBuilding, BUILDING_WIDTH, BUILDING_LENGTH]
  have hleast : wallAttenuation (leastWalls ⟨50, 5⟩ ⟨50, 75⟩) = 12 := by
    norm_num [leastWalls, wallAttenuation, inCorridor_iff, crossed, cell, truncate,
      CLASSROOM_LENGTH, PARTITION_WALL_ATTEN]
  have hdirect : legAttenuation ⟨50, 5⟩ ⟨50, 75⟩ = 42 := by
    norm_num [legAttenuation, wallsTo_eq, wallAttenuation, inCorridor_iff, crossed, cell, truncate,
      CLASSROOM_LENGTH, PARTITION_WALL_ATTEN]
  exact ⟨hleast ▸ (cheapest_route hp hq).1, hdirect⟩

end CampusNet.ApDeployment
