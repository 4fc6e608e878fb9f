import Mathlib.Algebra.Order.Floor.Ring
import Mathlib.Algebra.Order.Group.Pointwise.Interval
import Mathlib.Data.Int.ConditionallyCompleteOrder
import Mathlib.Data.Rat.Floor

/-!
# Walls at regular distances

A line with a wall at every multiple of `w`; the cell of a point is its coordinate divided by `w`
and truncated.

* `truncate` — the conversion to `int`, towards zero.
* `crossed` — the number of walls between two points, as the difference of their cells.
* `crossed_le` — on the way to a point at most the walls of the whole way are crossed.
* `lt_crossed_iff` — more than `n` walls are crossed exactly when `n + 1` multiples of `w` lie
  between.
-/

namespace CampusNet.Grid

variable {K : Type} [Field K] [LinearOrder K]

/-- At least `n + 1` walls lie after `x`, up to `y`. -/
def WallsBetween (w : K) (n : ℕ) (x y : K) : Prop := ∃ k : ℤ, x < w * k ∧ w * (k + n) ≤ y

/-- The point that divides the way from `a` to `b` at the ratio `t`. -/
def onWay (a b t : K) : K := a + t * (b - a)

section Order

variable [IsStrictOrderedRing K] {w a b t : K}

theorem WallsBetween.lt (hw : 0 < w) {n : ℕ} (h : WallsBetween w n a b) : a < b := by
  obtain ⟨k, hak, hkb⟩ := h
  refine hak.trans_le (le_trans (mul_le_mul_of_nonneg_left ?_ hw.le) hkb)
  simp

theorem onWay_mem_uIcc (h0 : 0 ≤ t) (h1 : t ≤ 1) : onWay a b t ∈ Set.uIcc a b := by
  rw [Set.mem_uIcc, onWay]
  rcases le_total a b with hab | hba
  · have hstep := mul_nonneg h0 (sub_nonneg.mpr hab)
    have hrest := mul_nonneg (sub_nonneg.mpr h1) (sub_nonneg.mpr hab)
    exact Or.inl ⟨by linarith, by linarith⟩
  · have hstep := mul_nonneg h0 (sub_nonneg.mpr hba)
    have hrest := mul_nonneg (sub_nonneg.mpr h1) (sub_nonneg.mpr hba)
    exact Or.inr ⟨by linarith, by linarith⟩

end Order

variable [FloorRing K]

/-- The integer part, towards zero. -/
def truncate (x : K) : ℤ := if 0 ≤ x then ⌊x⌋ else ⌈x⌉

def cell (w x : K) : ℤ := truncate (x / w)

def crossed (w a b : K) : ℤ := |cell w b - cell w a|

theorem crossed_comm {w a b : K} : crossed w a b = crossed w b a := abs_sub_comm _ _

variable [IsStrictOrderedRing K] {w a b m : K}

theorem cell_eq_floor (hw : 0 < w) (ha : 0 ≤ a) : cell w a = ⌊a / w⌋ :=
  if_pos (div_nonneg ha hw.le)

theorem cell_mono (hw : 0 < w) : MonotoneOn (cell w) (Set.Ici 0) := by
  intro x hx y hy hxy
  rw [cell_eq_floor hw hx, cell_eq_floor hw hy]
  exact Int.floor_mono (div_le_div_of_nonneg_right hxy hw.le)

/-- **Never un-crossed**: on the way to a point at most the walls of the whole way are crossed. -/
theorem crossed_le (hw : 0 < w) (ha : 0 ≤ a) (hb : 0 ≤ b) (hm : m ∈ Set.uIcc a b) :
    crossed w a m ≤ crossed w a b := by
  have hpos : Set.uIcc a b ⊆ Set.Ici 0 := fun _ hx => (le_inf ha hb).trans hx.1
  exact Set.abs_sub_left_of_mem_uIcc (((cell_mono hw).mono hpos).mapsTo_uIcc hm)

theorem lt_crossed_iff_of_le (hw : 0 < w) (ha : 0 ≤ a) (hab : a ≤ b) (n : ℕ) :
    n < crossed w a b ↔ WallsBetween w n a b := by
  have hb := ha.trans hab
  rw [crossed, abs_of_nonneg (sub_nonneg.mpr (cell_mono hw ha hb hab)), cell_eq_floor hw ha,
    cell_eq_floor hw hb]
  constructor
  · intro hn
    -- the first wall after `a`
    refine ⟨⌊a / w⌋ + 1, ?_, ?_⟩
    · rw [mul_comm, ← div_lt_iff₀ hw]
      push_cast
      exact Int.lt_floor_add_one _
    · rw [mul_comm, ← le_div_iff₀ hw]
      exact_mod_cast Int.le_floor.mp (show ⌊a / w⌋ + 1 + (n : ℤ) ≤ ⌊b / w⌋ by omega)
  · rintro ⟨k, hak, hkb⟩
    have hbelow : ⌊a / w⌋ < k := Int.floor_lt.mpr ((div_lt_iff₀ hw).mpr (by rwa [mul_comm]))
    have habove : k + (n : ℤ) ≤ ⌊b / w⌋ := by
      rw [Int.le_floor, le_div_iff₀ hw, mul_comm]
      exact_mod_cast hkb
    omega

/-- **Counting walls**: more than `n` are crossed exactly when `n + 1` lie in between. -/
theorem lt_crossed_iff (hw : 0 < w) (ha : 0 ≤ a) (hb : 0 ≤ b) (n : ℕ) :
    n < crossed w a b ↔ WallsBetween w n a b ∨ WallsBetween w n b a := by
  rcases le_total a b with hab | hba
  · rw [lt_crossed_iff_of_le hw ha hab]
    exact (or_iff_left fun h => (h.lt hw).not_ge hab).symm
  · rw [crossed_comm, lt_crossed_iff_of_le hw hb hba]
    exact (or_iff_right fun h => (h.lt hw).not_ge hba).symm

end CampusNet.Grid
