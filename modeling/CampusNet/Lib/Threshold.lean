import Mathlib.Algebra.BigOperators.Field
import Mathlib.Algebra.Order.BigOperators.Group.Finset
import Mathlib.Data.List.MinMax
import Mathlib.Tactic.Linarith
import Mathlib.Tactic.Ring
import Mathlib.Tactic.FieldSimp
import Mathlib.Algebra.Order.Field.Basic

/-!
# Nearest words over two levels

Words over finitely many channels, each at one of two levels `lo < hi`, and the received words,
with any values.

* `nearest` — each channel at the level it is nearer to.
* `distSq_nearest_lt` — that word is strictly nearer than every other one over the two levels.
* `distSq_const_lt_iff` — the words of one level only are told apart by the sum of the channels.
* `nearest_of_close` — less than half the distance of the levels of noise is harmless.
* `abs_mean_sub_le` — a mean whose terms are mostly right is off by less than half of the worst
  error, with room for half of one term's share.
* `argmin_eq_some_of_lt` — a first-wins search finds the strict minimum.
-/

namespace CampusNet.Threshold

variable {ι K : Type} [Field K] [LinearOrder K]

/-- Each channel at the level it is nearer to, the lower one if it is in the middle. -/
def nearest (lo hi : K) (x : ι → K) : ι → K := fun i => if lo + hi < 2 * x i then hi else lo

/-- No channel is in the middle. -/
def Clear (lo hi : K) (x : ι → K) : Prop := ∀ i, 2 * x i ≠ lo + hi

variable [IsStrictOrderedRing K] {lo hi : K} {x q : ι → K}

theorem sq_sub_sq_sub {R : Type} [CommRing R] (lo hi y : R) :
    (y - lo) ^ 2 - (y - hi) ^ 2 = (hi - lo) * (2 * y - (lo + hi)) := by ring

theorem sq_sub_hi_lt (h : lo < hi) {y : K} (hy : lo + hi < 2 * y) :
    (y - hi) ^ 2 < (y - lo) ^ 2 := by
  rw [← sub_pos, sq_sub_sq_sub]
  exact mul_pos (sub_pos.mpr h) (sub_pos.mpr hy)

theorem sq_sub_lo_lt (h : lo < hi) {y : K} (hy : 2 * y < lo + hi) :
    (y - lo) ^ 2 < (y - hi) ^ 2 := by
  rw [← sub_neg, sq_sub_sq_sub]
  exact mul_neg_of_pos_of_neg (sub_pos.mpr h) (sub_neg.mpr hy)

/-- In a channel whose level is not the nearer one, the nearer one is strictly nearer. -/
theorem sq_sub_nearest_lt (h : lo < hi) (hx : Clear lo hi x) {i : ι} (hq : q i = lo ∨ q i = hi)
    (hne : q i ≠ nearest lo hi x i) : (x i - nearest lo hi x i) ^ 2 < (x i - q i) ^ 2 := by
  unfold nearest at hne ⊢
  by_cases hup : lo + hi < 2 * x i
  · rw [if_pos hup] at hne ⊢
    rw [hq.resolve_right hne]
    exact sq_sub_hi_lt h hup
  · rw [if_neg hup] at hne ⊢
    rw [hq.resolve_left hne]
    exact sq_sub_lo_lt h (lt_of_le_of_ne (not_lt.mp hup) (hx i))

/-- **Noise** below half the distance of the levels leaves each channel nearer to its own. -/
theorem nearest_of_close (hq : ∀ i, q i = lo ∨ q i = hi)
    (hclose : ∀ i, |x i - q i| < (hi - lo) / 2) : Clear lo hi x ∧ nearest lo hi x = q := by
  have hside : ∀ i, (q i = lo ∧ 2 * x i < lo + hi) ∨ (q i = hi ∧ lo + hi < 2 * x i) := by
    intro i
    obtain ⟨hlower, hupper⟩ := abs_lt.mp (hclose i)
    rcases hq i with hlo | hhi
    · rw [hlo] at hupper
      exact Or.inl ⟨hlo, by linarith⟩
    · rw [hhi] at hlower
      exact Or.inr ⟨hhi, by linarith⟩
  constructor
  · intro i
    rcases hside i with ⟨-, hbelow⟩ | ⟨-, habove⟩
    · exact hbelow.ne
    · exact habove.ne'
  · funext i
    rcases hside i with ⟨hlo, hbelow⟩ | ⟨hhi, habove⟩
    · rw [nearest, if_neg hbelow.not_gt, hlo]
    · rw [nearest, if_pos habove, hhi]

/-! ## Means -/

def mean (l : List K) : K := l.sum / l.length

theorem abs_sum_sub_le {q D : K} {l : List K} (h : ∀ x ∈ l, |x - q| ≤ D) :
    |l.sum - l.length * q| ≤ D * (l.countP fun x => x ≠ q) := by
  induction l with
  | nil => simp
  | cons x l ih =>
    obtain ⟨hx, hl⟩ := List.forall_mem_cons.mp h
    have hrest := ih hl
    have hsplit : (x :: l).sum - ((x :: l).length : K) * q = (x - q) + (l.sum - l.length * q) := by
      rw [List.sum_cons, List.length_cons]
      push_cast
      ring
    rw [hsplit, List.countP_cons]
    refine (abs_add_le _ _).trans ?_
    by_cases hxq : x = q
    · simp only [hxq, sub_self, abs_zero, ne_eq, not_true, decide_false, Bool.false_eq_true,
        if_false, Nat.add_zero, zero_add]
      exact hrest
    · simp only [ne_eq, hxq, not_false_iff, decide_true, if_true]
      push_cast
      have hadd : D * ((l.countP fun x => x ≠ q : Nat) + 1 : K) =
          D + D * (l.countP fun x => x ≠ q : Nat) := by ring
      rw [hadd]
      exact add_le_add hx hrest

/-- **A mean with outliers**: fewer than half of the terms are wrong, and by at most `D`. -/
theorem abs_mean_sub_le {q D : K} (hD : 0 ≤ D) {l : List K} (h : ∀ x ∈ l, |x - q| ≤ D)
    (hgood : 2 * (l.countP fun x => x ≠ q) < l.length) :
    |mean l - q| ≤ D / 2 - D / (2 * l.length) := by
  have hlength : (0 : K) < l.length := by exact_mod_cast (by omega : 0 < l.length)
  have hhalf : (2 : K) * (l.countP fun x => x ≠ q : Nat) + 1 ≤ l.length := by exact_mod_cast hgood
  have hmean : mean l - q = (l.sum - l.length * q) / l.length := by
    unfold mean
    field_simp
  have hroom : (D / 2 - D / (2 * l.length)) * l.length = D * (l.length - 1) / 2 := by
    field_simp
  rw [hmean, abs_div, abs_of_pos hlength, div_le_iff₀ hlength, hroom]
  refine (abs_sum_sub_le h).trans ?_
  have := mul_le_mul_of_nonneg_left hhalf hD
  linarith

/-! ## Distances -/

variable [Fintype ι]

/-- The square of the Euclidean distance. -/
def distSq (x q : ι → K) : K := ∑ i, (x i - q i) ^ 2

/-- **Separable decoding**: the word of the nearer levels is the only nearest one. -/
theorem distSq_nearest_lt (h : lo < hi) (hx : Clear lo hi x) (hq : ∀ i, q i = lo ∨ q i = hi)
    (hne : q ≠ nearest lo hi x) : distSq x (nearest lo hi x) < distSq x q := by
  refine Finset.sum_lt_sum (fun i _ => ?_) ?_
  · by_cases hi' : q i = nearest lo hi x i
    · rw [hi']
    · exact (sq_sub_nearest_lt h hx (hq i) hi').le
  · obtain ⟨i, hi'⟩ := Function.ne_iff.mp hne
    exact ⟨i, Finset.mem_univ i, sq_sub_nearest_lt h hx (hq i) hi'⟩

/-- **Two words**: all channels high is nearer than all low exactly when the sum is in the upper
half. -/
theorem distSq_const_lt_iff (h : lo < hi) (x : ι → K) :
    distSq x (fun _ => hi) < distSq x (fun _ => lo) ↔
      Fintype.card ι * (lo + hi) < 2 * ∑ i, x i := by
  have hdiff : distSq x (fun _ => lo) - distSq x (fun _ => hi) =
      (hi - lo) * (2 * ∑ i, x i - Fintype.card ι * (lo + hi)) := by
    calc distSq x (fun _ => lo) - distSq x (fun _ => hi)
        = ∑ i, (hi - lo) * (2 * x i - (lo + hi)) := by
          rw [distSq, distSq, ← Finset.sum_sub_distrib]
          exact Finset.sum_congr rfl fun i _ => sq_sub_sq_sub lo hi (x i)
      _ = _ := by
          rw [← Finset.mul_sum, Finset.sum_sub_distrib, ← Finset.mul_sum, Finset.sum_const,
            Finset.card_univ, nsmul_eq_mul]
  rw [← sub_pos, hdiff, mul_pos_iff_of_pos_left (sub_pos.mpr h), sub_pos]

/-! ## The search -/

theorem argmin_eq_some_of_lt {α R : Type} [LinearOrder R] [DecidableEq α] {f : α → R} {l : List α}
    {m : α} (hm : m ∈ l) (hlt : ∀ a ∈ l, a ≠ m → f m < f a) : l.argmin f = some m := by
  refine List.mem_argmin_iff.mpr ⟨hm, fun a ha => ?_, fun a ha hle => ?_⟩
  · by_cases he : a = m
    · rw [he]
    · exact (hlt a ha he).le
  · by_cases he : a = m
    · rw [he]
    · exact absurd (hlt a ha he) hle.not_gt

end CampusNet.Threshold
