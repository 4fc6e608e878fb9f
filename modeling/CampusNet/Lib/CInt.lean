import Mathlib.Algebra.Order.Ring.Int

/-!
# Signed 32-bit `int`

Values of C++ `int` are integers; an arithmetic result is *checked*: `checkedInt x` is `none`
when `x` does not fit, because signed overflow has no defined behaviour.  Functions that can
overflow return `Option`.
-/

namespace CampusNet

def INT_MAX : Int := 2147483647
def INT_MIN : Int := -2147483648

/-- The value fits an `int`. -/
def FitsInt (x : Int) : Prop := INT_MIN ≤ x ∧ x ≤ INT_MAX

instance (x : Int) : Decidable (FitsInt x) := inferInstanceAs (Decidable (_ ∧ _))

/-- The result of a signed operation with exact value `x`; `none` is overflow. -/
def checkedInt (x : Int) : Option Int := if FitsInt x then some x else none

theorem checkedInt_of_fits {x : Int} (h : FitsInt x) : checkedInt x = some x := if_pos h

/-- The nearest `int`. -/
def clampInt (x : Int) : Int := max INT_MIN (min INT_MAX x)

theorem clampInt_of_fits {x : Int} (h : FitsInt x) : clampInt x = x := by
  unfold FitsInt INT_MIN INT_MAX at h
  unfold clampInt INT_MIN INT_MAX; omega

theorem clampInt_fits (x : Int) : FitsInt (clampInt x) := by
  unfold FitsInt clampInt INT_MIN INT_MAX
  omega

end CampusNet
