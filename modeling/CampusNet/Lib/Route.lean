import Mathlib.Algebra.Order.Monoid.Defs
import Mathlib.Order.Bounds.Defs

/-!
# Routes

A cost between any two points, which need not obey the triangle inequality, and the routes that
avoid paying the direct one.

* `total` — what a route costs, leg by leg.
* `le_total` — a lower bound that does obey the triangle inequality bounds every route.
* `isLeast_total` — such a bound is the cheapest cost as soon as some route attains it.
-/

namespace CampusNet.Route

variable {V R : Type} [AddCommMonoid R]

/-- The cost of the way from the first point over all the others. -/
def total (cost : V → V → R) : V → List V → R
  | _, [] => 0
  | p, m :: ms => cost p m + total cost m ms

/-- What the routes between two points cost, over stops of a kind. -/
def totals (cost : V → V → R) (stop : V → Prop) (p q : V) : Set R :=
  {r | ∃ ms, (∀ m ∈ ms, stop m) ∧ total cost p (ms ++ [q]) = r}

variable [PartialOrder R] [IsOrderedAddMonoid R] {cost bound : V → V → R}

/-- **No route is cheaper** than a bound of the legs with a triangle inequality. -/
theorem le_total (hleg : ∀ p q, bound p q ≤ cost p q)
    (htriangle : ∀ p m q, bound p q ≤ bound p m + bound m q) (ms : List V) (p q : V) :
    bound p q ≤ total cost p (ms ++ [q]) := by
  induction ms generalizing p with
  | nil =>
    show bound p q ≤ cost p q + 0
    rw [add_zero]
    exact hleg p q
  | cons m ms ih => exact (htriangle p m q).trans (add_le_add (hleg p m) (ih m))

/-- **The cheapest route** costs what the bound says, if one of them does. -/
theorem isLeast_total (hleg : ∀ p q, bound p q ≤ cost p q)
    (htriangle : ∀ p m q, bound p q ≤ bound p m + bound m q) {stop : V → Prop} {p q : V}
    (hattained : bound p q ∈ totals cost stop p q) :
    IsLeast (totals cost stop p q) (bound p q) := by
  refine ⟨hattained, ?_⟩
  rintro r ⟨ms, -, rfl⟩
  exact le_total hleg htriangle ms p q

end CampusNet.Route
