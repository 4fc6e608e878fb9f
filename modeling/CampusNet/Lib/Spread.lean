import Mathlib.Data.Matrix.Mul
import Mathlib.Algebra.Order.Ring.Defs
import Mathlib.Tactic.Linarith
import Mathlib.Tactic.Ring

/-!
# Code division

Senders share a channel: each multiplies its symbol by a code of chips and the products add up. The
receiver of a sender correlates what arrives with the sender's code.

* `Codes` — orthogonal codes of the same energy.
* `correlate_superpose` — the other senders cancel out; what is left of the noise is its
  correlation with the code.
* `sign_correlate_iff` — the sign of the correlation is the symbol exactly as long as the noise
  stays within the energy.
-/

namespace CampusNet.Spread

variable {U C R : Type} [Fintype U] [DecidableEq U] [Fintype C]

/-- The codes of the senders. -/
structure Codes (U C R : Type) [DecidableEq U] [Fintype C] [CommRing R] where
  code : U → C → R
  energy : R
  orthogonal : ∀ u v, code u ⬝ᵥ code v = if u = v then energy else 0

/-- What the senders put on the channel together. -/
def Codes.superpose [CommRing R] (K : Codes U C R) (symbol : U → R) : C → R :=
  ∑ u, symbol u • K.code u

/-- **Correlation** with a code leaves the symbol of its sender, and some of the noise. -/
theorem Codes.correlate_superpose [CommRing R] (K : Codes U C R) (symbol : U → R) (noise : C → R)
    (u : U) : (K.superpose symbol + noise) ⬝ᵥ K.code u =
      symbol u * K.energy + noise ⬝ᵥ K.code u := by
  rw [add_dotProduct, Codes.superpose, sum_dotProduct]
  have hother : ∀ v, (symbol v • K.code v) ⬝ᵥ K.code u =
      if v = u then symbol u * K.energy else 0 := by
    intro v
    rw [smul_dotProduct, K.orthogonal, smul_eq_mul]
    split
    · rename_i hv
      rw [hv]
    · exact mul_zero _
  simp only [hother, Finset.sum_ite_eq', Finset.mem_univ, if_true]

variable [CommRing R] [LinearOrder R] [IsStrictOrderedRing R]

/-- Noise that does not hide the symbol. -/
def Codes.Tolerates (K : Codes U C R) (u : U) (symbol : R) (noise : C → R) : Prop :=
  if symbol = 1 then -K.energy < noise ⬝ᵥ K.code u else noise ⬝ᵥ K.code u ≤ K.energy

/-- **The sign is the symbol** exactly as long as the noise stays within the energy. -/
theorem Codes.sign_correlate_iff (K : Codes U C R) {symbol : U → R} {u : U}
    (hsymbol : symbol u = 1 ∨ symbol u = -1) (noise : C → R) :
    (0 < (K.superpose symbol + noise) ⬝ᵥ K.code u ↔ symbol u = 1) ↔
      K.Tolerates u (symbol u) noise := by
  have hne : (-1 : R) ≠ 1 := by
    intro h
    linarith [zero_lt_one (α := R)]
  rw [K.correlate_superpose, Codes.Tolerates]
  rcases hsymbol with h | h
  · rw [h, if_pos rfl, one_mul, iff_true_right rfl]
    constructor
    · intro hpos
      linarith
    · intro hnoise
      linarith
  · rw [h, if_neg hne, iff_false_right hne, not_lt]
    constructor
    · intro hneg
      linarith
    · intro hnoise
      linarith

end CampusNet.Spread
