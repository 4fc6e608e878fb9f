import Mathlib.Order.Basic

/-!
# Loops with an exit

A `while` or `for` loop as the iteration of its body: `yield` goes round again, `done` leaves the
loop (the guard is false, or a `break`), `none` is an error of the body.  Fuel bounds the number
of rounds; running out of it is `none` too, so that a returned value is a value of the loop.

`loop_total` is the rule of total correctness: an invariant, and a measure that every round
decreases.
-/

namespace CampusNet.Loop

variable {σ : Type}

def loop (body : σ → Option (ForInStep σ)) : Nat → σ → Option σ
  | 0, _ => none
  | fuel + 1, s =>
    match body s with
    | none => none
    | some (.done s') => some s'
    | some (.yield s') => loop body fuel s'

/-- **Total correctness**: the loop returns, and returns a state in `Q`. -/
theorem loop_total {body : σ → Option (ForInStep σ)} {I Q : σ → Prop} (m : σ → Nat)
    (hbody : ∀ s, I s → (∃ s', body s = some (.done s') ∧ Q s') ∨
      ∃ s', body s = some (.yield s') ∧ I s' ∧ m s' < m s) :
    ∀ {fuel : Nat} {s : σ}, I s → m s < fuel → ∃ s', loop body fuel s = some s' ∧ Q s'
  | 0, _, _, hm => absurd hm (Nat.not_lt_zero _)
  | fuel + 1, s, hI, hm => by
    rcases hbody s hI with ⟨s', he, hQ⟩ | ⟨s', he, hI', hlt⟩
    · exact ⟨s', by rw [loop, he], hQ⟩
    · obtain ⟨t, ht, hQ⟩ := loop_total m hbody hI' (show m s' < fuel by omega)
      exact ⟨t, by rw [loop, he]; exact ht, hQ⟩

end CampusNet.Loop
