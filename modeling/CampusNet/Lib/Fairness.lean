import CampusNet.Lib.Runs
import Mathlib.Order.WellFounded

/-!
# Infinite executions under a scheduler

A schedule names the action tried at every moment; an action that is not enabled then leaves the
state as it is.  `trace M sched n` is the state after `n` moments.

* `Recurs` — a kind of moment comes again and again: the shape of every fairness assumption.
* `eventually_of_rank` — the liveness rule.  While the goal is not reached some turn is *helpful*:
  it takes the rank down whenever it comes, and until it comes every other step takes the rank
  down or leaves both the rank and the helpful turn in place.
* `eventually_forever` — a goal that is reached and that every step keeps holds from then on.
* `trace_stable` — from a state in which nothing is enabled the execution stands still.
* `eventually_constant` — a number that no step raises changes for a last time.
-/

namespace CampusNet.Fairness

open Runs

variable {σ α : Type}

/-- The state after `n` moments of the schedule. -/
def trace (M : Machine σ α) (sched : Nat → α) : Nat → σ
  | 0 => M.init
  | n + 1 => (M.step (trace M sched n) (sched n)).getD (trace M sched n)

/-- Moments of a kind come again and again. -/
def Recurs (M : Machine σ α) (sched : Nat → α) (T : σ → α → Prop) : Prop :=
  ∀ n, ∃ m, n ≤ m ∧ T (trace M sched m) (sched m)

variable {M : Machine σ α} {sched : Nat → α}

theorem trace_succ_of_step {n : Nat} {s' : σ} (h : M.step (trace M sched n) (sched n) = some s') :
    trace M sched (n + 1) = s' := by
  rw [trace, h]
  rfl

theorem trace_succ_of_disabled {n : Nat} (h : M.step (trace M sched n) (sched n) = none) :
    trace M sched (n + 1) = trace M sched n := by
  rw [trace, h]
  rfl

theorem trace_reachable (n : Nat) : Reachable M (trace M sched n) := by
  induction n with
  | zero => exact .init
  | succ n ih =>
    cases hstep : M.step (trace M sched n) (sched n) with
    | none =>
      rw [trace_succ_of_disabled hstep]
      exact ih
    | some s' =>
      rw [trace_succ_of_step hstep]
      exact ih.step hstep

/-- Until its turn comes, a helpful turn stays helpful or the goal or a lower rank is reached. -/
theorem until_turn {β : Type} [Preorder β] {rank : σ → β} {G : σ → Prop} {T : σ → α → Prop}
    {H : σ → Prop}
    (hstep : ∀ s a s', Reachable M s → ¬G s → H s → M.step s a = some s' →
      G s' ∨ rank s' < rank s ∨ (rank s' ≤ rank s ∧ ¬T s a ∧ H s'))
    {n : Nat} (hn : ¬G (trace M sched n)) (hhelp : H (trace M sched n)) (k : Nat) :
    (∃ m, n ≤ m ∧ (G (trace M sched m) ∨ rank (trace M sched m) < rank (trace M sched n))) ∨
    (¬G (trace M sched (n + k)) ∧ H (trace M sched (n + k)) ∧
      rank (trace M sched (n + k)) ≤ rank (trace M sched n)) := by
  induction k with
  | zero => exact Or.inr ⟨hn, hhelp, le_refl _⟩
  | succ k ih =>
    rcases ih with hdone | ⟨hgoal, hhelp', hrank⟩
    · exact Or.inl hdone
    · rw [← Nat.add_assoc]
      cases he : M.step (trace M sched (n + k)) (sched (n + k)) with
      | none =>
        rw [trace_succ_of_disabled he]
        exact Or.inr ⟨hgoal, hhelp', hrank⟩
      | some s' =>
        have hs' := trace_succ_of_step he
        rcases hstep _ _ _ (trace_reachable _) hgoal hhelp' he with hg | hlt | ⟨hle, -, hkept⟩
        · exact Or.inl ⟨n + k + 1, by omega, Or.inl (hs' ▸ hg)⟩
        · refine Or.inl ⟨n + k + 1, by omega, Or.inr ?_⟩
          rw [hs']
          exact lt_of_lt_of_le hlt hrank
        · by_cases hg : G s'
          · exact Or.inl ⟨n + k + 1, by omega, Or.inl (hs' ▸ hg)⟩
          · rw [hs']
            exact Or.inr ⟨hg, hkept, hle.trans hrank⟩

/-- **Liveness by a rank**: under a schedule in which the turn of every `p` comes again and again,
the goal is reached after every moment. -/
theorem eventually_of_rank {β π : Type} [Preorder β] [WellFoundedLT β] (rank : σ → β)
    {G : σ → Prop} {T : π → σ → α → Prop} {H : π → σ → Prop}
    (hhelp : ∀ s, Reachable M s → ¬G s → ∃ p, H p s)
    (henabled : ∀ p s a, Reachable M s → ¬G s → H p s → T p s a →
      (M.step s a).isSome)
    (hstep : ∀ p s a s', Reachable M s → ¬G s → H p s → M.step s a = some s' →
      G s' ∨ rank s' < rank s ∨ (rank s' ≤ rank s ∧ ¬T p s a ∧ H p s'))
    (hfair : ∀ p, Recurs M sched (T p)) (n : Nat) :
    ∃ m, n ≤ m ∧ G (trace M sched m) := by
  induction hr : rank (trace M sched n) using WellFoundedLT.induction generalizing n with
  | ind r ih =>
    subst hr
    by_cases hn : G (trace M sched n)
    · exact ⟨n, le_refl _, hn⟩
    obtain ⟨p, hp⟩ := hhelp _ (trace_reachable n) hn
    obtain ⟨m, hm, hturn⟩ := hfair p n
    -- a lower rank at a later moment is enough
    have hlower : ∀ m', n ≤ m' → rank (trace M sched m') < rank (trace M sched n) →
        ∃ m, n ≤ m ∧ G (trace M sched m) := by
      intro m' hm' hlt
      obtain ⟨k, hk, hgoal⟩ := ih _ hlt m' rfl
      exact ⟨k, hm'.trans hk, hgoal⟩
    obtain ⟨k, rfl⟩ := Nat.exists_eq_add_of_le hm
    rcases until_turn (hstep p) hn hp k with ⟨m', hm', hg | hlt⟩ | ⟨hgoal, hhelp', hle⟩
    · exact ⟨m', hm', hg⟩
    · exact hlower m' hm' hlt
    · -- the helpful turn itself
      obtain ⟨s', hs'⟩ := Option.isSome_iff_exists.mp
        (henabled p _ _ (trace_reachable _) hgoal hhelp' hturn)
      have hnext := trace_succ_of_step hs'
      rcases hstep p _ _ _ (trace_reachable _) hgoal hhelp' hs' with hg | hlt | ⟨-, hnot, -⟩
      · exact ⟨n + k + 1, by omega, hnext ▸ hg⟩
      · refine hlower (n + k + 1) (by omega) ?_
        rw [hnext]
        exact lt_of_lt_of_le hlt hle
      · exact absurd hturn hnot

/-- A goal that every step keeps holds forever once it is reached. -/
theorem eventually_forever {G : σ → Prop}
    (hkeep : ∀ s a s', Reachable M s → G s → M.step s a = some s' → G s')
    {n : Nat} (hn : G (trace M sched n)) (m : Nat) (hm : n ≤ m) : G (trace M sched m) := by
  induction m, hm using Nat.le_induction with
  | base => exact hn
  | succ m _ ih =>
    cases hstep : M.step (trace M sched m) (sched m) with
    | none =>
      rw [trace_succ_of_disabled hstep]
      exact ih
    | some s' =>
      rw [trace_succ_of_step hstep]
      exact hkeep _ _ _ (trace_reachable m) ih hstep

/-- Where nothing is enabled the execution stands still. -/
theorem trace_stable {n : Nat} (h : ∀ a, M.step (trace M sched n) a = none) (m : Nat)
    (hm : n ≤ m) : trace M sched m = trace M sched n := by
  induction m, hm using Nat.le_induction with
  | base => rfl
  | succ m _ ih => rw [trace_succ_of_disabled (by rw [ih]; exact h _), ih]

/-- **A last change**: a number that no step raises is constant from some moment on. -/
theorem eventually_constant {I : σ → Prop} (rank : σ → Nat)
    (hkeep : ∀ s a s', Reachable M s → I s → M.step s a = some s' → I s' ∧ rank s' ≤ rank s)
    {n : Nat} (hn : I (trace M sched n)) :
    ∃ m, n ≤ m ∧ ∀ k, m ≤ k → rank (trace M sched k) = rank (trace M sched m) := by
  induction hr : rank (trace M sched n) using Nat.strong_induction_on generalizing n with
  | h r ih =>
    subst hr
    have hfrom : ∀ k, n ≤ k →
        I (trace M sched k) ∧ rank (trace M sched k) ≤ rank (trace M sched n) := by
      refine eventually_forever
        (G := fun s => I s ∧ rank s ≤ rank (trace M sched n)) ?_ ⟨hn, le_refl _⟩
      rintro s a s' hs ⟨hI, hle⟩ hstep
      obtain ⟨hI', hle'⟩ := hkeep s a s' hs hI hstep
      exact ⟨hI', hle'.trans hle⟩
    by_cases hlower : ∃ k, n ≤ k ∧ rank (trace M sched k) < rank (trace M sched n)
    · obtain ⟨k, hk, hlt⟩ := hlower
      obtain ⟨m, hm, hconst⟩ := ih _ hlt (hfrom k hk).1 rfl
      exact ⟨m, hk.trans hm, hconst⟩
    · refine ⟨n, le_refl n, fun k hk => le_antisymm (hfrom k hk).2 ?_⟩
      by_contra hlt
      exact hlower ⟨k, hk, not_le.mp hlt⟩

end CampusNet.Fairness
