import Mathlib.Data.List.Basic

/-!
# Runs of a partial step function

Generic machinery for the concurrent and long-running programs of the development.  A
`Machine` has one initial state and a partial step function: `step s a = some s'` when action
`a` is enabled in `s` and leads to `s'`.

* `Reachable` — the states of all runs; `Reachable.induct` is the invariant rule.
* `Run` — a run with its history (newest step first): the pairs of a state and the action taken
  in it, and the state reached at the end.
* `Run.always` — an invariant that every step keeps under a side condition holds in every state
  of a run whose steps all meet the condition.
* `Run.always_iff` — when a step keeps a property *exactly* under the condition, a run has the
  property throughout if and only if all its steps meet the condition.
* `Run.throughout_iff` — the same for a condition on the whole history.
* `EveryMoment`, `Run.everyMoment_iff` — the same for a property of the state and its history.
* `Run.map` — a step-by-step simulation carries runs over, with their histories.
* `exec`, `replay` — replay of a list of actions, for concrete runs; the second with the history.
-/

namespace CampusNet.Runs

/-- An initial state and a partial step function. -/
structure Machine (σ α : Type) where
  init : σ
  step : σ → α → Option σ

variable {σ α : Type} {M : Machine σ α}

/-- States reached by some run. -/
inductive Reachable (M : Machine σ α) : σ → Prop
  | init : Reachable M M.init
  | step {s s' : σ} {a : α} : Reachable M s → M.step s a = some s' → Reachable M s'

/-- A run: its history, newest step first, and its last state. -/
inductive Run (M : Machine σ α) : List (σ × α) → σ → Prop
  | nil : Run M [] M.init
  | snoc {h : List (σ × α)} {s s' : σ} {a : α} :
      Run M h s → M.step s a = some s' → Run M ((s, a) :: h) s'

/-- A property of every state of a run: those stepped from, and the last one. -/
def Throughout (P : σ → Prop) (h : List (σ × α)) (s : σ) : Prop := (∀ p ∈ h, P p.1) ∧ P s

/-- **Invariant rule.** -/
theorem Reachable.induct {I : σ → Prop} (h0 : I M.init)
    (hstep : ∀ s a s', I s → M.step s a = some s' → I s') {s : σ} (h : Reachable M s) : I s := by
  induction h with
  | init => exact h0
  | step _ hs ih => exact hstep _ _ _ ih hs

theorem Run.reachable {h : List (σ × α)} {s : σ} (hr : Run M h s) : Reachable M s := by
  induction hr with
  | nil => exact .init
  | snoc _ hs ih => exact ih.step hs

theorem throughout_nil {P : σ → Prop} {s : σ} : Throughout P ([] : List (σ × α)) s ↔ P s := by
  simp [Throughout]

theorem throughout_cons {P : σ → Prop} {h : List (σ × α)} {s s' : σ} {a : α} :
    Throughout P ((s, a) :: h) s' ↔ Throughout P h s ∧ P s' := by
  simp only [Throughout, List.forall_mem_cons]
  constructor
  · rintro ⟨⟨hs, hh⟩, hs'⟩; exact ⟨⟨hh, hs⟩, hs'⟩
  · rintro ⟨⟨hh, hs⟩, hs'⟩; exact ⟨⟨hs, hh⟩, hs'⟩

/-- What holds throughout a run holds where it starts. -/
theorem Run.init_of_throughout {P : σ → Prop} {h : List (σ × α)} {s : σ} (hr : Run M h s)
    (hall : Throughout P h s) : P M.init := by
  induction hr with
  | nil => exact throughout_nil.mp hall
  | snoc _ _ ih => exact ih (throughout_cons.mp hall).1

/-- **Conditional invariant**: `I` holds throughout every run whose steps all meet `ok`. -/
theorem Run.always {I : σ → Prop} {ok : σ → α → Prop} (h0 : I M.init)
    (hstep : ∀ s a s', I s → ok s a → M.step s a = some s' → I s') {h : List (σ × α)} {s : σ}
    (hr : Run M h s) (hok : ∀ p ∈ h, ok p.1 p.2) : Throughout I h s := by
  induction hr with
  | nil => exact throughout_nil.mpr h0
  | snoc _ hs ih =>
    rw [List.forall_mem_cons] at hok
    have hprev := ih hok.2
    exact throughout_cons.mpr ⟨hprev, hstep _ _ _ hprev.2 hok.1 hs⟩

/-- **Exact condition over runs**: if from a reachable state with `P` a step reaches `P` exactly
when it meets `ok`, then `P` holds throughout a run exactly when all its steps meet `ok`. -/
theorem Run.always_iff {P : σ → Prop} {ok : σ → α → Prop} (h0 : P M.init)
    (hstep : ∀ s a s', Reachable M s → P s → M.step s a = some s' → (P s' ↔ ok s a))
    {h : List (σ × α)} {s : σ} (hr : Run M h s) :
    Throughout P h s ↔ ∀ p ∈ h, ok p.1 p.2 := by
  induction hr with
  | nil => simp [throughout_nil, h0]
  | snoc hr' hs ih =>
    rw [throughout_cons, List.forall_mem_cons, ih]
    constructor
    · rintro ⟨hok, hlast⟩
      exact ⟨(hstep _ _ _ hr'.reachable (ih.mpr hok).2 hs).mp hlast, hok⟩
    · rintro ⟨hlast, hok⟩
      exact ⟨hok, (hstep _ _ _ hr'.reachable (ih.mpr hok).2 hs).mpr hlast⟩

/-- **Exact condition on histories**: if `C` holds of a longer history exactly when it holds of
the shorter one and the new state has `P`, then `P` holds throughout a run exactly when `C` holds
of its history. -/
theorem Run.throughout_iff {P : σ → Prop} {C : List (σ × α) → σ → Prop}
    (h0 : C [] M.init ↔ P M.init)
    (hstep : ∀ h s a s', Run M h s → M.step s a = some s' → (C ((s, a) :: h) s' ↔ C h s ∧ P s'))
    {h : List (σ × α)} {s : σ} (hr : Run M h s) : Throughout P h s ↔ C h s := by
  induction hr with
  | nil => rw [throughout_nil, h0]
  | snoc hr' hs ih => rw [throughout_cons, ih, hstep _ _ _ _ hr' hs]

/-- The same for a condition that each state's property is equivalent to, and that a longer history
hands down to the shorter one. -/
theorem Run.throughout_iff_last {P : σ → Prop} {C : List (σ × α) → σ → Prop}
    (hlast : ∀ h s, Run M h s → (P s ↔ C h s))
    (hdown : ∀ h s a s', Run M h s → M.step s a = some s' → C ((s, a) :: h) s' → C h s)
    {h : List (σ × α)} {s : σ} (hr : Run M h s) : Throughout P h s ↔ C h s := by
  refine hr.throughout_iff (hlast _ _ .nil).symm fun h s a s' hr hs => ?_
  rw [hlast _ _ (hr.snoc hs)]
  exact ⟨fun hC => ⟨hdown h s a s' hr hs hC, hC⟩, And.right⟩

/-- A property of the state and the history up to it, at every moment of a run. -/
def EveryMoment (Q : List (σ × α) → σ → Prop) : List (σ × α) → σ → Prop
  | [], s => Q [] s
  | (t, a) :: h, s => EveryMoment Q h t ∧ Q ((t, a) :: h) s

theorem EveryMoment.last {Q : List (σ × α) → σ → Prop} {h : List (σ × α)} {s : σ}
    (hall : EveryMoment Q h s) : Q h s := by
  cases h with
  | nil => exact hall
  | cons p h => exact hall.2

/-- **Exact condition with history**: if after a moment with `Q` a step reaches `Q` exactly when it
meets `ok`, then `Q` holds at every moment of a run exactly when all its steps meet `ok`. -/
theorem Run.everyMoment_iff {Q : List (σ × α) → σ → Prop} {ok : σ → α → Prop} (h0 : Q [] M.init)
    (hstep : ∀ h s a s', Run M h s → Q h s → M.step s a = some s' →
      (Q ((s, a) :: h) s' ↔ ok s a))
    {h : List (σ × α)} {s : σ} (hr : Run M h s) :
    EveryMoment Q h s ↔ ∀ p ∈ h, ok p.1 p.2 := by
  induction hr with
  | nil => simp [EveryMoment, h0]
  | @snoc h s s' a hr' hs ih =>
    rw [List.forall_mem_cons]
    constructor
    · rintro ⟨hall, hlast⟩
      exact ⟨(hstep h s a s' hr' hall.last hs).mp hlast, ih.mp hall⟩
    · rintro ⟨hok, hall⟩
      have hall' := ih.mpr hall
      exact ⟨hall', (hstep h s a s' hr' hall'.last hs).mpr hok⟩

/-- **Simulation**: when every step is a step of `N` between the states `f` makes of its ends, every
run is a run of `N`. -/
theorem Run.map {τ β : Type} {N : Machine τ β} {f : σ → τ} {g : α → β}
    (h0 : f M.init = N.init)
    (hstep : ∀ s a s', Reachable M s → M.step s a = some s' →
      N.step (f s) (g a) = some (f s'))
    {h : List (σ × α)} {s : σ} (hr : Run M h s) :
    Run N (h.map fun p => (f p.1, g p.2)) (f s) := by
  induction hr with
  | nil =>
    rw [h0]
    exact .nil
  | snoc hr' hs ih => exact ih.snoc (hstep _ _ _ hr'.reachable hs)

/-- Replay a list of actions from a state. -/
def execFrom (M : Machine σ α) : σ → List α → Option σ
  | s, [] => some s
  | s, a :: as => (M.step s a).bind fun s' => execFrom M s' as

/-- Replay from the initial state. -/
def exec (M : Machine σ α) (as : List α) : Option σ := execFrom M M.init as

theorem Reachable.execFrom {s : σ} (hs : Reachable M s) :
    ∀ {as : List α} {s' : σ}, Runs.execFrom M s as = some s' → Reachable M s' := by
  intro as
  induction as generalizing s with
  | nil => intro s' h; cases h; exact hs
  | cons a as ih =>
    intro s' h
    obtain ⟨t, ht, hrest⟩ := Option.bind_eq_some_iff.mp h
    exact ih (hs.step ht) hrest

/-- A successful replay ends in a reachable state. -/
theorem exec_reachable (as : List α) {s : σ} (h : exec M as = some s) : Reachable M s :=
  Reachable.init.execFrom h

/-- Replay from a state and the history before it. -/
def replayFrom (M : Machine σ α) : List (σ × α) → σ → List α → Option (List (σ × α) × σ)
  | h, s, [] => some (h, s)
  | h, s, a :: as => (M.step s a).bind fun s' => replayFrom M ((s, a) :: h) s' as

/-- Replay from the initial state, with the history. -/
def replay (M : Machine σ α) (as : List α) : Option (List (σ × α) × σ) := replayFrom M [] M.init as

theorem execFrom_eq (as : List α) : ∀ (h : List (σ × α)) (s : σ),
    execFrom M s as = (replayFrom M h s as).map Prod.snd := by
  induction as with
  | nil => intro h s; rfl
  | cons a as ih =>
    intro h s
    rw [execFrom, replayFrom, Option.map_bind]
    exact Option.bind_congr fun s' _ => ih _ s'

theorem Run.replayFrom {h h' : List (σ × α)} {s s' : σ} (hr : Run M h s) {as : List α}
    (he : Runs.replayFrom M h s as = some (h', s')) :
    Run M h' s' ∧ h'.map Prod.snd = as.reverse ++ h.map Prod.snd := by
  induction as generalizing h s with
  | nil => cases he; exact ⟨hr, rfl⟩
  | cons a as ih =>
    obtain ⟨t, ht, hrest⟩ := Option.bind_eq_some_iff.mp he
    obtain ⟨hr', hmap⟩ := ih (hr.snoc ht) hrest
    exact ⟨hr', by rw [hmap, List.reverse_cons]; simp⟩

/-- A test that holds of the history and the state a replay ends with holds of a run with the
replayed actions. -/
theorem exists_run_of_replay (as : List α) {p : List (σ × α) × σ → Bool}
    (h : (replay M as).any p = true) :
    ∃ h s, Run M h s ∧ h.map Prod.snd = as.reverse ∧ p (h, s) = true := by
  cases he : replay M as with
  | none => rw [he] at h; cases h
  | some r =>
    rw [he] at h
    obtain ⟨hr, hmap⟩ := Run.nil.replayFrom he
    exact ⟨r.1, r.2, hr, by simpa using hmap, h⟩

/-- A test that holds of the state a replay ends in holds at the end of a run with the replayed
actions. -/
theorem exists_run_of_exec (as : List α) {p : σ → Bool} (h : (exec M as).any p = true) :
    ∃ h s, Run M h s ∧ h.map Prod.snd = as.reverse ∧ p s = true := by
  refine exists_run_of_replay as (p := fun r => p r.2) ?_
  rw [exec, execFrom_eq as [], Option.any_map] at h
  exact h

/-- A test that holds of the state a replay ends in holds of some reachable state. -/
theorem exists_reachable_of_exec (as : List α) {p : σ → Bool} (h : (exec M as).any p = true) :
    ∃ s, Reachable M s ∧ p s = true := by
  cases he : exec M as with
  | none => rw [he] at h; cases h
  | some s => rw [he] at h; exact ⟨s, exec_reachable as he, h⟩

end CampusNet.Runs
