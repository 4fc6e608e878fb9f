import Mathlib.Data.List.Nodup
import Mathlib.Data.List.Perm.Basic

/-!
# Folds that touch one key at a time

A table is anything with a lookup; a step on it is given by a key and a value, and changes the entry
of its own key only.

* `Keyed` — such a step, and the function `f` that it applies to its entry.
* `Keyed.foldl_own`, `Keyed.foldl_other` — over a list of distinct keys each entry is changed once.
* `Keyed.foldl_perm` — the order of the list does not matter; `Keyed.foldl_twice` — the list again
  changes nothing, if `f` again changes nothing.
* `Latest` — the value a list gives a key last; `Keyed.foldl_eq_some_iff` — what a fold that
  overwrites entries leaves there.
-/

namespace CampusNet.KeyedFold

variable {M K V R : Type} {get : M → K → Option R} {step : M → K × V → M}
  {f : V → Option R → Option R}

/-- The step changes the entry of its own key by `f`, and no other entry. -/
structure Keyed (get : M → K → Option R) (step : M → K × V → M)
    (f : V → Option R → Option R) : Prop where
  own : ∀ t k v, get (step t (k, v)) k = f v (get t k)
  other : ∀ t k v j, j ≠ k → get (step t (k, v)) j = get t j

theorem Keyed.foldl_other (h : Keyed get step f) {k : K} :
    ∀ {l : List (K × V)} {t : M}, k ∉ l.map Prod.fst → get (l.foldl step t) k = get t k
  | [], _, _ => rfl
  | e :: l, t, hk => by
    simp only [List.map_cons, List.mem_cons, not_or] at hk
    rw [List.foldl_cons, h.foldl_other hk.2]
    exact h.other t e.1 e.2 k hk.1

theorem Keyed.foldl_own (h : Keyed get step f) {k : K} {v : V} :
    ∀ {l : List (K × V)} {t : M}, (l.map Prod.fst).Nodup → (k, v) ∈ l →
      get (l.foldl step t) k = f v (get t k)
  | [], _, _, hmem => by cases hmem
  | e :: l, t, hnd, hmem => by
    rw [List.map_cons, List.nodup_cons] at hnd
    rw [List.foldl_cons]
    rcases List.mem_cons.mp hmem with rfl | hmem
    · rw [h.foldl_other hnd.1]
      exact h.own t k v
    · have hne : k ≠ e.1 := by
        rintro rfl
        exact hnd.1 (List.mem_map.mpr ⟨_, hmem, rfl⟩)
      rw [h.foldl_own hnd.2 hmem, ← h.other t e.1 e.2 k hne]

/-- **Any order** of distinct keys gives the same entries. -/
theorem Keyed.foldl_perm (h : Keyed get step f) {l l' : List (K × V)} (hp : l.Perm l')
    (hnd : (l'.map Prod.fst).Nodup) (t : M) (k : K) :
    get (l.foldl step t) k = get (l'.foldl step t) k := by
  have hnd' : (l.map Prod.fst).Nodup := (hp.map Prod.fst).nodup_iff.mpr hnd
  by_cases hk : k ∈ l'.map Prod.fst
  · obtain ⟨e, he, rfl⟩ := List.mem_map.mp hk
    rw [h.foldl_own hnd he, h.foldl_own hnd' (hp.mem_iff.mpr he)]
  · rw [h.foldl_other hk, h.foldl_other fun hmem => hk ((hp.map Prod.fst).mem_iff.mp hmem)]

/-- **A second time** over the list changes no entry. -/
theorem Keyed.foldl_twice (h : Keyed get step f) (hf : ∀ v o, f v (f v o) = f v o)
    {l : List (K × V)} (hnd : (l.map Prod.fst).Nodup) (t : M) (k : K) :
    get (l.foldl step (l.foldl step t)) k = get (l.foldl step t) k := by
  by_cases hk : k ∈ l.map Prod.fst
  · obtain ⟨e, he, rfl⟩ := List.mem_map.mp hk
    rw [h.foldl_own hnd he, h.foldl_own hnd he, hf]
  · rw [h.foldl_other hk]

/-! ## Overwriting -/

variable {read : M → K → Option V}

/-- The last pair with the key `k` has the value `v`. -/
def Latest (l : List (K × V)) (k : K) (v : V) : Prop :=
  ∃ earlier later, l = earlier ++ (k, v) :: later ∧ k ∉ later.map Prod.fst

theorem exists_latest {k : K} : ∀ {l : List (K × V)}, k ∈ l.map Prod.fst → ∃ v, Latest l k v
  | [], hk => by simp at hk
  | e :: l, hk => by
    by_cases hlater : k ∈ l.map Prod.fst
    · obtain ⟨v, earlier, later, rfl, hlast⟩ := exists_latest hlater
      exact ⟨v, e :: earlier, later, rfl, hlast⟩
    · have he : k = e.1 := by simpa [hlater] using hk
      exact ⟨e.2, [], l, by simp [he], hlater⟩

theorem Latest.mem {l : List (K × V)} {k : K} {v : V} (h : Latest l k v) :
    k ∈ l.map Prod.fst := by
  obtain ⟨earlier, later, rfl, -⟩ := h
  simp

theorem Keyed.foldl_latest (h : Keyed read step fun v _ => some v) {l : List (K × V)} {k : K}
    {v : V} (hl : Latest l k v) (t : M) : read (l.foldl step t) k = some v := by
  obtain ⟨earlier, later, rfl, hlast⟩ := hl
  rw [List.foldl_append, List.foldl_cons, h.foldl_other hlast]
  exact h.own _ k v

/-- **Last write wins**: from a table without the key, a fold that overwrites leaves the latest
value. -/
theorem Keyed.foldl_eq_some_iff (h : Keyed read step fun v _ => some v) {l : List (K × V)} {t : M}
    {k : K} (hnew : read t k = none) (v : V) : read (l.foldl step t) k = some v ↔ Latest l k v := by
  constructor
  · intro hget
    by_cases hk : k ∈ l.map Prod.fst
    · obtain ⟨v', hlast⟩ := exists_latest hk
      rw [h.foldl_latest hlast] at hget
      cases hget
      exact hlast
    · rw [h.foldl_other hk, hnew] at hget
      cases hget
  · intro hlast
    exact h.foldl_latest hlast t

/-- The table still lacks exactly the keys that the list does not give. -/
theorem Keyed.foldl_eq_none_iff (h : Keyed read step fun v _ => some v) {l : List (K × V)} {t : M}
    {k : K} (hnew : read t k = none) : read (l.foldl step t) k = none ↔ k ∉ l.map Prod.fst := by
  constructor
  · intro hnone hk
    obtain ⟨v, hlast⟩ := exists_latest hk
    rw [h.foldl_latest hlast] at hnone
    cases hnone
  · intro hk
    rw [h.foldl_other hk, hnew]

end CampusNet.KeyedFold
