import Mathlib.Data.List.Basic
import Mathlib.Order.Basic

/-!
# Messages in flight

Addressed messages wait in one list; a step may take or drop the message at any position, so
nothing is assumed about order.  `mailOf k` is the list of messages that carry address `k`.

* `mailOf_append` — a new message appears in the mail of its own address only.
* `mailOf_eraseIdx_ne` — taking a message of another address leaves the mail of `k` alone.
* `mailOf_eraseIdx_self` — taking a message of `k` takes one message out of the mail of `k`.
* `mailOf_sublist` — taking or dropping anything never adds to the mail of `k`.
-/

namespace CampusNet.Mail

variable {κ μ : Type} [DecidableEq κ]

def mailOf (k : κ) (l : List (κ × μ)) : List μ :=
  l.filterMap fun m => if m.1 = k then some m.2 else none

theorem mailOf_cons (k : κ) (m : κ × μ) (l : List (κ × μ)) :
    mailOf k (m :: l) = if m.1 = k then m.2 :: mailOf k l else mailOf k l := by
  unfold mailOf
  rw [List.filterMap_cons]
  by_cases h : m.1 = k <;> simp [h]

theorem mailOf_append (k j : κ) (d : μ) (l : List (κ × μ)) :
    mailOf k (l ++ [(j, d)]) = if j = k then mailOf k l ++ [d] else mailOf k l := by
  by_cases h : j = k <;> simp [mailOf, h]

theorem mem_mailOf {k : κ} {d : μ} {l : List (κ × μ)} : d ∈ mailOf k l ↔ (k, d) ∈ l := by
  simp only [mailOf, List.mem_filterMap]
  constructor
  · rintro ⟨⟨j, e⟩, hm, he⟩
    split at he
    · rename_i hj; cases hj; cases he; exact hm
    · cases he
  · intro hm
    exact ⟨(k, d), hm, by simp⟩

theorem mailOf_sublist (k : κ) {l l' : List (κ × μ)} (h : l'.Sublist l) :
    (mailOf k l').Sublist (mailOf k l) := h.filterMap _

theorem mailOf_eraseIdx_sublist (k : κ) (l : List (κ × μ)) (i : Nat) :
    (mailOf k (l.eraseIdx i)).Sublist (mailOf k l) :=
  mailOf_sublist k (List.eraseIdx_sublist l i)

theorem mailOf_eraseIdx_ne {k j : κ} {d : μ} : ∀ {l : List (κ × μ)} {i : Nat},
    l[i]? = some (j, d) → j ≠ k → mailOf k (l.eraseIdx i) = mailOf k l
  | [], _, h, _ => by simp at h
  | m :: l, 0, h, hj => by
    simp only [List.getElem?_cons_zero, Option.some.injEq] at h
    subst h
    simp [mailOf_cons, hj]
  | m :: l, i + 1, h, hj => by
    rw [List.getElem?_cons_succ] at h
    simp only [List.eraseIdx_cons_succ, mailOf_cons, mailOf_eraseIdx_ne h hj]

theorem mailOf_eraseIdx_self {k : κ} {d : μ} : ∀ {l : List (κ × μ)} {i : Nat},
    l[i]? = some (k, d) →
      ∃ p q, mailOf k l = p ++ d :: q ∧ mailOf k (l.eraseIdx i) = p ++ q
  | [], _, h => by simp at h
  | m :: l, 0, h => by
    simp only [List.getElem?_cons_zero, Option.some.injEq] at h
    subst h
    exact ⟨[], mailOf k l, by simp [mailOf_cons], by simp⟩
  | m :: l, i + 1, h => by
    rw [List.getElem?_cons_succ] at h
    obtain ⟨p, q, h1, h2⟩ := mailOf_eraseIdx_self h
    simp only [List.eraseIdx_cons_succ, mailOf_cons]
    split
    · exact ⟨m.2 :: p, q, by rw [h1]; rfl, by rw [h2]; rfl⟩
    · exact ⟨p, q, h1, h2⟩

end CampusNet.Mail
