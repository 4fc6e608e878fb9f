import CampusNet.Lib.Runs
import Mathlib.Algebra.GroupWithZero.Nat
import Mathlib.Data.Fintype.Basic
import Mathlib.Data.Finset.Max
import Mathlib.Data.Fintype.Card
import Mathlib.Logic.Function.Basic

/-!
# Pools of slots

A pool says who holds each of finitely many ordered slots.  A slot is acquired, given back, asked
after, or taken back together with others.

* `Pool.step` — the operations; `acquire` takes the least free slot.
* `Pool.acquire_full`, `Pool.count_le` — a request is refused exactly when every slot is held.
* `pool_accounts` — over any run, the slots granted are those given back, those taken back and those
  still held.
-/

namespace CampusNet.SlotPool

open Runs

/-- Who holds each slot. -/
abbrev Pool (S H : Type) := S → Option H

inductive Op (S H : Type) where
  | acquire (h : H)
  | release (s : S)
  | check (s : S) (h : H)
  | sweep (keep : S → H → Bool)
  | nothing

inductive Result (S H : Type) where
  | granted (h : H) (s : S)
  | full
  | released
  | confirmed
  | refused
  | done

variable {S H : Type} [Fintype S]

def Pool.free (p : Pool S H) : Finset S := Finset.univ.filter fun s => p s = none

def Pool.held (p : Pool S H) : Finset S := Finset.univ.filter fun s => p s ≠ none

/-- The number of slots held. -/
def Pool.count (p : Pool S H) : Nat := p.held.card

@[simp] theorem Pool.mem_free {p : Pool S H} {s : S} : s ∈ p.free ↔ p s = none := by
  simp [Pool.free]

@[simp] theorem Pool.mem_held {p : Pool S H} {s : S} : s ∈ p.held ↔ p s ≠ none := by
  simp [Pool.held]

theorem Pool.count_le (p : Pool S H) : p.count ≤ Fintype.card S := Finset.card_le_univ _

variable [LinearOrder S]

/-- Free and held slots are all slots. -/
theorem Pool.free_eq_compl (p : Pool S H) : p.free = p.heldᶜ := by
  ext s
  simp

theorem Pool.count_take {p : Pool S H} {s : S} (h : p s = none) (x : H) :
    Pool.count (Function.update p s (some x)) = p.count + 1 := by
  have hheld : Pool.held (Function.update p s (some x)) = insert s p.held := by
    ext r
    by_cases hr : r = s
    · simp [hr]
    · simp [hr]
  rw [Pool.count, hheld, Finset.card_insert_of_notMem (by simp [h]), Pool.count]

theorem Pool.count_give {p : Pool S H} {s : S} (h : p s ≠ none) :
    Pool.count (Function.update p s none) + 1 = p.count := by
  have hheld : Pool.held (Function.update p s none) = p.held.erase s := by
    ext r
    by_cases hr : r = s
    · simp [hr]
    · simp [hr]
  rw [Pool.count, hheld, Finset.card_erase_add_one (Pool.mem_held.mpr h), Pool.count]

variable [DecidableEq H]

def Pool.step (p : Pool S H) : Op S H → Result S H × Pool S H
  | .acquire h =>
    if hfree : p.free.Nonempty then
      (.granted h (p.free.min' hfree), Function.update p (p.free.min' hfree) (some h))
    else (.full, p)
  | .release s => if p s = none then (.refused, p) else (.released, Function.update p s none)
  | .check s h => (if p s = some h then .confirmed else .refused, p)
  | .sweep keep => (.done, fun s => (p s).filter (keep s))
  | .nothing => (.refused, p)

/-- Operations in any order, from a pool with nothing held. -/
def pool (S H : Type) [Fintype S] [LinearOrder S] [DecidableEq H] : Machine (Pool S H) (Op S H) :=
  ⟨fun _ => none, fun p o => some (p.step o).2⟩

/-- **The least free slot** is granted. -/
theorem Pool.acquire_least {p : Pool S H} {s : S} (hfree : p s = none)
    (hleast : ∀ r, r < s → p r ≠ none) (h : H) :
    p.step (.acquire h) = (.granted h s, Function.update p s (some h)) := by
  have hne : p.free.Nonempty := ⟨s, Pool.mem_free.mpr hfree⟩
  have hmin : p.free.min' hne = s := by
    apply le_antisymm
    · exact Finset.min'_le _ _ (Pool.mem_free.mpr hfree)
    · by_contra hlt
      exact hleast _ (not_le.mp hlt) (Pool.mem_free.mp (p.free.min'_mem hne))
  rw [Pool.step, dif_pos hne, hmin]

/-- **Refusal**: exactly when every slot is held. -/
theorem Pool.acquire_full {p : Pool S H} (h : H) (hfull : p.count = Fintype.card S) :
    p.step (.acquire h) = (.full, p) := by
  have hnone : ¬p.free.Nonempty := by
    rw [Finset.not_nonempty_iff_eq_empty, Pool.free_eq_compl, Finset.compl_eq_empty_iff]
    exact Finset.eq_univ_of_card _ hfull
  rw [Pool.step, dif_neg hnone]

theorem Pool.count_sweep (p : Pool S H) (keep : S → H → Bool) :
    (p.step (.sweep keep)).2.count ≤ p.count := by
  apply Finset.card_le_card
  intro s hs
  rw [Pool.mem_held] at hs ⊢
  intro hnone
  apply hs
  show (p s).filter (keep s) = none
  rw [hnone]
  rfl

/-! ## Accounts -/

def Result.isGranted : Result S H → Bool
  | .granted _ _ => true
  | _ => false

def Result.isReleased : Result S H → Bool
  | .released => true
  | _ => false

/-- The slots that an operation takes back without being asked. -/
def Pool.swept (p : Pool S H) : Op S H → Nat
  | .sweep keep => p.count - (p.step (.sweep keep)).2.count
  | _ => 0

/-- **One operation** in the books. -/
theorem Pool.step_accounts (p : Pool S H) (o : Op S H) :
    p.count + (p.step o).1.isGranted.toNat =
      (p.step o).2.count + (p.step o).1.isReleased.toNat + p.swept o := by
  cases o with
  | acquire h =>
    by_cases hfree : p.free.Nonempty
    · have hstep : p.step (.acquire h) = (.granted h (p.free.min' hfree),
          Function.update p (p.free.min' hfree) (some h)) := dif_pos hfree
      have hcount := Pool.count_take (Pool.mem_free.mp (p.free.min'_mem hfree)) h
      rw [hstep]
      simp only [Result.isGranted, Result.isReleased, Pool.swept, hcount, Bool.toNat_true,
        Bool.toNat_false, Nat.add_zero]
    · have hstep : p.step (.acquire h) = (.full, p) := dif_neg hfree
      rw [hstep]
      rfl
  | release s =>
    by_cases hfree : p s = none
    · have hstep : p.step (.release s) = (.refused, p) := if_pos hfree
      rw [hstep]
      rfl
    · have hstep : p.step (.release s) = (.released, Function.update p s none) := if_neg hfree
      have hcount := Pool.count_give hfree
      rw [hstep]
      simp only [Result.isGranted, Result.isReleased, Pool.swept, Bool.toNat_true,
        Bool.toNat_false]
      omega
  | check s h =>
    by_cases hheld : p s = some h
    · simp [Pool.step, hheld, Result.isGranted, Result.isReleased, Pool.swept]
    · simp [Pool.step, hheld, Result.isGranted, Result.isReleased, Pool.swept]
  | sweep keep =>
    have hle := p.count_sweep keep
    show p.count + 0 = (p.step (.sweep keep)).2.count + 0 +
      (p.count - (p.step (.sweep keep)).2.count)
    omega
  | nothing => rfl

def granted (h : List (Pool S H × Op S H)) : Nat := h.countP fun q => (q.1.step q.2).1.isGranted

def released (h : List (Pool S H × Op S H)) : Nat := h.countP fun q => (q.1.step q.2).1.isReleased

def swept (h : List (Pool S H × Op S H)) : Nat := (h.map fun q => q.1.swept q.2).sum

/-- **Nothing is lost**: over any run. -/
theorem pool_accounts {h : List (Pool S H × Op S H)} {p : Pool S H} (hr : Run (pool S H) h p) :
    granted h = released h + swept h + p.count := by
  induction hr with
  | nil =>
    have hnone : Pool.count (pool S H).init = 0 := by
      rw [Pool.count, Finset.card_eq_zero, Finset.eq_empty_iff_forall_notMem]
      intro s hs
      exact Pool.mem_held.mp hs rfl
    rw [hnone]
    rfl
  | @snoc h p p' o _ hstep ih =>
    obtain rfl : (p.step o).2 = p' := Option.some.inj hstep
    have hone := p.step_accounts o
    simp only [granted, released, swept, List.countP_cons, List.map_cons, List.sum_cons] at ih ⊢
    cases hg : (p.step o).1.isGranted <;> cases hd : (p.step o).1.isReleased <;>
      simp only [hg, hd, Bool.toNat_true, Bool.toNat_false, if_true, Bool.false_eq_true,
        if_false] at hone ⊢ <;> omega

end CampusNet.SlotPool
