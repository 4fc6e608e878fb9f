import CampusNet.Lib.Buffer
import Mathlib.Algebra.Group.Nat.Even
import Mathlib.Data.Nat.Count

/-!
# Even parity

Model of `homework4/parity_check.cpp`: a byte that is not zero is a one, and the number of ones,
parity bit included, must be even.

* `toBit`, `countOnes`, `parityCheck` — as the source has them.
* `countOnes_eq` — the loop counts the positions that are not zero.
* `count_parity` — two counts agree in parity exactly when the number of differences is even.
* `parityCheck_detects` — exactly the odd errors are found, and each message has one parity bit.
-/

namespace CampusNet.ParityCheck

open Buffer

def toBit (x : UInt8) : UInt8 := if x ≠ 0 then 1 else 0

def countOnes (msg : Buf) (msgLength : Int) : Int :=
  (List.range msgLength.toNat).foldl (fun count i => count + (toBit (msg i)).toNat) 0

/-- A null `msg` is `none`. -/
def parityCheck (msg : Option Buf) (msgLength : Int) : Int :=
  match msg with
  | none => 0
  | some msg =>
    if msgLength ≤ 0 then 0
    else
      let ones := countOnes msg msgLength
      if ones.tmod 2 = 0 then 1 else 0

/-- The two messages differ in the bit at `i`. -/
def Differ (msg msg' : Buf) (i : Nat) : Prop := ¬(msg i ≠ 0 ↔ msg' i ≠ 0)

instance (msg msg' : Buf) : DecidablePred (Differ msg msg') := fun i =>
  inferInstanceAs (Decidable (¬(msg i ≠ 0 ↔ msg' i ≠ 0)))

variable {msg msg' : Buf} {n : Int}

/-! ## Counting -/

theorem toBit_toNat (x : UInt8) : (toBit x).toNat = if x ≠ 0 then 1 else 0 := by
  unfold toBit
  split
  · rfl
  · rfl

/-- The loop counts the positions that are not zero. -/
theorem countOnes_eq (msg : Buf) (n : Int) :
    countOnes msg n = Nat.count (fun i => msg i ≠ 0) n.toNat := by
  unfold countOnes
  generalize n.toNat = m
  induction m with
  | zero => rfl
  | succ m ih =>
    rw [List.range_succ, List.foldl_append, ih, Nat.count_succ]
    simp [toBit_toNat]

/-- The count fits the loop's `int`. -/
theorem countOnes_bounds (hn : 0 ≤ n) : 0 ≤ countOnes msg n ∧ countOnes msg n ≤ n := by
  have hle : Nat.count (fun i => msg i ≠ 0) n.toNat ≤ n.toNat := Nat.count_le _
  rw [countOnes_eq]
  omega

/-- **Parity of differences**: where two predicates differ an even number of times, they hold
equally often, up to an even number. -/
theorem count_parity (p q : Nat → Prop) [DecidablePred p] [DecidablePred q] (m : Nat) :
    (Even (Nat.count p m) ↔ Even (Nat.count q m)) ↔
      Even (Nat.count (fun i => ¬(p i ↔ q i)) m) := by
  have hbit : ∀ (r : Prop) [Decidable r], Even (if r then 1 else 0) ↔ ¬r := by
    intro r _
    by_cases hr : r
    · simp [hr]
    · simp [hr]
  induction m with
  | zero => simp
  | succ m ih =>
    -- each count changes its parity exactly where its predicate holds
    simp only [Nat.count_succ, Nat.even_add, hbit, ← ih]
    grind

/-! ## The check -/

theorem parityCheck_some (hn : 1 ≤ n) :
    parityCheck (some msg) n =
      if Even (Nat.count (fun i => msg i ≠ 0) n.toNat) then 1 else 0 := by
  have hparity : ((Nat.count (fun i => msg i ≠ 0) n.toNat : Nat) : Int).tmod 2 = 0 ↔
      Even (Nat.count (fun i => msg i ≠ 0) n.toNat) := by
    rw [Int.tmod_eq_emod_of_nonneg (Int.natCast_nonneg _), Nat.even_iff]
    omega
  rw [parityCheck, if_neg (by omega), countOnes_eq]
  simp only [hparity]

theorem parityCheck_eq_one (hn : 1 ≤ n) :
    parityCheck (some msg) n = 1 ↔ Even (Nat.count (fun i => msg i ≠ 0) n.toNat) := by
  rw [parityCheck_some hn]
  split
  · rename_i heven
    simp [heven]
  · rename_i hodd
    simp [hodd]

/-- The verdicts agree exactly when the number of differing bits is even. -/
theorem parityCheck_eq_iff (hn : 1 ≤ n) :
    parityCheck (some msg) n = parityCheck (some msg') n ↔
      Even (Nat.count (Differ msg msg') n.toNat) := by
  have hparity := count_parity (fun i => msg i ≠ 0) (fun i => msg' i ≠ 0) n.toNat
  rw [parityCheck_some hn, parityCheck_some hn]
  refine Iff.trans ?_ hparity
  by_cases heven : Even (Nat.count (fun i => msg i ≠ 0) n.toNat)
  · simp [heven]
  · simp [heven]

/-- One more bit changes the count by its value. -/
theorem count_append (msg : Buf) (m : Nat) {bit : UInt8} (hbit : bit = 0 ∨ bit = 1) :
    Nat.count (fun i => writeBytes msg m [bit] i ≠ 0) (m + 1) =
      Nat.count (fun i => msg i ≠ 0) m + bit.toNat := by
  have hlast : writeBytes msg m [bit] m = bit := writeBytes_inside (i := 0) rfl
  have hbefore : Nat.count (fun i => writeBytes msg m [bit] i ≠ 0) m =
      Nat.count (fun i => msg i ≠ 0) m := by
    have hsame : ∀ i < m, writeBytes msg m [bit] i = msg i := fun i hi =>
      writeBytes_outside (Or.inl hi)
    rw [Nat.count_eq_card_filter_range, Nat.count_eq_card_filter_range]
    refine congrArg Finset.card (Finset.filter_congr fun i hi => ?_)
    rw [hsame i (Finset.mem_range.mp hi)]
  rw [Nat.count_succ, hbefore, hlast]
  rcases hbit with rfl | rfl
  · rfl
  · rfl

/-- **Parity detects exactly the odd errors**: two messages of `n` bytes that differ in `k` bits get
the same verdict exactly when `k` is even, and for each message of `n - 1` bytes exactly one bit
appended to it passes the check. -/
theorem parityCheck_detects (hn : 1 ≤ n) :
    (∀ (msg msg' : Buf) (k : Nat), Nat.count (Differ msg msg') n.toNat = k →
      (parityCheck (some msg) n = parityCheck (some msg') n ↔ Even k)) ∧
    ∀ msg : Buf, ∃! bit : UInt8, (bit = 0 ∨ bit = 1) ∧
      parityCheck (some (writeBytes msg (n - 1).toNat [bit])) n = 1 := by
  refine ⟨fun msg msg' k hk => hk ▸ parityCheck_eq_iff hn, fun msg => ?_⟩
  have hlength : n.toNat = (n - 1).toNat + 1 := by omega
  have hpass : ∀ {bit : UInt8}, bit = 0 ∨ bit = 1 →
      (parityCheck (some (writeBytes msg (n - 1).toNat [bit])) n = 1 ↔
        (Even (Nat.count (fun i => msg i ≠ 0) (n - 1).toNat) ↔ bit = 0)) := by
    intro bit hbit
    rw [parityCheck_eq_one hn, hlength, count_append msg _ hbit, Nat.even_add]
    rcases hbit with rfl | rfl
    · simp
    · simp
  by_cases heven : Even (Nat.count (fun i => msg i ≠ 0) (n - 1).toNat)
  · refine ⟨0, ⟨Or.inl rfl, (hpass (Or.inl rfl)).mpr (iff_of_true heven rfl)⟩, fun bit hother => ?_⟩
    exact ((hpass hother.1).mp hother.2).mp heven
  · have hone : ¬(1 : UInt8) = 0 := by decide
    refine ⟨1, ⟨Or.inr rfl, (hpass (Or.inr rfl)).mpr (iff_of_false heven hone)⟩,
      fun bit hother => ?_⟩
    exact hother.1.resolve_left fun hzero => heven (((hpass hother.1).mp hother.2).mpr hzero)

/-- Three bytes with a one lost: 255 and 7 stand for ones too. -/
theorem parityCheck_detects_three :
    parityCheck (some fun i => [255, 0, 7].getD i 0) 3 ≠
      parityCheck (some fun i => [255, 0, 0].getD i 0) 3 := fun h =>
  absurd (((parityCheck_detects (n := 3) (by decide)).1 _ _ 1 (by decide)).mp h) (by decide)

end CampusNet.ParityCheck
