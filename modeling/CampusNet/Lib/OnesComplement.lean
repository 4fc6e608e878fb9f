import Mathlib.Algebra.BigOperators.Group.List.Basic
import Mathlib.Algebra.Order.Ring.Int
import Mathlib.Data.UInt

/-!
# One's-complement sums of 16-bit words

Addition with an end-around carry: a carry out of the 16 bits is added in again at the bottom.  It
is addition modulo 65535, where zero has the two representations 0 and 65535.

* `addCarry`, `onesSum` — the sum of a list of words, word by word.
* `canon` — the representation that such a sum has: 0 for zero alone, 65535 for its multiples.
* `onesSum_eq` — the word-by-word sum is the representation of the exact sum.
* `fold_fold` — two folds of an exact sum below 2^32 give the same.
* `canon_swap` — summing byte-swapped words gives the byte-swapped sum.
* `canon_add_compl` — with its complement added, a sum is 65535.
* `words` — the words of a byte string in one of the two byte orders, an odd byte padded behind.
* `canon_littleEndian` — the little-endian sum is the big-endian sum turned round.
-/

namespace CampusNet.OnesComplement

/-- Sum of two words; the carry goes round. -/
def addCarry (x y : Nat) : Nat := if x + y < 65536 then x + y else x + y - 65535

def onesSum (words : List Nat) : Nat := words.foldl addCarry 0

/-- The representation of an exact sum. -/
def canon (n : Nat) : Nat := if n = 0 then 0 else (n - 1) % 65535 + 1

/-- Adds the upper half to the lower. -/
def fold (n : Nat) : Nat := n / 65536 + n % 65536

def swap (x : Nat) : Nat := x % 256 * 256 + x / 256

/-! ## Representations -/

theorem canon_le (n : Nat) : canon n ≤ 65535 := by
  unfold canon
  split <;> omega

theorem canon_of_le {n : Nat} (h : n ≤ 65535) : canon n = n := by
  unfold canon
  split <;> omega

theorem canon_mod (n : Nat) : canon n % 65535 = n % 65535 := by
  unfold canon
  split <;> omega

theorem canon_pos {n : Nat} (h : 0 < n) : 0 < canon n := by
  unfold canon
  rw [if_neg h.ne']
  exact Nat.succ_pos _

/-- A word other than zero is determined by its residue. -/
theorem canon_unique {n x : Nat} (hn : 0 < n) (hx : 0 < x) (hle : x ≤ 65535)
    (hmod : x % 65535 = n % 65535) : canon n = x := by
  unfold canon
  rw [if_neg hn.ne']
  omega

theorem canon_congr {m n : Nat} (hzero : m = 0 ↔ n = 0) (hmod : m % 65535 = n % 65535) :
    canon m = canon n := by
  rcases Nat.eq_zero_or_pos m with hm | hm
  · rw [hm, hzero.mp hm]
  · have hn : 0 < n := by omega
    apply canon_unique hm (canon_pos hn) (canon_le n)
    rw [canon_mod, hmod]

theorem canon_canon_add (m n : Nat) : canon (canon m + n) = canon (m + n) := by
  have hmod := canon_mod m
  have hzero : canon m = 0 ↔ m = 0 := by
    rcases Nat.eq_zero_or_pos m with hm | hm
    · simp [hm, canon]
    · have hpos := canon_pos hm
      omega
  apply canon_congr <;> omega

/-! ## Sums -/

theorem addCarry_canon {n y : Nat} (hy : y ≤ 65535) : addCarry (canon n) y = canon (n + y) := by
  have hle := canon_le n
  rw [← canon_canon_add]
  unfold addCarry
  split
  · rename_i hsmall
    exact (canon_of_le (by omega)).symm
  · refine (canon_unique ?_ ?_ ?_ ?_).symm <;> omega

theorem foldl_addCarry {words : List Nat} (h : ∀ x ∈ words, x ≤ 65535) (n : Nat) :
    words.foldl addCarry (canon n) = canon (n + words.sum) := by
  induction words generalizing n with
  | nil => rfl
  | cons x words ih =>
    rw [List.forall_mem_cons] at h
    rw [List.foldl_cons, addCarry_canon h.1, ih h.2, List.sum_cons, Nat.add_assoc]

/-- **A one's-complement sum** represents the exact sum. -/
theorem onesSum_eq {words : List Nat} (h : ∀ x ∈ words, x ≤ 65535) :
    onesSum words = canon words.sum := by
  have hsum := foldl_addCarry h 0
  rwa [Nat.zero_add] at hsum

/-- **Two folds are enough.** -/
theorem fold_fold {n : Nat} (h : n < 4294967296) : fold (fold n) = canon n := by
  unfold fold
  rcases Nat.eq_zero_or_pos n with hn | hn
  · rw [hn]
    rfl
  · refine (canon_unique hn ?_ ?_ ?_).symm <;> omega

theorem canon_add_compl (n : Nat) : canon (n + (65535 - canon n)) = 65535 := by
  have hmod := canon_mod n
  have hle := canon_le n
  rcases Nat.eq_zero_or_pos n with hn | hn
  · subst hn
    rfl
  · apply canon_unique <;> omega

/-! ## Byte order -/

/-- Multiplying by 256 turns a word round. -/
theorem canon_swap (n : Nat) : canon (256 * n) = swap (canon n) := by
  rcases Nat.eq_zero_or_pos n with hn | hn
  · subst hn
    rfl
  · have hpos := canon_pos hn
    have hle := canon_le n
    have hmod := canon_mod n
    unfold swap
    apply canon_unique <;> omega

theorem swap_compl {x : Nat} (h : x ≤ 65535) : 65535 - swap x = swap (65535 - x) := by
  unfold swap
  omega

/-- The first byte is the high one. -/
def bigEndian (a b : UInt8) : Nat := a.toNat * 256 + b.toNat

/-- The first byte is the low one. -/
def littleEndian (a b : UInt8) : Nat := b.toNat * 256 + a.toNat

/-- The words of a byte string; a last byte alone is followed by a zero byte. -/
def words (word : UInt8 → UInt8 → Nat) : List UInt8 → List Nat
  | a :: b :: buf => word a b :: words word buf
  | [a] => [word a 0]
  | [] => []

theorem bigEndian_le (a b : UInt8) : bigEndian a b ≤ 65535 := by
  have ha := a.toNat_lt
  have hb := b.toNat_lt
  unfold bigEndian
  omega

theorem littleEndian_le (a b : UInt8) : littleEndian a b ≤ 65535 := bigEndian_le b a

theorem words_le {word : UInt8 → UInt8 → Nat} (h : ∀ a b, word a b ≤ 65535) (buf : List UInt8) :
    ∀ x ∈ words word buf, x ≤ 65535 := by
  induction buf using words.induct with
  | case1 a b buf ih => exact List.forall_mem_cons.mpr ⟨h a b, ih⟩
  | case2 a => exact List.forall_mem_singleton.mpr (h a 0)
  | case3 => exact fun x hx => absurd hx List.not_mem_nil

theorem sum_words_le {word : UInt8 → UInt8 → Nat} (h : ∀ a b, word a b ≤ 65535)
    (buf : List UInt8) : (words word buf).sum ≤ 65535 * ((buf.length + 1) / 2) := by
  induction buf using words.induct with
  | case1 a b buf ih =>
    have hab := h a b
    simp only [words, List.sum_cons, List.length_cons]
    omega
  | case2 a =>
    simp only [words, List.sum_singleton, List.length_singleton]
    exact h a 0
  | case3 => exact Nat.zero_le _

/-- The sums in the two byte orders agree up to the byte swap, and are zero together. -/
theorem sum_littleEndian (buf : List UInt8) :
    (words littleEndian buf).sum % 65535 = 256 * (words bigEndian buf).sum % 65535 ∧
      ((words littleEndian buf).sum = 0 ↔ (words bigEndian buf).sum = 0) := by
  induction buf using words.induct with
  | case1 a b buf ih =>
    simp only [words, littleEndian, bigEndian, List.sum_cons]
    omega
  | case2 a =>
    simp only [words, littleEndian, bigEndian, List.sum_singleton]
    omega
  | case3 => simp [words]

/-- **Byte order does not matter**: the sum in the other byte order is the sum turned round. -/
theorem canon_littleEndian (buf : List UInt8) :
    canon (words littleEndian buf).sum = swap (onesSum (words bigEndian buf)) := by
  obtain ⟨hmod, hzero⟩ := sum_littleEndian buf
  rw [onesSum_eq (words_le bigEndian_le buf), ← canon_swap]
  apply canon_congr
  · omega
  · exact hmod

end CampusNet.OnesComplement
