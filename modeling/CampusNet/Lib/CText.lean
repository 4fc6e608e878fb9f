import CampusNet.Lib.CInt
import Mathlib.Data.List.TakeWhile

/-!
# C strings

Text is a list of characters, a byte being the character with its code.

* `cString` — `string(buffer)`: the text up to the first NUL.
* `substrFrom` — `s.substr(pos)`, which throws (`none`) when `pos` is past the end.
* `find` — `s.find(c)`, `none` for `npos`.
* `decimal` — `to_string` of an `int`.
* `atoi` — blanks, an optional sign, digits up to the first non-digit; out-of-range values
  become `INT_MAX` or `INT_MIN`.

Principal result: `atoi_decimal_append` — `atoi` reads back what `decimal` wrote, whatever
non-digit text follows.
-/

namespace CampusNet

abbrev Text := List Char

def cString (buf : Text) : Text := buf.takeWhile (fun c => c.toNat != 0)

def substrFrom (s : Text) (pos : Nat) : Option Text :=
  if pos ≤ s.length then some (s.drop pos) else none

def find (s : Text) (c : Char) : Option Nat := s.findIdx? (· == c)

def isSpace (c : Char) : Bool := c.toNat == 32 || (9 ≤ c.toNat && c.toNat ≤ 13)

/-- Value of the leading digits. -/
def leadingDigits (s : Text) : Nat := Nat.ofDigitChars 10 (s.takeWhile Char.isDigit) 0

def atoi (s : Text) : Int :=
  match s.dropWhile isSpace with
  | '-' :: rest => clampInt (-(leadingDigits rest : Int))
  | '+' :: rest => clampInt (leadingDigits rest)
  | rest => clampInt (leadingDigits rest)

def decimal : Int → Text
  | .ofNat m => Nat.toDigits 10 m
  | .negSucc m => '-' :: Nat.toDigits 10 (m + 1)

theorem atoi_fits (s : Text) : FitsInt (atoi s) := by
  unfold atoi
  split
  · exact clampInt_fits _
  · exact clampInt_fits _
  · exact clampInt_fits _

theorem substrFrom_append {p s : Text} {n : Nat} (h : p.length = n) :
    substrFrom (p ++ s) n = some s := by
  subst h; simp [substrFrom]

theorem find_append {s t : Text} {c : Char} (h : c ∉ s) : find (s ++ c :: t) c = some s.length := by
  unfold find
  rw [List.findIdx?_eq_some_iff_getElem]
  refine ⟨by simp, by simp, fun j hj => ?_⟩
  have hj' : j < s.length := hj
  simp only [List.getElem_append_left hj', beq_iff_eq]
  intro he
  exact h (he ▸ List.getElem_mem hj')

theorem cString_eq_self {s : Text} : cString s = s ↔ ∀ c ∈ s, c.toNat ≠ 0 := by
  simp [cString, List.takeWhile_eq_self_iff]

theorem cString_append {p s : Text} (hp : cString p = p) (hs : cString s = s) :
    cString (p ++ s) = p ++ s := by
  rw [cString_eq_self] at hp hs ⊢
  intro c hc
  rcases List.mem_append.mp hc with hc | hc
  · exact hp c hc
  · exact hs c hc

/-! ## `to_string` and `atoi` -/

theorem isDigit_toDigits {m : Nat} {c : Char} (h : c ∈ Nat.toDigits 10 m) : c.isDigit = true :=
  Nat.isDigit_of_mem_toDigits (by omega) (by omega) h

theorem toNat_of_isDigit {c : Char} (h : c.isDigit = true) : 48 ≤ c.toNat ∧ c.toNat ≤ 57 := by
  simpa [Char.isDigit, UInt32.le_iff_toNat_le] using h

theorem isSpace_of_isDigit {c : Char} (h : c.isDigit = true) : isSpace c = false := by
  have := toNat_of_isDigit h
  simp [isSpace]; omega

/-- The text does not go on with a digit. -/
def NoDigitFirst (s : Text) : Prop := ∀ c, s.head? = some c → c.isDigit = false

theorem noDigitFirst_nil : NoDigitFirst [] := fun _ h => by cases h

theorem leadingDigits_toDigits {m : Nat} {s : Text} (hs : NoDigitFirst s) :
    leadingDigits (Nat.toDigits 10 m ++ s) = m := by
  have htake : (Nat.toDigits 10 m ++ s).takeWhile Char.isDigit = Nat.toDigits 10 m := by
    rw [List.takeWhile_append_of_pos (fun c hc => isDigit_toDigits hc)]
    cases s with
    | nil => simp
    | cons c s => simp [hs c rfl]
  rw [leadingDigits, htake, Nat.ofDigitChars_ten_toDigits]

/-- Decimal text begins with a digit. -/
theorem exists_toDigits (m : Nat) : ∃ c t, Nat.toDigits 10 m = c :: t ∧ c.isDigit = true := by
  cases hd : Nat.toDigits 10 m with
  | nil => exact absurd hd Nat.toDigits_ne_nil
  | cons c t =>
    have hc : c ∈ Nat.toDigits 10 m := by simp [hd]
    exact ⟨c, t, rfl, isDigit_toDigits hc⟩

theorem dropWhile_isSpace_toDigits (m : Nat) (s : Text) :
    (Nat.toDigits 10 m ++ s).dropWhile isSpace = Nat.toDigits 10 m ++ s := by
  obtain ⟨c, t, hd, hc⟩ := exists_toDigits m
  simp [hd, isSpace_of_isDigit hc]

theorem toDigits_append_ne_cons {m : Nat} {s rest : Text} {c : Char} (hc : c.isDigit = false) :
    Nat.toDigits 10 m ++ s ≠ c :: rest := by
  intro h
  obtain ⟨c', t, hd, hdigit⟩ := exists_toDigits m
  rw [hd] at h
  cases h
  simp [hc] at hdigit

theorem atoi_toDigits_append {m : Nat} {s : Text} (hs : NoDigitFirst s) :
    atoi (Nat.toDigits 10 m ++ s) = clampInt m := by
  have hval := leadingDigits_toDigits (m := m) hs
  unfold atoi
  rw [dropWhile_isSpace_toDigits]
  -- the first character is a digit, hence no sign
  split
  · rename_i rest he
    exact absurd he (toDigits_append_ne_cons (by decide))
  · rename_i rest he
    exact absurd he (toDigits_append_ne_cons (by decide))
  · rw [hval]

/-- **`atoi` undoes `to_string`**, whatever non-digit text follows. -/
theorem atoi_decimal_append {n : Int} {s : Text} (hn : FitsInt n) (hs : NoDigitFirst s) :
    atoi (decimal n ++ s) = n := by
  cases n with
  | ofNat m =>
    rw [decimal, atoi_toDigits_append hs]
    exact clampInt_of_fits hn
  | negSucc m =>
    have hval := leadingDigits_toDigits (m := m + 1) hs
    have hspace : isSpace '-' = false := by decide
    simp only [decimal, atoi, List.cons_append, List.dropWhile_cons, hspace,
      Bool.false_eq_true, if_false, hval]
    have hneg : -((m + 1 : Nat) : Int) = Int.negSucc m := by omega
    rw [hneg, clampInt_of_fits hn]

theorem atoi_decimal {n : Int} (hn : FitsInt n) : atoi (decimal n) = n := by
  simpa using atoi_decimal_append hn noDigitFirst_nil

theorem toDigits_injective {m n : Nat} (h : Nat.toDigits 10 m = Nat.toDigits 10 n) : m = n := by
  have hm := leadingDigits_toDigits (m := m) noDigitFirst_nil
  rw [h, leadingDigits_toDigits noDigitFirst_nil] at hm
  exact hm.symm

theorem minus_ne_toDigits (m : Nat) (s : Text) : Nat.toDigits 10 m ≠ '-' :: s := by
  intro h
  have happend : Nat.toDigits 10 m ++ [] = '-' :: s := by simpa using h
  exact toDigits_append_ne_cons (by decide) happend

theorem decimal_injective {m n : Int} (h : decimal m = decimal n) : m = n := by
  cases m with
  | ofNat a =>
    cases n with
    | ofNat b => exact congrArg Int.ofNat (toDigits_injective h)
    | negSucc b => exact absurd h (minus_ne_toDigits a _)
  | negSucc a =>
    cases n with
    | ofNat b => exact absurd h.symm (minus_ne_toDigits b _)
    | negSucc b =>
      have hab := toDigits_injective (List.cons.inj h).2
      rw [Nat.succ.inj hab]

theorem mem_decimal {n : Int} {c : Char} (h : c ∈ decimal n) : c = '-' ∨ c.isDigit = true := by
  cases n with
  | ofNat m => exact Or.inr (isDigit_toDigits h)
  | negSucc m =>
    rcases List.mem_cons.mp h with h | h
    · exact Or.inl h
    · exact Or.inr (isDigit_toDigits h)

theorem cString_decimal (n : Int) : cString (decimal n) = decimal n := by
  rw [cString_eq_self]
  intro c hc
  rcases mem_decimal hc with rfl | h
  · decide
  · have := toNat_of_isDigit h; omega

theorem length_toDigits_le {m : Nat} (h : m < 10 ^ 10) : (Nat.toDigits 10 m).length ≤ 10 :=
  (Nat.length_toDigits_le_iff (by omega) (by omega)).mpr h

theorem length_decimal_le {n : Int} (h : FitsInt n) : (decimal n).length ≤ 11 := by
  obtain ⟨h1, h2⟩ := h
  unfold INT_MIN at h1
  unfold INT_MAX at h2
  cases n with
  | ofNat m =>
    have hm : m < 10 ^ 10 := by simp only [Int.ofNat_eq_natCast] at h2; omega
    have := length_toDigits_le hm
    simp only [decimal]; omega
  | negSucc m =>
    have hm : m + 1 < 10 ^ 10 := by omega
    have := length_toDigits_le hm
    simp only [decimal, List.length_cons]; omega

theorem dot_notMem_decimal (n : Int) : '.' ∉ decimal n := by
  intro h
  rcases mem_decimal h with h | h
  · apply absurd h
    decide
  · apply absurd h
    decide

end CampusNet
