import CampusNet.Lib.CText

/-!
# Formatted input from a text

`std::cin >> x` for words and for `int`: leading blanks are skipped; at the end of the input, or
after an earlier failure, nothing is read and the variable keeps what it had; an `int` without
digits becomes 0 and one out of range the nearest `int`, and both fail.

* `words` — the blank-separated words of a text: what a program that only uses `>>` can see of it.
* `getWord_of_words`, `getInt_of_words` — extraction takes the next word, however it is laid out.
* `isWord_of_getWord`, `fits_of_getInt` — what is read is a word, is an `int`.
* `readLines` — a loop over input lines; `readLines_of_words`, `readLines_all` are its rules.
-/

namespace CampusNet

structure Istream where
  rest : Text
  failed : Bool

namespace Istream

/-- `std::cin` with this input. -/
def ofText (input : Text) : Istream := ⟨input, false⟩

def isGraph (c : Char) : Bool := !isSpace c

/-- `>>` to a string; `none` leaves the string as it was. -/
def getWord (s : Istream) : Option Text × Istream :=
  if s.failed then (none, s)
  else match s.rest.dropWhile isSpace with
    | [] => (none, ⟨[], true⟩)
    | t => (some (t.takeWhile isGraph), ⟨t.dropWhile isGraph, false⟩)

/-- The digits of an `int`, after its sign. -/
def getDigits (negative : Bool) (t : Text) : Option Int × Istream :=
  let digits := t.takeWhile Char.isDigit
  let rest := t.dropWhile Char.isDigit
  let value : Int := if negative then -(Nat.ofDigitChars 10 digits 0 : Int)
    else Nat.ofDigitChars 10 digits 0
  if digits = [] then (some 0, ⟨rest, true⟩)
  else (some (clampInt value), ⟨rest, !decide (FitsInt value)⟩)

/-- `>>` to an `int`; `none` leaves the variable as it was. -/
def getInt (s : Istream) : Option Int × Istream :=
  if s.failed then (none, s)
  else match s.rest.dropWhile isSpace with
    | [] => (none, ⟨[], true⟩)
    | '-' :: t => getDigits true t
    | '+' :: t => getDigits false t
    | t => getDigits false t

/-! ## Words -/

/-- A word is not empty and has no blank. -/
structure IsWord (w : Text) : Prop where
  ne_nil : w ≠ []
  graph : ∀ c ∈ w, isSpace c = false

theorem isWord_iff {w : Text} : IsWord w ↔ w ≠ [] ∧ w.all isGraph = true := by
  simp only [List.all_eq_true, isGraph, Bool.not_eq_true']
  exact ⟨fun h => ⟨h.ne_nil, h.graph⟩, fun h => ⟨h.1, h.2⟩⟩

instance (w : Text) : Decidable (IsWord w) := decidable_of_iff _ isWord_iff.symm

/-- The text is empty or begins with a blank. -/
def SpaceFirst (s : Text) : Prop := ∀ c, s.head? = some c → isSpace c = true

/-- The word that begins with `c`, before the text `s` whose words are `ws`. -/
def consChar (c : Char) (s : Text) (ws : List Text) : List Text :=
  match s, ws with
  | d :: _, w :: ws => if isSpace d then [c] :: w :: ws else (c :: w) :: ws
  | _, ws => [c] :: ws

/-- The words of a text. -/
def words : Text → List Text
  | [] => []
  | c :: s => if isSpace c then words s else consChar c s (words s)

theorem isSpace_of_isGraph {c : Char} : isGraph c = true ↔ isSpace c = false := by
  simp [isGraph]

theorem spaceFirst_nil : SpaceFirst [] := fun _ h => by cases h

theorem spaceFirst_cons {c : Char} {s : Text} (h : isSpace c = true) : SpaceFirst (c :: s) := by
  intro d hd
  cases hd
  exact h

@[simp] theorem words_nil : words [] = [] := rfl

theorem words_space {c : Char} {s : Text} (h : isSpace c = true) : words (c :: s) = words s := by
  rw [words, if_pos h]

/-- A character before a blank or the end is a word of its own. -/
theorem consChar_space (c : Char) {s : Text} (hs : SpaceFirst s) (ws : List Text) :
    consChar c s ws = [c] :: ws := by
  unfold consChar
  split
  · rw [if_pos (hs _ rfl)]
  · rfl

/-- Before another character it begins the word of that character. -/
theorem consChar_graph (c : Char) {d : Char} (hd : isSpace d = false) (s w : Text)
    (ws : List Text) : consChar c (d :: s) (w :: ws) = (c :: w) :: ws := by
  rw [consChar, hd, if_neg Bool.false_ne_true]

theorem words_graph {c : Char} (h : isSpace c = false) (s : Text) :
    words (c :: s) = consChar c s (words s) := by
  rw [words, h, if_neg Bool.false_ne_true]

/-- A text that begins with a character other than a blank has a first word. -/
theorem exists_words_graph {c : Char} (h : isSpace c = false) (s : Text) :
    ∃ w ws, words (c :: s) = w :: ws := by
  rw [words_graph h]
  unfold consChar
  split
  · split
    · exact ⟨_, _, rfl⟩
    · exact ⟨_, _, rfl⟩
  · exact ⟨_, _, rfl⟩

/-- A word before a blank or the end is the first of the words. -/
theorem words_append {w s : Text} (hw : IsWord w) (hs : SpaceFirst s) :
    words (w ++ s) = w :: words s := by
  obtain ⟨hne, hgraph⟩ := hw
  induction w with
  | nil => exact absurd rfl hne
  | cons c w ih =>
    rw [List.cons_append, words_graph (hgraph c List.mem_cons_self)]
    cases w with
    | nil => exact consChar_space c hs _
    | cons d w =>
      have hd : isSpace d = false := hgraph d (List.mem_cons_of_mem _ List.mem_cons_self)
      rw [ih (List.cons_ne_nil _ _) fun e he => hgraph e (List.mem_cons_of_mem _ he),
        List.cons_append, consChar_graph c hd]

/-- **The next word** stands behind the blanks, and the other words behind it. -/
theorem exists_word {s w : Text} {ws : List Text} (h : words s = w :: ws) :
    ∃ r, s.dropWhile isSpace = w ++ r ∧ IsWord w ∧ SpaceFirst r ∧ words r = ws := by
  induction s generalizing w ws with
  | nil => cases h
  | cons c s ih =>
    by_cases hc : isSpace c = true
    · rw [words_space hc] at h
      rw [List.dropWhile_cons_of_pos hc]
      exact ih h
    · have hgraph : isSpace c = false := eq_false_of_ne_true hc
      have hsingle : IsWord [c] := ⟨List.cons_ne_nil _ _, by simpa using hgraph⟩
      rw [words_graph hgraph] at h
      rw [List.dropWhile_cons_of_neg hc]
      cases s with
      | nil =>
        cases h
        exact ⟨[], rfl, hsingle, spaceFirst_nil, rfl⟩
      | cons d s =>
        by_cases hd : isSpace d = true
        · rw [consChar_space c (spaceFirst_cons hd)] at h
          cases h
          exact ⟨d :: s, rfl, hsingle, spaceFirst_cons hd, rfl⟩
        · have hd' : isSpace d = false := eq_false_of_ne_true hd
          obtain ⟨v, vs, hwords⟩ := exists_words_graph hd' s
          rw [hwords, consChar_graph c hd'] at h
          cases h
          obtain ⟨r, hr, hv, hspace, hvs⟩ := ih hwords
          rw [List.dropWhile_cons_of_neg hd] at hr
          refine ⟨r, by rw [hr]; rfl, ⟨List.cons_ne_nil _ _, ?_⟩, hspace, hvs⟩
          intro e he
          rcases List.mem_cons.mp he with rfl | he
          · exact hgraph
          · exact hv.graph e he

theorem words_eq_nil {s : Text} : words s = [] ↔ s.dropWhile isSpace = [] := by
  induction s with
  | nil => exact iff_of_true rfl rfl
  | cons c s ih =>
    by_cases hc : isSpace c = true
    · rw [words_space hc, List.dropWhile_cons_of_pos hc, ih]
    · obtain ⟨w, ws, hwords⟩ := exists_words_graph (eq_false_of_ne_true hc) s
      rw [hwords, List.dropWhile_cons_of_neg hc]
      exact iff_of_false (List.cons_ne_nil _ _) (List.cons_ne_nil _ _)

/-! ## Extraction -/

/-- What a word before a blank is cut into. -/
theorem cut_word {w r : Text} (hw : IsWord w) (hr : SpaceFirst r) :
    (w ++ r).takeWhile isGraph = w ∧ (w ++ r).dropWhile isGraph = r := by
  have hall : ∀ c ∈ w, isGraph c = true := fun c hc => isSpace_of_isGraph.mpr (hw.graph c hc)
  rw [List.takeWhile_append_of_pos hall, List.dropWhile_append_of_pos hall]
  cases r with
  | nil => simp
  | cons c r =>
    have hc : isGraph c = false := by rw [isGraph, hr c rfl]; rfl
    simp [hc]

/-- **A word is read** as it is, in whatever blanks it stands. -/
theorem getWord_of_words {s : Text} {w : Text} {ws : List Text} (h : words s = w :: ws) :
    ∃ r, getWord ⟨s, false⟩ = (some w, ⟨r, false⟩) ∧ words r = ws := by
  obtain ⟨r, hskip, hw, hr, hws⟩ := exists_word h
  obtain ⟨htake, hdrop⟩ := cut_word hw hr
  refine ⟨r, ?_, hws⟩
  unfold getWord
  rw [if_neg Bool.false_ne_true]
  split
  · rename_i hnil
    rw [hskip] at hnil
    exact absurd (List.append_eq_nil_iff.mp hnil).1 hw.ne_nil
  · rw [hskip, htake, hdrop]

/-- Without a word nothing is read. -/
theorem getWord_of_nil {s : Text} (h : words s = []) :
    getWord ⟨s, false⟩ = (none, ⟨[], true⟩) := by
  unfold getWord
  rw [if_neg Bool.false_ne_true, words_eq_nil.mp h]

theorem getWord_of_failed {s : Istream} (h : s.failed = true) : getWord s = (none, s) := if_pos h

theorem getInt_of_failed {s : Istream} (h : s.failed = true) : getInt s = (none, s) := if_pos h

/-- What is read as a word is one. -/
theorem isWord_of_getWord {s s' : Istream} {w : Text} (h : getWord s = (some w, s')) :
    IsWord w ∧ s.failed = false := by
  obtain ⟨t, failed⟩ := s
  cases failed with
  | true =>
    rw [getWord_of_failed rfl] at h
    cases h
  | false =>
    refine ⟨?_, rfl⟩
    cases hwords : words t with
    | nil =>
      rw [getWord_of_nil hwords] at h
      cases h
    | cons v vs =>
      obtain ⟨r, hr, -⟩ := getWord_of_words hwords
      rw [hr] at h
      cases h
      obtain ⟨-, -, hw, -⟩ := exists_word hwords
      exact hw

theorem fits_of_getDigits {negative : Bool} {t : Text} {n : Int} {s' : Istream}
    (h : getDigits negative t = (some n, s')) : FitsInt n := by
  unfold getDigits at h
  simp only at h
  split at h
  · cases h
    decide
  · cases h
    exact clampInt_fits _

/-- What is read as an `int` is one. -/
theorem fits_of_getInt {s s' : Istream} {n : Int} (h : getInt s = (some n, s')) : FitsInt n := by
  unfold getInt at h
  split at h
  · cases h
  · split at h
    · cases h
    · exact fits_of_getDigits h
    · exact fits_of_getDigits h
    · exact fits_of_getDigits h

/-- Digits before a blank or the end. -/
theorem getDigits_toDigits (negative : Bool) {m : Nat} {r : Text} (hr : SpaceFirst r) {n : Int}
    (hn : n = if negative then -(m : Int) else m) (hfits : FitsInt n) :
    getDigits negative (Nat.toDigits 10 m ++ r) = (some n, ⟨r, false⟩) := by
  have hall : ∀ c ∈ Nat.toDigits 10 m, c.isDigit = true := fun c hc => isDigit_toDigits hc
  have hstop : r.takeWhile Char.isDigit = [] ∧ r.dropWhile Char.isDigit = r := by
    cases r with
    | nil => exact ⟨rfl, rfl⟩
    | cons c r =>
      have hc : c.isDigit = false := by
        by_contra hdigit
        have hspace := isSpace_of_isDigit (eq_true_of_ne_false hdigit)
        rw [hr c rfl] at hspace
        cases hspace
      simp [hc]
  unfold getDigits
  simp only [List.takeWhile_append_of_pos hall, List.dropWhile_append_of_pos hall, hstop.1,
    hstop.2, List.append_nil, Nat.ofDigitChars_ten_toDigits, ← hn]
  rw [if_neg Nat.toDigits_ne_nil, clampInt_of_fits hfits, decide_eq_true hfits]
  rfl

/-- **A number is read back**, in whatever blanks it stands. -/
theorem getInt_of_words {s : Text} {n : Int} {ws : List Text} (hn : FitsInt n)
    (h : words s = decimal n :: ws) :
    ∃ r, getInt ⟨s, false⟩ = (some n, ⟨r, false⟩) ∧ words r = ws := by
  obtain ⟨r, hskip, -, hr, hws⟩ := exists_word h
  refine ⟨r, ?_, hws⟩
  unfold getInt
  rw [if_neg Bool.false_ne_true, hskip]
  cases n with
  | ofNat m =>
    have hread := getDigits_toDigits false (m := m) (n := Int.ofNat m) hr rfl hn
    have hdigits : decimal (Int.ofNat m) = Nat.toDigits 10 m := rfl
    rw [hdigits]
    split
    · rename_i hnil
      exact absurd (List.append_eq_nil_iff.mp hnil).1 Nat.toDigits_ne_nil
    · rename_i hminus
      exact absurd hminus (toDigits_append_ne_cons (by decide))
    · rename_i hplus
      exact absurd hplus (toDigits_append_ne_cons (by decide))
    · exact hread
  | negSucc m =>
    exact getDigits_toDigits true (m := m + 1) hr rfl hn

/-! ## Lines -/

/-- A loop that reads `n` lines; `none` where the reading of a line is not defined. -/
def readLines {L : Type} (line : Istream → Option (L × Istream)) :
    Nat → Istream → Option (List L × Istream)
  | 0, s => some ([], s)
  | n + 1, s =>
    (line s).bind fun (l, s) => (readLines line n s).bind fun (ls, s) => some (l :: ls, s)

variable {L : Type} {f : Istream → Option (L × Istream)}

/-- **Lines are read back**, in whatever blanks their words stand. -/
theorem readLines_of_words {w : L → List Text} {ls : List L} {s : Text} {ws : List Text}
    (hline : ∀ l ∈ ls, ∀ s ws, words s = w l ++ ws →
      ∃ r, f ⟨s, false⟩ = some (l, ⟨r, false⟩) ∧ words r = ws)
    (h : words s = ls.flatMap w ++ ws) :
    ∃ r, readLines f ls.length ⟨s, false⟩ = some (ls, ⟨r, false⟩) ∧ words r = ws := by
  induction ls generalizing s with
  | nil => exact ⟨s, rfl, h⟩
  | cons l ls ih =>
    rw [List.flatMap_cons, List.append_assoc] at h
    obtain ⟨r, hr, hws⟩ := hline l List.mem_cons_self s _ h
    obtain ⟨r', hr', hws'⟩ := ih (fun l hl => hline l (List.mem_cons_of_mem _ hl)) hws
    refine ⟨r', ?_, hws'⟩
    simp only [List.length_cons, readLines, hr, Option.bind_some, hr']

/-- What holds of every line the body reads holds of the lines read, which are as many as asked
for. -/
theorem readLines_all {P : L → Prop} (hline : ∀ s l s', f s = some (l, s') → P l) {n : Nat}
    {s s' : Istream} {ls : List L} (h : readLines f n s = some (ls, s')) :
    ls.length = n ∧ ∀ l ∈ ls, P l := by
  induction n generalizing s ls with
  | zero =>
    cases h
    exact ⟨rfl, fun l hl => by cases hl⟩
  | succ n ih =>
    obtain ⟨⟨l, t⟩, hl, h⟩ := Option.bind_eq_some_iff.mp h
    obtain ⟨⟨ls', t'⟩, hls, h⟩ := Option.bind_eq_some_iff.mp h
    cases h
    obtain ⟨hlength, hall⟩ := ih hls
    exact ⟨congrArg (· + 1) hlength, List.forall_mem_cons.mpr ⟨hline _ _ _ hl, hall⟩⟩

/-- A name that `>>` can read. -/
def IsName (d : String) : Prop := IsWord d.toList

instance (d : String) : Decidable (IsName d) := inferInstanceAs (Decidable (IsWord d.toList))

theorem isWord_decimal (n : Int) : IsWord (decimal n) := by
  refine ⟨?_, fun c hc => ?_⟩
  · cases n with
    | ofNat m => exact Nat.toDigits_ne_nil
    | negSucc m => exact List.cons_ne_nil _ _
  · rcases mem_decimal hc with rfl | hdigit
    · decide
    · exact isSpace_of_isDigit hdigit

end Istream

end CampusNet
