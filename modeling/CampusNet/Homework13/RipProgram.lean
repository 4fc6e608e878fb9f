import CampusNet.Homework13.RipUpdate
import CampusNet.Lib.Istream

/-!
# The RIP update program on its texts

Model of `main` of `homework13/rip_update.cpp` as a function of its input text: the two reading
loops, the merge, the printed table.  The cost variables of the loops have no initial value, so a
run in which a cost is not read has no defined result.

* `readRoute`, `readAdvert` — one round of each reading loop; `readInput` — both loops.
* `printTable` — the output, which has the layout of the input's first half.
* `ripUpdate_reads` — input in any layout gives the merged table.
* `ripUpdate_fixpoint` — whatever the input, the output is a table that the program reads back; with
  the advertisement that it read behind it, it prints the same table again.
-/

namespace CampusNet.Rip

open KeyedFold Istream

/-- `std::cin >> dest >> item.next_hop >> item.cost`. -/
def readRoute (s : Istream) : Option ((String × String × Int) × Istream) :=
  let (dest, s) := s.getWord
  let (nextHop, s) := s.getWord
  let (cost, s) := s.getInt
  cost.map fun cost =>
    ((String.ofList (dest.getD []), String.ofList (nextHop.getD []), cost), s)

/-- `std::cin >> dest >> cost`. -/
def readAdvert (s : Istream) : Option ((String × Int) × Istream) :=
  let (dest, s) := s.getWord
  let (cost, s) := s.getInt
  cost.map fun cost => ((String.ofList (dest.getD []), cost), s)

def printRoute (e : String × RouteItem) : Text :=
  e.1.toList ++ ' ' :: (e.2.nextHop.toList ++ ' ' :: (decimal e.2.cost ++ ['\n']))

def printTable (t : Table) : Text :=
  decimal t.size ++ '\n' :: t.toList.flatMap printRoute

/-- The two reading loops. -/
def readInput (input : Text) : Option (List (String × String × Int) × List (String × Int)) :=
  let (n1, s) := (ofText input).getInt
  (readLines readRoute (n1.getD 0).toNat s).bind fun (r1, s) =>
    let (n2, s) := s.getInt
    (readLines readAdvert (n2.getD 0).toNat s).map fun (r2, _) => (r1, r2)

/-- `main`. -/
def ripUpdate (input : Text) : Option Text :=
  (readInput input).map fun (r1, r2) => printTable (merge (readTable r1) (readAdvertised r2))

/-! ## Lines -/

structure IsRoute (l : String × String × Int) : Prop where
  dest : IsName l.1
  nextHop : IsName l.2.1
  cost : FitsInt l.2.2

structure IsAdvert (l : String × Int) : Prop where
  dest : IsName l.1
  cost : FitsInt l.2

def routeWords (l : String × String × Int) : List Text :=
  [l.1.toList, l.2.1.toList, decimal l.2.2]

def advertWords (l : String × Int) : List Text := [l.1.toList, decimal l.2]

theorem readRoute_of_words {l : String × String × Int} (hl : IsRoute l) {s : Text}
    {ws : List Text} (h : words s = routeWords l ++ ws) :
    ∃ r, readRoute ⟨s, false⟩ = some (l, ⟨r, false⟩) ∧ words r = ws := by
  obtain ⟨r1, hdest, h1⟩ := getWord_of_words h
  obtain ⟨r2, hhop, h2⟩ := getWord_of_words h1
  obtain ⟨r3, hcost, h3⟩ := getInt_of_words hl.cost h2
  refine ⟨r3, ?_, h3⟩
  simp only [readRoute, hdest, hhop, hcost, Option.map_some, Option.getD_some,
    String.ofList_toList]

theorem readAdvert_of_words {l : String × Int} (hl : IsAdvert l) {s : Text} {ws : List Text}
    (h : words s = advertWords l ++ ws) :
    ∃ r, readAdvert ⟨s, false⟩ = some (l, ⟨r, false⟩) ∧ words r = ws := by
  obtain ⟨r1, hdest, h1⟩ := getWord_of_words h
  obtain ⟨r2, hcost, h2⟩ := getInt_of_words hl.cost h1
  refine ⟨r2, ?_, h2⟩
  simp only [readAdvert, hdest, hcost, Option.map_some, Option.getD_some, String.ofList_toList]

/-- A stream that has not failed has been read from. -/
theorem getWord_of_not_failed {s s' : Istream} {w : Option Text} (hw : getWord s = (w, s'))
    (hs' : s'.failed = false) : ∃ v, w = some v ∧ IsWord v := by
  cases w with
  | some v => exact ⟨v, rfl, (isWord_of_getWord hw).1⟩
  | none =>
    unfold getWord at hw
    split at hw
    · rename_i hfailed
      cases hw
      rw [hfailed] at hs'
      cases hs'
    · split at hw
      · cases hw
        cases hs'
      · cases hw

theorem not_failed_of_getInt {s s' : Istream} {n : Int} (h : getInt s = (some n, s')) :
    s.failed = false := by
  by_contra hfailed
  rw [getInt_of_failed (eq_true_of_ne_false hfailed)] at h
  cases h

theorem isRoute_of_readRoute {s s' : Istream} {l : String × String × Int}
    (h : readRoute s = some (l, s')) : IsRoute l := by
  unfold readRoute at h
  cases hw1 : getWord s with
  | mk dest s1 =>
    cases hw2 : getWord s1 with
    | mk nextHop s2 =>
      cases hn : getInt s2 with
      | mk cost s3 =>
        simp only [hw1, hw2, hn] at h
        cases cost with
        | none => cases h
        | some cost =>
          cases h
          obtain ⟨v2, rfl, hv2⟩ := getWord_of_not_failed hw2 (not_failed_of_getInt hn)
          obtain ⟨v1, rfl, hv1⟩ := getWord_of_not_failed hw1 (isWord_of_getWord hw2).2
          refine ⟨?_, ?_, fits_of_getInt hn⟩
          · rw [IsName, Option.getD_some, String.toList_ofList]
            exact hv1
          · rw [IsName, Option.getD_some, String.toList_ofList]
            exact hv2

theorem isAdvert_of_readAdvert {s s' : Istream} {l : String × Int}
    (h : readAdvert s = some (l, s')) : IsAdvert l := by
  unfold readAdvert at h
  cases hw : getWord s with
  | mk dest s1 =>
    cases hn : getInt s1 with
    | mk cost s2 =>
      simp only [hw, hn] at h
      cases cost with
      | none => cases h
      | some cost =>
        cases h
        obtain ⟨v, rfl, hv⟩ := getWord_of_not_failed hw (not_failed_of_getInt hn)
        refine ⟨?_, fits_of_getInt hn⟩
        rw [IsName, Option.getD_some, String.toList_ofList]
        exact hv

/-! ## The printed table -/

/-- A table whose text can be read: names where names are expected, costs in range. -/
def Readable (t : Table) : Prop :=
  ∀ (d : String) (e : RouteItem), t[d]? = some e →
    IsName d ∧ IsName e.nextHop ∧ 0 ≤ e.cost ∧ e.cost ≤ 16

/-- The entries of a table, as input lines. -/
def tableLines (t : Table) : List (String × String × Int) :=
  t.toList.map fun e => (e.1, e.2.nextHop, e.2.cost)

theorem readable_readTable {lines : List (String × String × Int)} (h : ∀ l ∈ lines, IsRoute l) :
    Readable (readTable lines) := by
  induction lines using List.reverseRecOn with
  | nil => exact fun d e he => by simp [readTable] at he
  | append_singleton lines l ih =>
    intro d e he
    rw [readTable, List.foldl_append, List.foldl_cons, List.foldl_nil, getElem?_insert] at he
    split at he
    · rename_i hd
      cases he
      have hl := h l (List.mem_append_right _ (List.mem_singleton_self l))
      exact ⟨hd ▸ hl.dest, hl.nextHop, clampCost_range _⟩
    · exact ih (fun l hl => h l (List.mem_append_left _ hl)) d e he

theorem isName_readAdvertised {lines : List (String × Int)} (h : ∀ l ∈ lines, IsAdvert l)
    {d : String} {c : Int} (hd : (readAdvertised lines)[d]? = some c) : IsName d := by
  induction lines using List.reverseRecOn with
  | nil => simp [readAdvertised] at hd
  | append_singleton lines l ih =>
    rw [readAdvertised, List.foldl_append, List.foldl_cons, List.foldl_nil, getElem?_insert] at hd
    split at hd
    · rename_i hdl
      have hl := h l (List.mem_append_right _ (List.mem_singleton_self l))
      exact hdl ▸ hl.dest
    · exact ih (fun l hl => h l (List.mem_append_left _ hl)) hd

theorem isName_R2 : IsName "R2" := by decide +kernel

theorem merged_nextHop (c : Int) (o : Option RouteItem) :
    (merged c o).nextHop = "R2" ∨ o = some (merged c o) := by
  cases o with
  | none => exact Or.inl rfl
  | some cur =>
    rw [merged]
    split
    · rename_i hr2
      exact Or.inl hr2
    · split
      · exact Or.inl rfl
      · exact Or.inr rfl

/-- The merge keeps a table readable. -/
theorem Readable.merge {t : Table} (ht : Readable t) {adv : Advertised}
    (hadv : ∀ (d : String) (c : Int), adv[d]? = some c → IsName d) :
    Readable (Rip.merge t adv) := by
  intro d e he
  rw [getElem?_merge] at he
  cases hd : adv[d]? with
  | none =>
    rw [hd] at he
    exact ht d e he
  | some c =>
    rw [hd] at he
    obtain rfl := Option.some.inj he
    refine ⟨hadv d c hd, ?_, merged_range c fun e he => (ht d e he).2.2⟩
    rcases merged_nextHop c t[d]? with hr2 | hold
    · rw [hr2]
      exact isName_R2
    · exact (ht d _ hold).2.1

theorem words_printRoute {e : String × RouteItem} (hd : IsName e.1) (hn : IsName e.2.nextHop)
    (s : Text) :
    words (printRoute e ++ s) = routeWords (e.1, e.2.nextHop, e.2.cost) ++ words s := by
  have hspace : isSpace ' ' = true := by decide
  have hline : isSpace '\n' = true := by decide
  have hlayout : printRoute e ++ s = e.1.toList ++ ' ' :: (e.2.nextHop.toList ++ ' ' ::
      (decimal e.2.cost ++ '\n' :: s)) := by simp [printRoute]
  rw [hlayout, words_append hd (spaceFirst_cons hspace), words_space hspace,
    words_append hn (spaceFirst_cons hspace), words_space hspace,
    words_append (isWord_decimal _) (spaceFirst_cons hline), words_space hline]
  rfl

/-- **The words of the output** are the number of entries and the entries' lines. -/
theorem words_printTable {t : Table} (ht : Readable t) (tail : Text) :
    words (printTable t ++ tail) =
      decimal t.size :: ((tableLines t).flatMap routeWords ++ words tail) := by
  have hline : isSpace '\n' = true := by decide
  have hentries : ∀ l : List (String × RouteItem), (∀ e ∈ l, IsName e.1 ∧ IsName e.2.nextHop) →
      words (l.flatMap printRoute ++ tail) =
        (l.map fun e => (e.1, e.2.nextHop, e.2.cost)).flatMap routeWords ++ words tail := by
    intro l hl
    induction l with
    | nil => rfl
    | cons e l ih =>
      obtain ⟨hd, hn⟩ := hl e List.mem_cons_self
      rw [List.flatMap_cons, List.append_assoc, words_printRoute hd hn,
        ih fun e he => hl e (List.mem_cons_of_mem _ he), List.map_cons, List.flatMap_cons,
        List.append_assoc]
  have hlayout : printTable t ++ tail =
      decimal t.size ++ '\n' :: (t.toList.flatMap printRoute ++ tail) := by simp [printTable]
  rw [hlayout, words_append (isWord_decimal _) (spaceFirst_cons hline), words_space hline,
    hentries t.toList]
  · rfl
  · intro e he
    have hentry := ht e.1 e.2 (Std.ExtTreeMap.mem_toList_iff_getElem?_eq_some.mp he)
    exact ⟨hentry.1, hentry.2.1⟩

/-- **The lines of a table give the table back.** -/
theorem readTable_tableLines {t : Table} (ht : Readable t) : readTable (tableLines t) = t := by
  have hkeyed : Keyed (fun (t : Table) k => t[k]?)
      (fun t (l : String × RouteItem) => t.insert l.1 ⟨l.2.nextHop, clampCost l.2.cost⟩)
      (fun e _ => some ⟨e.nextHop, clampCost e.cost⟩) :=
    ⟨fun t k e => by simp, fun t k e j hj => by simp [getElem?_insert, hj]⟩
  have hnodup : (t.toList.map Prod.fst).Nodup := by
    rw [Std.ExtTreeMap.map_fst_toList_eq_keys]
    exact Std.ExtTreeMap.nodup_keys
  apply Std.ExtTreeMap.ext_getElem?
  intro d
  rw [readTable, tableLines, List.foldl_map]
  cases hd : t[d]? with
  | none =>
    have hnot : d ∉ t.toList.map Prod.fst := by
      intro hmem
      obtain ⟨⟨k, e⟩, he, rfl⟩ := List.mem_map.mp hmem
      rw [Std.ExtTreeMap.mem_toList_iff_getElem?_eq_some.mp he] at hd
      cases hd
    refine (hkeyed.foldl_other hnot).trans ?_
    simp
  | some e =>
    have hmem := Std.ExtTreeMap.mem_toList_iff_getElem?_eq_some.mpr hd
    refine (hkeyed.foldl_own hnodup hmem).trans ?_
    obtain ⟨-, -, h0, h16⟩ := ht d e hd
    have hclamp : clampCost e.cost = e.cost := by
      unfold clampCost RIP_INFINITY
      rw [if_neg (by omega), if_neg (by omega)]
    rw [hclamp]

/-! ## The program -/

/-- Both halves of the input, in any layout. -/
theorem readInput_of_words {r1 : List (String × String × Int)} {r2 : List (String × Int)}
    (h1 : ∀ l ∈ r1, IsRoute l) (h2 : ∀ l ∈ r2, IsAdvert l) (hn1 : FitsInt r1.length)
    (hn2 : FitsInt r2.length) {input : Text}
    (h : words input = decimal r1.length :: (r1.flatMap routeWords ++
      decimal r2.length :: r2.flatMap advertWords)) : readInput input = some (r1, r2) := by
  obtain ⟨s1, hcount1, hs1⟩ := getInt_of_words hn1 h
  obtain ⟨s2, hlines1, hs2⟩ := readLines_of_words (f := readRoute) (w := routeWords)
    (fun l hl _ _ hw => readRoute_of_words (h1 l hl) hw) hs1
  obtain ⟨s3, hcount2, hs3⟩ := getInt_of_words hn2 hs2
  rw [← List.append_nil (r2.flatMap advertWords)] at hs3
  obtain ⟨s4, hlines2, -⟩ := readLines_of_words (f := readAdvert) (w := advertWords)
    (fun l hl _ _ hw => readAdvert_of_words (h2 l hl) hw) hs3
  simp only [readInput, ofText, hcount1, Option.getD_some, Int.toNat_natCast, hlines1,
    Option.bind_some, hcount2, hlines2, Option.map_some]

/-- What has been read, from any text. -/
theorem readInput_all {input : Text} {r1 : List (String × String × Int)} {r2 : List (String × Int)}
    (h : readInput input = some (r1, r2)) :
    (∀ l ∈ r1, IsRoute l) ∧ (∀ l ∈ r2, IsAdvert l) ∧ FitsInt (r2.length : Int) := by
  unfold readInput at h
  cases hcount1 : (ofText input).getInt with
  | mk n1 s1 =>
    simp only [hcount1] at h
    obtain ⟨⟨r1', s2⟩, hlines1, h⟩ := Option.bind_eq_some_iff.mp h
    cases hcount2 : s2.getInt with
    | mk n2 s3 =>
      simp only [hcount2] at h
      obtain ⟨⟨r2', s4⟩, hlines2, h⟩ := Option.map_eq_some_iff.mp h
      cases h
      obtain ⟨-, hr1⟩ := readLines_all (fun _ _ _ hl => isRoute_of_readRoute hl) hlines1
      obtain ⟨hlength, hr2⟩ := readLines_all (fun _ _ _ hl => isAdvert_of_readAdvert hl) hlines2
      refine ⟨hr1, hr2, ?_⟩
      cases n2 with
      | none =>
        rw [hlength]
        decide
      | some n =>
        have hfits := fits_of_getInt hcount2
        rw [hlength, Option.getD_some]
        unfold FitsInt INT_MIN INT_MAX at hfits ⊢
        omega

theorem ripUpdate_eq {input : Text} {r1 : List (String × String × Int)} {r2 : List (String × Int)}
    (h : readInput input = some (r1, r2)) :
    ripUpdate input = some (printTable (merge (readTable r1) (readAdvertised r2))) := by
  rw [ripUpdate, h]
  rfl

/-- **Input in any layout**: the program merges the tables whose lines the words of its input
spell, whatever blanks stand between them. -/
theorem ripUpdate_reads {r1 : List (String × String × Int)} {r2 : List (String × Int)}
    (h1 : ∀ l ∈ r1, IsRoute l) (h2 : ∀ l ∈ r2, IsAdvert l) (hn1 : FitsInt r1.length)
    (hn2 : FitsInt r2.length) {input : Text}
    (h : words input = decimal r1.length :: (r1.flatMap routeWords ++
      decimal r2.length :: r2.flatMap advertWords)) :
    ripUpdate input = some (printTable (merge (readTable r1) (readAdvertised r2))) ∧
      words (printTable (merge (readTable r1) (readAdvertised r2))) =
        decimal (merge (readTable r1) (readAdvertised r2)).size ::
          (tableLines (merge (readTable r1) (readAdvertised r2))).flatMap routeWords := by
  have hreadable := (readable_readTable h1).merge fun d c hd => isName_readAdvertised h2 hd
  have hwords := words_printTable hreadable []
  rw [List.append_nil, words_nil, List.append_nil] at hwords
  exact ⟨ripUpdate_eq (readInput_of_words h1 h2 hn1 hn2 h), hwords⟩

/-- One entry and one line of the advertisement, on two lines of the input. -/
theorem ripUpdate_reads_one :
    ripUpdate "1\nn1 R3 4\n1 n1 2".toList =
      some (printTable (merge (readTable [("n1", "R3", 4)]) (readAdvertised [("n1", 2)]))) := by
  have hname : IsName "n1" := by decide +kernel
  have hhop : IsName "R3" := by decide +kernel
  refine (ripUpdate_reads ?_ ?_ (by decide)
    (by decide) (by decide +kernel)).1
  · exact List.forall_mem_singleton.mpr ⟨hname, hhop, by decide⟩
  · exact List.forall_mem_singleton.mpr ⟨hname, by decide⟩

/-- **The output is an input**: whatever text the program has read its two tables from, the text it
prints, with the advertisement read there behind it in any layout, makes it print the same text
again, as long as the number of entries is an `int`. -/
theorem ripUpdate_fixpoint {input : Text} {r1 : List (String × String × Int)}
    {r2 : List (String × Int)} (h : readInput input = some (r1, r2))
    (hsize : FitsInt (merge (readTable r1) (readAdvertised r2)).size) {tail : Text}
    (htail : words tail = decimal r2.length :: r2.flatMap advertWords) :
    ∃ out, ripUpdate input = some out ∧ ripUpdate (out ++ tail) = some out := by
  obtain ⟨h1, h2, hn2⟩ := readInput_all h
  refine ⟨_, ripUpdate_eq h, ?_⟩
  have hreadable := (readable_readTable h1).merge fun d c hd => isName_readAdvertised h2 hd
  have hwords := words_printTable hreadable tail
  have hlength : (tableLines (merge (readTable r1) (readAdvertised r2))).length =
      (merge (readTable r1) (readAdvertised r2)).size := by
    rw [tableLines, List.length_map, Std.ExtTreeMap.length_toList]
  rw [htail, ← hlength] at hwords
  have hlines : ∀ l ∈ tableLines (merge (readTable r1) (readAdvertised r2)), IsRoute l := by
    intro l hl
    obtain ⟨e, he, rfl⟩ := List.mem_map.mp hl
    obtain ⟨hd, hn, h0, h16⟩ :=
      hreadable e.1 e.2 (Std.ExtTreeMap.mem_toList_iff_getElem?_eq_some.mp he)
    refine ⟨hd, hn, ?_⟩
    show FitsInt e.2.cost
    unfold FitsInt INT_MIN INT_MAX
    omega
  rw [ripUpdate_eq (readInput_of_words hlines h2 (hlength ▸ hsize) hn2 hwords),
    readTable_tableLines hreadable, merge_merge]

/-- An empty table and one advertised destination, the second time on lines of its own. -/
theorem ripUpdate_fixpoint_one :
    ∃ out, ripUpdate "0 1 n1 2".toList = some out ∧
      ripUpdate (out ++ "1\nn1\n2\n".toList) = some out := by
  have hread : readInput "0 1 n1 2".toList = some ([], [("n1", 2)]) := by decide +kernel
  have htail : words "1\nn1\n2\n".toList =
      decimal ([("n1", (2 : Int))].length : Int) :: [("n1", 2)].flatMap advertWords := by
    decide +kernel
  refine ripUpdate_fixpoint hread ?_ htail
  have hsize : (merge (readTable []) (readAdvertised [("n1", 2)])).size = 1 := by decide +kernel
  rw [hsize]
  decide

end CampusNet.Rip
