import CampusNet.Homework13.LargeWeights
import CampusNet.Lib.Istream

/-!
# The shortest path program on its texts

Model of `main` of `homework13/dijkstra_shortest_path.cpp` as a function of its input text: the
reading loop, the two names asked for, the printed lines.  The weight of a line has no initial
value, so a run in which one is not read has no defined result.

* `readEdge`, `shortestPath`, `printOutput` — the program.
* `Answer` — what the output says about the graph, for weights of any size.
* `printOutput_injective` — the printed words determine the answer, whatever the names are.
* `shortestPath_answers` — input in any layout is answered, and the answer can be read off.
* `shortestPath_undirected` — neither the order and direction of the input's edges nor the order of
  the two names changes the first word printed.
-/

namespace CampusNet.Dijkstra

open WeightedGraph Istream

/-- `std::cin >> a >> b >> w`. -/
def readEdge (s : Istream) : Option (InputEdge × Istream) :=
  let (a, s) := s.getWord
  let (b, s) := s.getWord
  let (w, s) := s.getInt
  w.map fun w => ((String.ofList (a.getD []), String.ofList (b.getD []), w), s)

/-- The names with arrows between them. -/
def printNames : List String → Text
  | [] => []
  | [a] => a.toList
  | a :: b :: p => a.toList ++ ' ' :: '-' :: '>' :: ' ' :: printNames (b :: p)

def printOutput : Output → Text
  | .noPath => "no path\n".toList
  | .route d path => decimal d ++ '\n' :: (printNames path ++ ['\n'])

/-- `main`. -/
def shortestPath (input : Text) : Option Text :=
  let (m, s) := (ofText input).getInt
  (readLines readEdge (m.getD 0).toNat s).bind fun (edges, s) =>
    let (srcName, s) := s.getWord
    let (dstName, _) := s.getWord
    (dijkstra edges (String.ofList (srcName.getD [])) (String.ofList (dstName.getD []))).map
      printOutput

/-! ## The input -/

def edgeWords (e : InputEdge) : List Text := [e.1.toList, e.2.1.toList, decimal e.2.2]

/-- The name in this place, empty where there is none. -/
def nameAt (ws : List Text) (i : Nat) : String := String.ofList (ws[i]?.getD [])

/-- The words of the input are a number of edges, the edges with weights from 0 to `INT_MAX`, and
the two names. -/
structure Asks (input : Text) (edges : List InputEdge) (s t : String) : Prop where
  edge : ∀ e ∈ edges, IsName e.1 ∧ IsName e.2.1 ∧ 0 ≤ e.2.2 ∧ e.2.2 ≤ INT_MAX
  count : FitsInt edges.length
  layout : ∃ rest, words input = decimal edges.length :: (edges.flatMap edgeWords ++ rest) ∧
    s = nameAt rest 0 ∧ t = nameAt rest 1

theorem readEdge_of_words {e : InputEdge} (he : FitsInt e.2.2) {s : Text} {ws : List Text}
    (h : words s = edgeWords e ++ ws) :
    ∃ r, readEdge ⟨s, false⟩ = some (e, ⟨r, false⟩) ∧ words r = ws := by
  obtain ⟨r1, ha, h1⟩ := getWord_of_words h
  obtain ⟨r2, hb, h2⟩ := getWord_of_words h1
  obtain ⟨r3, hw, h3⟩ := getInt_of_words he h2
  refine ⟨r3, ?_, h3⟩
  simp only [readEdge, ha, hb, hw, Option.map_some, Option.getD_some, String.ofList_toList]

/-- Two words are read, or what there is of them. -/
theorem getWord_twice {s : Text} {ws : List Text} (h : words s = ws) :
    (getWord ⟨s, false⟩).1 = ws[0]? ∧ (getWord (getWord ⟨s, false⟩).2).1 = ws[1]? := by
  cases ws with
  | nil =>
    rw [getWord_of_nil h, getWord_of_failed rfl]
    exact ⟨rfl, rfl⟩
  | cons w ws =>
    obtain ⟨r, hr, hws⟩ := getWord_of_words h
    rw [hr]
    refine ⟨rfl, ?_⟩
    cases ws with
    | nil =>
      rw [getWord_of_nil hws]
      rfl
    | cons v ws =>
      obtain ⟨r', hr', -⟩ := getWord_of_words hws
      rw [hr']
      rfl

/-- **The program reads what it is asked.** -/
theorem Asks.run {input : Text} {edges : List InputEdge} {s t : String}
    (h : Asks input edges s t) :
    shortestPath input = (dijkstra edges s t).map printOutput := by
  obtain ⟨rest, hwords, rfl, rfl⟩ := h.layout
  obtain ⟨s1, hcount, hs1⟩ := getInt_of_words h.count hwords
  have hfits : ∀ e ∈ edges, FitsInt e.2.2 := by
    intro e he
    obtain ⟨-, -, hpos, hmax⟩ := h.edge e he
    exact ⟨by unfold INT_MIN; omega, hmax⟩
  obtain ⟨s2, hlines, hs2⟩ := readLines_of_words (f := readEdge) (w := edgeWords)
    (fun e he _ _ hw => readEdge_of_words (hfits e he) hw) hs1
  obtain ⟨hsrc, hdst⟩ := getWord_twice hs2
  simp only [shortestPath, ofText, hcount, Option.getD_some, Int.toNat_natCast, hlines,
    Option.bind_some, hsrc, hdst, nameAt]

/-! ## The answer -/

/-- What the program finds out: nothing about names that do not occur; without a result where a sum
leaves the `int` range; otherwise the distance and a path, as far as `INF`. -/
inductive Answer (edges : List InputEdge) (s t : String) : Option Output → Prop
  | unknown : ¬Occurs edges s ∨ ¬Occurs edges t → Answer edges s t (some .noPath)
  | overflow : Occurs edges s → Occurs edges t → ¬SumsFit edges s → Answer edges s t none
  | far : Occurs edges s → Occurs edges t → SumsFit edges s →
      (¬∃ d, Walk edges s t d ∧ d < INF) → Answer edges s t (some .noPath)
  | found {d : Int} {path : List String} : Occurs edges s → Occurs edges t → SumsFit edges s →
      IsLeast {d | Walk edges s t d} d → d < INF → Printed edges s t d path →
        Answer edges s t (some (.route d path))

theorem dijkstra_answer {edges : List InputEdge} (hpos : ∀ e ∈ edges, 0 ≤ e.2.2)
    (s t : String) : Answer edges s t (dijkstra edges s t) := by
  have h := buildGraph_numbered edges
  unfold dijkstra
  generalize buildGraph edges = G at h
  by_cases hs : Occurs edges s
  · by_cases ht : Occurs edges t
    · rw [h.search_eq hs ht]
      rcases mainLoop_calm (h.listed hs) initLabels_inv (by simp [Closed]) (by simp [Tame])
        (Nat.zero_add _) with ⟨L, done, hloop, hset, htame⟩ | ⟨u, done, L, rest, hstop⟩
      · have hfits := h.sumsFit hpos hs hset htame
        rw [hloop, Option.bind_some]
        by_cases hinf : L.dist (G.idx t) = INF
        · rw [if_pos hinf]
          exact .far hs ht hfits ((h.dist_eq_inf hpos hs ht hset).mp hinf)
        · have hmem : G.idx t ∈ done := by
            by_contra hout
            exact hinf (hset.rest _ hout)
          have hfin := hset.finite _ hmem
          obtain ⟨p, hback, hp⟩ := readBack h hs ht hset hmem
          rw [if_neg hinf, hback]
          refine .found hs ht hfits ⟨hp.walk, fun d hd => ?_⟩ hfin hp
          -- a walk of `INF` and more is no shorter either
          by_contra hlt
          have := (Numbered.short_walk hpos hset hd (by omega)).2
          omega
      · obtain ⟨hnone, hlong⟩ := h.overflows hpos hs hstop
        rw [hnone]
        exact .overflow hs ht hlong
    · have hnone := (h.lookup_none t).mpr ht
      unfold search
      rw [hnone, h.lookup_idx hs]
      exact .unknown (Or.inr ht)
  · have hnone := (h.lookup_none s).mpr hs
    unfold search
    rw [hnone]
    exact .unknown (Or.inl hs)

/-! ## The printed words -/

/-- An output whose names can be read back. -/
def Legible : Output → Prop
  | .noPath => True
  | .route _ path => path ≠ [] ∧ ∀ a ∈ path, IsName a

def arrow : Text := ['-', '>']

/-- The names and the arrows. -/
def arrows : List String → List Text
  | [] => []
  | [a] => [a.toList]
  | a :: b :: p => a.toList :: arrow :: arrows (b :: p)

theorem words_printNames {path : List String} (h : ∀ a ∈ path, IsName a) {s : Text}
    (hs : SpaceFirst s) : words (printNames path ++ s) = arrows path ++ words s := by
  have hspace : isSpace ' ' = true := by decide
  have harrow : IsWord arrow := by decide +kernel
  fun_induction printNames path with
  | case1 => rfl
  | case2 a => exact words_append (h a List.mem_cons_self) hs
  | case3 a b p ih =>
    have hlayout : (a.toList ++ ' ' :: '-' :: '>' :: ' ' :: printNames (b :: p)) ++ s =
        a.toList ++ ' ' :: (arrow ++ ' ' :: (printNames (b :: p) ++ s)) := by simp [arrow]
    rw [hlayout, words_append (h a List.mem_cons_self) (spaceFirst_cons hspace),
      words_space hspace, words_append harrow (spaceFirst_cons hspace), words_space hspace,
      ih fun a ha => h a (List.mem_cons_of_mem _ ha)]
    rfl

theorem words_printOutput {d : Int} {path : List String} (h : ∀ a ∈ path, IsName a) :
    words (printOutput (.route d path)) = decimal d :: arrows path := by
  have hline : isSpace '\n' = true := by decide
  show words (decimal d ++ '\n' :: (printNames path ++ ['\n'])) = _
  rw [words_append (isWord_decimal d) (spaceFirst_cons hline), words_space hline,
    words_printNames h (spaceFirst_cons hline), words_space hline, words_nil, List.append_nil]

/-- Every second element, from the first. -/
def everySecond {α : Type} : List α → List α
  | [] => []
  | [a] => [a]
  | a :: _ :: l => a :: everySecond l

/-- Every second word is a name, even where a name is an arrow. -/
theorem everySecond_arrows (path : List String) :
    everySecond (arrows path) = path.map String.toList := by
  fun_induction arrows path with
  | case1 => rfl
  | case2 a => rfl
  | case3 a b p ih =>
    rw [everySecond, ih]
    rfl

theorem arrows_injective {p q : List String} (h : arrows p = arrows q) : p = q := by
  have hnames := congrArg everySecond h
  rw [everySecond_arrows, everySecond_arrows] at hnames
  exact List.map_injective_iff.mpr (fun _ _ => String.toList_injective) hnames

/-- **The printed words determine the answer.** -/
theorem printOutput_injective {o o' : Output} (ho : Legible o) (ho' : Legible o')
    (h : words (printOutput o) = words (printOutput o')) : o = o' := by
  have hno : words (printOutput .noPath) = ["no".toList, "path".toList] := by decide +kernel
  have hnumber : ∀ d : Int, decimal d ≠ "no".toList := by
    intro d hd
    have hn : 'n' ∈ decimal d := by
      rw [hd]
      decide
    rcases mem_decimal hn with hminus | hdigit
    · cases hminus
    · cases hdigit
  cases o with
  | noPath =>
    cases o' with
    | noPath => rfl
    | route d path =>
      rw [hno, words_printOutput ho'.2] at h
      exact absurd (List.cons.inj h).1.symm (hnumber d)
  | route d path =>
    cases o' with
    | noPath =>
      rw [hno, words_printOutput ho.2] at h
      exact absurd (List.cons.inj h).1 (hnumber d)
    | route d' path' =>
      rw [words_printOutput ho.2, words_printOutput ho'.2] at h
      obtain ⟨hd, hpath⟩ := List.cons.inj h
      rw [decimal_injective hd, arrows_injective hpath]

theorem Steps.occurs {edges : List InputEdge} {p : List String} {ws : List Int}
    (h : Steps edges p ws) {a : String} (ha : a ∈ p) : p = [a] ∨ Occurs edges a := by
  induction h with
  | single b => exact Or.inl (by rw [List.mem_singleton.mp ha])
  | cons hj _ ih =>
    right
    rcases List.mem_cons.mp ha with rfl | ha
    · exact hj.symm.occurs
    · rcases ih ha with heq | hocc
      · obtain rfl := (List.cons.inj heq).1
        exact hj.occurs
      · exact hocc

/-- The names of a path occur in the graph. -/
theorem Answer.legible {edges : List InputEdge} (hname : ∀ a, Occurs edges a → IsName a)
    {s t : String} {o : Output} (h : Answer edges s t (some o)) : Legible o := by
  cases h with
  | unknown _ => exact trivial
  | far _ _ _ _ => exact trivial
  | @found d path hs _ _ _ _ hp =>
    refine ⟨fun hnil => ?_, fun a ha => hname a ?_⟩
    · have hhead := hp.starts
      rw [hnil] at hhead
      cases hhead
    · obtain ⟨ws, hws, -⟩ := hp.cost
      rcases Steps.occurs hws ha with hsingle | hocc
      · have hhead := hp.starts
        rw [hsingle] at hhead
        cases hhead
        exact hs
      · exact hocc

theorem Asks.nonneg {input : Text} {edges : List InputEdge} {s t : String}
    (h : Asks input edges s t) : ∀ e ∈ edges, 0 ≤ e.2.2 := fun e he => (h.edge e he).2.2.1

theorem Asks.isName {input : Text} {edges : List InputEdge} {s t : String}
    (h : Asks input edges s t) (a : String) (ha : Occurs edges a) : IsName a := by
  obtain ⟨e, he, rfl | rfl⟩ := ha
  · exact (h.edge e he).1
  · exact (h.edge e he).2.1

theorem Asks.answer {input : Text} {edges : List InputEdge} {s t : String}
    (h : Asks input edges s t) :
    ∃ out, shortestPath input = out.map printOutput ∧ Answer edges s t out ∧
      ∀ o, out = some o → Legible o := by
  have hanswer := dijkstra_answer h.nonneg s t
  refine ⟨dijkstra edges s t, h.run, hanswer, fun o ho => ?_⟩
  rw [ho] at hanswer
  exact hanswer.legible h.isName

/-- **Input in any layout is answered**: the printed text tells which of the cases holds, gives the
distance and gives the path, since no other answer prints the same words. -/
theorem shortestPath_answers {input : Text} {edges : List InputEdge} {s t : String}
    (h : Asks input edges s t) :
    ∃ out, shortestPath input = out.map printOutput ∧ Answer edges s t out ∧
      ∀ o, out = some o → Legible o ∧
        ∀ o', Legible o' → words (printOutput o') = words (printOutput o) → o' = o := by
  obtain ⟨out, hrun, hanswer, hlegible⟩ := h.answer
  exact ⟨out, hrun, hanswer, fun o ho =>
    ⟨hlegible o ho, fun o' ho' hwords => printOutput_injective ho' (hlegible o ho) hwords⟩⟩

/-- A name that is an arrow, and blanks of several kinds. -/
def arrowInput : Text := "2\n a  -> 4\n-> b 0 a\tb".toList

theorem arrowInput_asks : Asks arrowInput [("a", "->", 4), ("->", "b", 0)] "a" "b" := by
  have hname : ∀ d ∈ ["a", "b", "->"], IsName d := by decide +kernel
  refine ⟨?_, by decide, ["a".toList, "b".toList], by decide +kernel, rfl, rfl⟩
  simp [hname, INT_MAX]

/-- What is printed can only mean the path over the arrow. -/
theorem shortestPath_answers_arrow :
    shortestPath arrowInput = some "4\na -> -> -> b\n".toList ∧
      Answer [("a", "->", 4), ("->", "b", 0)] "a" "b" (some (.route 4 ["a", "->", "b"])) := by
  have hrun : shortestPath arrowInput = some "4\na -> -> -> b\n".toList := by decide +kernel
  have hname : ∀ d ∈ ["a", "->", "b"], IsName d := by decide +kernel
  obtain ⟨out, hout, hanswer, hread⟩ := shortestPath_answers arrowInput_asks
  rw [hrun] at hout
  cases out with
  | none => cases hout
  | some o =>
    have hprinted : "4\na -> -> -> b\n".toList = printOutput o := Option.some.inj hout
    obtain ⟨-, honly⟩ := hread o rfl
    have hroute : Output.route 4 ["a", "->", "b"] = o := by
      refine honly _ ⟨by decide, hname⟩ ?_
      rw [← hprinted]
      decide +kernel
    rw [hroute]
    exact ⟨hrun, hanswer⟩

/-! ## The same graph -/

theorem occurs_congr {edges edges' : List InputEdge}
    (h : ∀ u v w, Joins edges u v w ↔ Joins edges' u v w) (a : String) :
    Occurs edges a ↔ Occurs edges' a := by
  have hjoins : ∀ E : List InputEdge, Occurs E a ↔ ∃ b w, Joins E b a w := by
    intro E
    constructor
    · rintro ⟨⟨b, c, w⟩, he, rfl | rfl⟩
      · exact ⟨c, w, Or.inr he⟩
      · exact ⟨b, w, Or.inl he⟩
    · rintro ⟨b, w, hj⟩
      exact hj.occurs
  rw [hjoins, hjoins]
  exact exists_congr fun b => exists_congr fun w => h b a w

/-- The first word printed. -/
def firstWord (o : Output) : Option Text := (words (printOutput o)).head?

/-- **The first word** is the distance, if it is below `INF`. -/
theorem Answer.firstWord_eq {edges : List InputEdge} (hname : ∀ a, Occurs edges a → IsName a)
    {s t : String} {o : Output} (h : Answer edges s t (some o)) :
    (∃ d, Occurs edges s ∧ Occurs edges t ∧ IsLeast {d | Walk edges s t d} d ∧ d < INF ∧
      firstWord o = some (decimal d)) ∨
    (¬(Occurs edges s ∧ Occurs edges t ∧ ∃ d, Walk edges s t d ∧ d < INF) ∧
      firstWord o = some "no".toList) := by
  have hlegible := h.legible hname
  have hno : firstWord .noPath = some "no".toList := by decide +kernel
  cases h with
  | unknown hout =>
    refine Or.inr ⟨?_, hno⟩
    rintro ⟨hs, ht, -⟩
    exact hout.elim (fun hns => hns hs) fun hnt => hnt ht
  | far _ _ _ hfar => exact Or.inr ⟨fun hnear => hfar hnear.2.2, hno⟩
  | found hs ht _ hleast hlt _ =>
    refine Or.inl ⟨_, hs, ht, hleast, hlt, ?_⟩
    rw [firstWord, words_printOutput hlegible.2]
    rfl

/-- Walks there and walks back. -/
theorem walk_either {edges edges' : List InputEdge}
    (h : ∀ u v w, Joins edges u v w ↔ Joins edges' u v w) {s t s' t' : String}
    (hst : s' = s ∧ t' = t ∨ s' = t ∧ t' = s) (d : Int) :
    Walk edges s t d ↔ Walk edges' s' t' d := by
  have hback : ∀ u v w, Joins edges' u v w ↔ Joins edges u v w := fun u v w => (h u v w).symm
  rcases hst with ⟨rfl, rfl⟩ | ⟨rfl, rfl⟩
  · exact ⟨Walk.congr h, Walk.congr hback⟩
  · exact ⟨fun hw => (hw.congr h).symm, fun hw => (hw.congr hback).symm⟩

/-- **The graph is undirected**: two inputs with weights from 0 to `INT_MAX`, whose edges are the
same up to order, direction and repetition, and that ask for the same two names in either order,
make the program print the same first word, where both runs have a result. -/
theorem shortestPath_undirected {input input' : Text} {edges edges' : List InputEdge}
    {s t s' t' : String} (h : Asks input edges s t) (h' : Asks input' edges' s' t')
    (hedges : ∀ u v w, Joins edges u v w ↔ Joins edges' u v w)
    (hst : s' = s ∧ t' = t ∨ s' = t ∧ t' = s) {text text' : Text}
    (hrun : shortestPath input = some text) (hrun' : shortestPath input' = some text') :
    (words text).head? = (words text').head? := by
  obtain ⟨o, hout, rfl⟩ := Option.map_eq_some_iff.mp (h.run.symm.trans hrun)
  obtain ⟨o', hout', rfl⟩ := Option.map_eq_some_iff.mp (h'.run.symm.trans hrun')
  have hanswer := (hout ▸ dijkstra_answer h.nonneg s t).firstWord_eq h.isName
  have hanswer' := (hout' ▸ dijkstra_answer h'.nonneg s' t').firstWord_eq h'.isName
  show firstWord o = firstWord o'
  have hwalk := walk_either hedges hst
  have hoccurs : (Occurs edges' s' ∧ Occurs edges' t') ↔ (Occurs edges s ∧ Occurs edges t) := by
    rw [← occurs_congr hedges, ← occurs_congr hedges]
    rcases hst with ⟨rfl, rfl⟩ | ⟨rfl, rfl⟩
    · exact Iff.rfl
    · exact and_comm
  rcases hanswer with ⟨d, hs, ht, hleast, hlt, hfirst⟩ | ⟨hnone, hfirst⟩
  · rcases hanswer' with ⟨d', hs', ht', hleast', hlt', hfirst'⟩ | ⟨hnone', hfirst'⟩
    · rw [hfirst, hfirst']
      have hdd : d = d' := by
        apply le_antisymm
        · exact hleast.2 ((hwalk d').mpr hleast'.1)
        · exact hleast'.2 ((hwalk d).mp hleast.1)
      rw [hdd]
    · obtain ⟨hs', ht'⟩ := hoccurs.mpr ⟨hs, ht⟩
      exact absurd ⟨hs', ht', d, (hwalk d).mp hleast.1, hlt⟩ hnone'
  · rcases hanswer' with ⟨d', hs', ht', hleast', hlt', hfirst'⟩ | ⟨hnone', hfirst'⟩
    · obtain ⟨hs, ht⟩ := hoccurs.mp ⟨hs', ht'⟩
      exact absurd ⟨hs, ht, d', (hwalk d').mpr hleast'.1, hlt'⟩ hnone
    · rw [hfirst, hfirst']

/-- The edges turned round and in the other order, one of them twice, and the names exchanged. -/
def turnedInput : Text := "3 b -> 0 b -> 0 -> a 4 b a".toList

theorem shortestPath_undirected_arrow :
    (words "4\na -> -> -> b\n".toList).head? = (words "4\nb -> -> -> a\n".toList).head? := by
  have hasks : Asks turnedInput [("b", "->", 0), ("b", "->", 0), ("->", "a", 4)] "b" "a" := by
    refine ⟨?_, by decide, ["b".toList, "a".toList], by decide +kernel, rfl, rfl⟩
    have hname : ∀ d ∈ ["a", "b", "->"], IsName d := by decide +kernel
    simp [hname, INT_MAX]
  have hrun : shortestPath arrowInput = some "4\na -> -> -> b\n".toList := by decide +kernel
  have hrun' : shortestPath turnedInput = some "4\nb -> -> -> a\n".toList := by decide +kernel
  refine shortestPath_undirected arrowInput_asks hasks (fun u v w => ?_) (Or.inr ⟨rfl, rfl⟩) hrun
    hrun'
  simp only [Joins, List.mem_cons, List.not_mem_nil, Prod.mk.injEq, or_false]
  constructor
  · rintro ((h | h) | (h | h)) <;> simp [h]
  · rintro ((h | h | h) | (h | h | h)) <;> simp [h]

end CampusNet.Dijkstra
