import CampusNet.Lib.CInt
import CampusNet.Lib.WeightedGraph
import Mathlib.Data.List.AList
import Mathlib.Logic.Function.Basic
import Mathlib.Tactic.Set
import Mathlib.Data.List.Induction

/-!
# The shortest path program

Model of `homework13/dijkstra_shortest_path.cpp` from the edges read to the lines printed.
`dist`, `prev` and `vis` are functions of the vertex number; `prev` is -1 where there is none.

* `buildGraph` — the numbering of the names and the adjacency lists.
* `select`, `relaxEdge`, `mainLoop` — one round of Dijkstra's loop, and the loop; `none` is an
  overflow of `dist[u] + w`.
* `walkBack` — the reconstruction loop; `none` is a loop that has not ended after `fuel` rounds.
* `dijkstra` — the whole program.
* `Numbered` / `buildGraph_numbered` — what the numbering and the lists are.
-/

namespace CampusNet.Dijkstra

open WeightedGraph

/-- An input line: two names and a weight. -/
abbrev InputEdge := String × String × Int

/-- `target` is the source's `to`, a keyword here. -/
structure Edge where
  target : Nat
  w : Int
  deriving DecidableEq, Repr

def INF : Int := 1000000000

structure Graph where
  names : List String
  id : AList (fun _ : String => Nat)
  g : List (List Edge)

def Graph.empty : Graph := ⟨[], ∅, []⟩

def getId (G : Graph) (s : String) : Graph × Nat :=
  match G.id.lookup s with
  | some i => (G, i)
  | none =>
    let nid := G.names.length
    (⟨G.names ++ [s], G.id.insert s nid, G.g ++ [[]]⟩, nid)

/-- `g[u].push_back(e)`. -/
def Graph.push (G : Graph) (u : Nat) (e : Edge) : Graph :=
  { G with g := G.g.modify u (· ++ [e]) }

def addEdge (G : Graph) (e : InputEdge) : Graph :=
  let (G, u) := getId G e.1
  let (G, v) := getId G e.2.1
  (G.push u ⟨v, e.2.2⟩).push v ⟨u, e.2.2⟩

def buildGraph (edges : List InputEdge) : Graph := edges.foldl addEdge Graph.empty

/-- `g[u]`. -/
def Graph.adj (G : Graph) (u : Nat) : List Edge := G.g.getD u []

/-! ## The main loop -/

structure Labels where
  dist : Nat → Int
  prev : Nat → Int
  vis : Nat → Bool

def initLabels (src : Nat) : Labels :=
  ⟨Function.update (fun _ => INF) src 0, fun _ => -1, fun _ => false⟩

/-- The unvisited vertex with the least label; `none` is `u == -1`. -/
def select (n : Nat) (L : Labels) : Option Nat :=
  (List.range n).foldl (fun u i =>
    if L.vis i = false ∧ (∀ v ∈ u, L.dist i < L.dist v) then some i else u) none

def relaxEdge (u : Nat) (L : Labels) (e : Edge) : Option Labels := do
  let d ← checkedInt (L.dist u + e.w)
  if d < L.dist e.target then
    some { L with
      dist := Function.update L.dist e.target d, prev := Function.update L.prev e.target u }
  else some L

def visit (u : Nat) (L : Labels) : Labels := { L with vis := Function.update L.vis u true }

/-- `steps` rounds at most. -/
def mainLoop (n : Nat) (adj : Nat → List Edge) : Nat → Labels → Option Labels
  | 0, L => some L
  | steps + 1, L =>
    match select n L with
    | none => some L
    | some u =>
      if L.dist u = INF then some L
      else do
        let L ← (adj u).foldlM (relaxEdge u) (visit u L)
        mainLoop n adj steps L

/-- `for (int x = dst; x != -1; x = prev[x]) path.push_back(x)`. -/
def walkBack (prev : Nat → Int) : Nat → Int → Option (List Nat)
  | 0, _ => none
  | fuel + 1, x =>
    if x = -1 then some [] else (walkBack prev fuel (prev x.toNat)).map (x.toNat :: ·)

inductive Output where
  | noPath
  | route (d : Int) (names : List String)
  deriving DecidableEq, Repr

/-- From the lookup of the two names on. -/
def search (G : Graph) (srcName dstName : String) : Option Output :=
  match G.id.lookup srcName, G.id.lookup dstName with
  | some src, some dst => do
    let n := G.names.length
    let L ← mainLoop n G.adj n (initLabels src)
    if L.dist dst = INF then some .noPath
    else do
      let path ← walkBack L.prev (n + 1) dst
      some (.route (L.dist dst) (path.reverse.map fun i => G.names.getD i ""))
  | _, _ => some .noPath

def dijkstra (edges : List InputEdge) (srcName dstName : String) : Option Output :=
  search (buildGraph edges) srcName dstName

/-! ## The numbering -/

/-- The names are numbered without gap or repetition, and each number has its list. -/
structure Indexed (G : Graph) : Prop where
  lookup : ∀ (s : String) (i : Nat), G.id.lookup s = some i ↔ G.names[i]? = some s
  size : G.g.length = G.names.length

/-- After reading `edges`: the names are those that occur, and `g` holds each edge in both
directions. -/
structure Numbered (edges : List InputEdge) (G : Graph) : Prop extends Indexed G where
  occurs : ∀ s, (∃ i : Nat, G.names[i]? = some s) ↔ Occurs edges s
  adj : ∀ (u v : Nat) (w : Int), ⟨v, w⟩ ∈ G.adj u ↔
    ∃ s t, G.names[u]? = some s ∧ G.names[v]? = some t ∧ Joins edges s t w

/-- `get_id` returns the number of the name; the old numbers and adjacency lists stay. -/
structure GetId (G G' : Graph) (s : String) (i : Nat) : Prop where
  indexed : Indexed G'
  found : G'.names[i]? = some s
  keep : ∀ (j : Nat) (t : String), G.names[j]? = some t → G'.names[j]? = some t
  names : ∀ (j : Nat) (t : String), G'.names[j]? = some t → G.names[j]? = some t ∨ t = s
  adj : ∀ j, G'.adj j = G.adj j

theorem Indexed.injective {G : Graph} (h : Indexed G) {i j : Nat} {s : String}
    (hi : G.names[i]? = some s) (hj : G.names[j]? = some s) : i = j := by
  have hi' := (h.lookup s i).mpr hi
  rw [(h.lookup s j).mpr hj] at hi'
  exact (Option.some.inj hi').symm

theorem getId_spec {G : Graph} (h : Indexed G) (s : String) :
    GetId G (getId G s).1 s (getId G s).2 := by
  unfold getId
  cases hl : G.id.lookup s with
  | some i =>
    exact ⟨h, (h.lookup s i).mp hl, fun _ _ => id, fun _ _ => Or.inl, fun _ => rfl⟩
  | none =>
    have hnew : ∀ i : Nat, G.names[i]? ≠ some s := fun i hi => by
      rw [(h.lookup s i).mpr hi] at hl
      cases hl
    have hget : ∀ (j : Nat) (t : String), (G.names ++ [s])[j]? = some t ↔
        G.names[j]? = some t ∨ (j = G.names.length ∧ t = s) := by
      intro j t
      rw [List.getElem?_append]
      split
      · rename_i hj
        exact ⟨Or.inl, fun hor => hor.resolve_right fun he => by omega⟩
      · rename_i hj
        rw [List.getElem?_eq_none (by omega : G.names.length ≤ j), List.getElem?_singleton]
        split
        · rename_i hzero
          simp only [Option.some.injEq, reduceCtorEq, false_or]
          exact ⟨fun he => ⟨by omega, he.symm⟩, fun he => he.2.symm⟩
        · rename_i hzero
          simp only [reduceCtorEq, false_or, false_iff]
          exact fun he => hzero (by omega)
    refine ⟨⟨fun t i => ?_, by simp [h.size]⟩, (hget _ _).mpr (Or.inr ⟨rfl, rfl⟩),
      fun j t hj => (hget j t).mpr (Or.inl hj), fun j t hj => ((hget j t).mp hj).imp id And.right,
      fun j => ?_⟩
    · show (G.id.insert s G.names.length).lookup t = some i ↔ _
      rw [hget]
      by_cases ht : t = s
      · subst ht
        rw [AList.lookup_insert]
        simp only [Option.some.injEq, and_true]
        exact ⟨fun he => Or.inr he.symm, fun hor => (hor.resolve_left (hnew i)).symm⟩
      · rw [AList.lookup_insert_ne ht, h.lookup]
        exact ⟨Or.inl, fun hor => hor.resolve_right fun he => ht he.2⟩
    · show (G.g ++ [[]]).getD j [] = G.g.getD j []
      simp only [List.getD_eq_getElem?_getD]
      rw [List.getElem?_append]
      split
      · rfl
      · rename_i hj
        rw [List.getElem?_eq_none (by omega : G.g.length ≤ j), List.getElem?_singleton]
        split <;> rfl

theorem adj_push (G : Graph) {u : Nat} (hu : u < G.g.length) (e : Edge) (j : Nat) :
    (G.push u e).adj j = if j = u then G.adj j ++ [e] else G.adj j := by
  unfold Graph.adj Graph.push
  simp only [List.getD_eq_getElem?_getD, List.getElem?_modify]
  by_cases hj : j = u
  · subst hj
    simp [List.getElem?_eq_getElem hu]
  · simp [hj, Ne.symm hj]

theorem mem_adj_push (G : Graph) {u : Nat} (hu : u < G.g.length) (e f : Edge) (j : Nat) :
    f ∈ (G.push u e).adj j ↔ f ∈ G.adj j ∨ (j = u ∧ f = e) := by
  rw [adj_push G hu]
  split
  · rename_i hj
    simp [hj]
  · rename_i hj
    simp [hj]

theorem Indexed.lt {G : Graph} (h : Indexed G) {i : Nat} {s : String}
    (hi : G.names[i]? = some s) : i < G.g.length := by
  rw [h.size]
  exact (List.getElem?_eq_some_iff.mp hi).1

theorem Indexed.push {G : Graph} (h : Indexed G) (u : Nat) (e : Edge) : Indexed (G.push u e) :=
  ⟨h.lookup, (List.length_modify ..).trans h.size⟩

theorem joins_snoc (edges : List InputEdge) (e : InputEdge) (s t : String) (w : Int) :
    Joins (edges ++ [e]) s t w ↔ Joins edges s t w ∨ (s, t, w) = e ∨ (t, s, w) = e := by
  unfold Joins
  simp only [List.mem_append, List.mem_singleton]
  constructor
  · rintro ((h | h) | (h | h)) <;> simp [h]
  · rintro ((h | h) | (h | h)) <;> simp [h]

theorem occurs_snoc (edges : List InputEdge) (e : InputEdge) (s : String) :
    Occurs (edges ++ [e]) s ↔ Occurs edges s ∨ e.1 = s ∨ e.2.1 = s := by
  unfold Occurs
  constructor
  · rintro ⟨f, hf, hs⟩
    rcases List.mem_append.mp hf with hf | hf
    · exact Or.inl ⟨f, hf, hs⟩
    · rw [List.mem_singleton] at hf
      subst hf
      exact Or.inr hs
  · rintro (⟨f, hf, hs⟩ | hs)
    · exact ⟨f, List.mem_append_left _ hf, hs⟩
    · exact ⟨e, List.mem_append_right _ (List.mem_singleton_self e), hs⟩

/-- **One input line** adds its two names and its edge. -/
theorem Numbered.addEdge {edges : List InputEdge} {G : Graph} (h : Numbered edges G)
    (e : InputEdge) : Numbered (edges ++ [e]) (addEdge G e) := by
  have ha := getId_spec h.toIndexed e.1
  have hb := getId_spec ha.indexed e.2.1
  unfold Dijkstra.addEdge
  dsimp only
  set G₁ := (getId G e.1).1
  set u := (getId G e.1).2
  set G₂ := (getId G₁ e.2.1).1
  set v := (getId G₁ e.2.1).2
  have hfound := hb.keep u e.1 ha.found
  have hu := hb.indexed.lt hfound
  have hv := (hb.indexed.push u ⟨v, e.2.2⟩).lt hb.found
  have hkeep : ∀ (i : Nat) (s : String), G.names[i]? = some s → G₂.names[i]? = some s :=
    fun i s hi => hb.keep i s (ha.keep i s hi)
  -- a name that already occurred has its old number
  have hold : ∀ (i : Nat) (s : String), Occurs edges s →
      (G.names[i]? = some s ↔ G₂.names[i]? = some s) := by
    intro i s hs
    refine ⟨hkeep i s, fun hi => ?_⟩
    obtain ⟨j, hj⟩ := (h.occurs s).mpr hs
    rw [hb.indexed.injective hi (hkeep j s hj)]
    exact hj
  have hadj : ∀ i, G₂.adj i = G.adj i := fun i => (hb.adj i).trans (ha.adj i)
  refine ⟨(hb.indexed.push _ _).push _ _, fun s => ?_, fun x y c => ?_⟩
  · show (∃ i : Nat, G₂.names[i]? = some s) ↔ _
    rw [occurs_snoc, ← h.occurs]
    constructor
    · rintro ⟨i, hi⟩
      rcases hb.names i s hi with hi | rfl
      · rcases ha.names i s hi with hi | rfl
        · exact Or.inl ⟨i, hi⟩
        · exact Or.inr (Or.inl rfl)
      · exact Or.inr (Or.inr rfl)
    · rintro (⟨i, hi⟩ | rfl | rfl)
      · exact ⟨i, hkeep i s hi⟩
      · exact ⟨u, hfound⟩
      · exact ⟨v, hb.found⟩
  · rw [mem_adj_push _ hv, mem_adj_push _ hu, hadj, h.adj]
    show _ ↔ ∃ s t, G₂.names[x]? = some s ∧ G₂.names[y]? = some t ∧ _
    constructor
    · rintro ((⟨s, t, hs, ht, hj⟩ | ⟨rfl, he⟩) | ⟨rfl, he⟩)
      · exact ⟨s, t, hkeep x s hs, hkeep y t ht, (joins_snoc ..).mpr (Or.inl hj)⟩
      · cases he
        exact ⟨e.1, e.2.1, hfound, hb.found, (joins_snoc ..).mpr (Or.inr (Or.inl rfl))⟩
      · cases he
        exact ⟨e.2.1, e.1, hb.found, hfound, (joins_snoc ..).mpr (Or.inr (Or.inr rfl))⟩
    · rintro ⟨s, t, hs, ht, hj⟩
      rcases (joins_snoc ..).mp hj with hj | rfl | rfl
      · exact Or.inl (Or.inl ⟨s, t, (hold x s hj.symm.occurs).mpr hs,
          (hold y t hj.occurs).mpr ht, hj⟩)
      · refine Or.inl (Or.inr ⟨hb.indexed.injective hs hfound, ?_⟩)
        rw [hb.indexed.injective ht hb.found]
      · refine Or.inr ⟨hb.indexed.injective hs hb.found, ?_⟩
        rw [hb.indexed.injective ht hfound]

/-- **The graph read** is the input's. -/
theorem buildGraph_numbered (edges : List InputEdge) : Numbered edges (buildGraph edges) := by
  induction edges using List.reverseRecOn with
  | nil =>
    refine ⟨⟨fun s i => ?_, rfl⟩, fun s => ?_, fun u v w => ?_⟩
    · simp [buildGraph, Graph.empty]
    · simp [buildGraph, Graph.empty, Occurs]
    · simp [buildGraph, Graph.empty, Graph.adj]
  | append_singleton edges e ih =>
    unfold buildGraph
    rw [List.foldl_append]
    exact ih.addEdge e

end CampusNet.Dijkstra
