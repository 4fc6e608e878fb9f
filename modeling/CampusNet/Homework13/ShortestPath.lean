import CampusNet.Homework13.Greedy
import Mathlib.Order.Bounds.Basic

/-!
# The printed path is a shortest path

* `Numbered.bounded` — the graph by numbers is the input with its names replaced.
* `readBack` — the path that the reconstruction loop prints.
* `dijkstra_correct` — the program from input to output: `no path` exactly when there is none,
  and otherwise the least cost of a walk, with a path of that cost.
-/

namespace CampusNet.Dijkstra

open WeightedGraph

/-- The number of a name. -/
def Graph.idx (G : Graph) (s : String) : Nat := (G.id.lookup s).getD 0

/-- `names[i]`. -/
def Graph.name (G : Graph) (i : Nat) : String := G.names.getD i ""

theorem Graph.name_eq {G : Graph} {i : Nat} {s : String} (h : G.names[i]? = some s) :
    G.name i = s := by
  unfold Graph.name
  rw [List.getD_eq_getElem?_getD, h]
  rfl

section

variable {edges : List InputEdge} {G : Graph}

theorem Numbered.lookup_none (h : Numbered edges G) (s : String) :
    G.id.lookup s = none ↔ ¬ Occurs edges s := by
  rw [← h.occurs, not_exists, Option.eq_none_iff_forall_ne_some]
  exact forall_congr' fun i => not_congr (h.lookup s i)

theorem Numbered.idx_eq (h : Numbered edges G) {i : Nat} {s : String}
    (hi : G.names[i]? = some s) : G.idx s = i := by
  unfold Graph.idx
  rw [(h.lookup s i).mpr hi]
  rfl

theorem Numbered.getElem?_idx (h : Numbered edges G) {s : String} (hs : Occurs edges s) :
    G.names[G.idx s]? = some s := by
  obtain ⟨i, hi⟩ := (h.occurs s).mpr hs
  rw [h.idx_eq hi]
  exact hi

theorem Numbered.name_idx (h : Numbered edges G) {s : String} (hs : Occurs edges s) :
    G.name (G.idx s) = s := Graph.name_eq (h.getElem?_idx hs)

/-- **The graph by numbers** is the input with its names replaced. -/
theorem Numbered.listed (h : Numbered edges G) {s : String} (hs : Occurs edges s) :
    Listed (relabel G.idx edges) G.names.length (G.idx s) G.adj := by
  have hlt : ∀ t, Occurs edges t → G.idx t < G.names.length :=
    fun t ht => (List.getElem?_eq_some_iff.mp (h.getElem?_idx ht)).1
  refine ⟨hlt s hs, fun {u v w} hj => ?_, fun u v w => ?_⟩
  · obtain ⟨a, b, _, rfl, hab⟩ := joins_of_relabel hj
    exact hlt b hab.occurs
  · rw [h.adj]
    constructor
    · rintro ⟨a, b, ha, hb, hj⟩
      rw [← h.idx_eq ha, ← h.idx_eq hb]
      exact hj.relabel G.idx
    · intro hj
      obtain ⟨a, b, rfl, rfl, hab⟩ := joins_of_relabel hj
      exact ⟨a, b, h.getElem?_idx hab.symm.occurs, h.getElem?_idx hab.occurs, hab⟩

theorem Numbered.bounded (h : Numbered edges G) (hpos : ∀ e ∈ edges, 0 ≤ e.2.2)
    (hsum : total edges < INF) {s : String} (hs : Occurs edges s) :
    Bounded (relabel G.idx edges) G.names.length (G.idx s) G.adj := by
  obtain ⟨hsource, hlt, hadj⟩ := h.listed hs
  refine ⟨fun e he => ?_, ?_, hsource, hlt, hadj⟩
  · obtain ⟨f, hf, rfl⟩ := List.mem_map.mp he
    exact hpos f hf
  · rw [total_relabel]
    exact hsum

/-- Distinct visited numbers have distinct names. -/
theorem Numbered.nodup_names (h : Numbered edges G) {p : List Nat} (hnd : p.Nodup)
    (hlt : ∀ i ∈ p, i < G.names.length) : (p.map G.name).Nodup := by
  refine hnd.map_on fun i hi j hj heq => ?_
  have hi' := List.getElem?_eq_getElem (hlt i hi)
  have hj' := List.getElem?_eq_getElem (hlt j hj)
  rw [Graph.name_eq hi', Graph.name_eq hj'] at heq
  rw [← heq] at hj'
  exact h.injective hi' hj'

/-- A printed path: from `s` to `t`, over edges that cost `d`. -/
structure Printed (edges : List InputEdge) (s t : String) (d : Int) (path : List String) :
    Prop where
  starts : path.head? = some s
  ends : path.getLast? = some t
  nodup : path.Nodup
  cost : ∃ ws, Steps edges path ws ∧ ws.sum = d

/-- A printed path is a walk of its cost. -/
theorem Printed.walk {s t : String} {d : Int} {path : List String} (h : Printed edges s t d path) :
    Walk edges s t d := by
  obtain ⟨ws, hws, hcost⟩ := h.cost
  rw [← hcost, ← List.sum_reverse]
  apply hws.reverse.walk
  · rw [List.head?_reverse]
    exact h.ends
  · rw [List.getLast?_reverse]
    exact h.starts

/-- The loop on the graph read, from the number of an occurring name. -/
theorem Numbered.settles (h : Numbered edges G) (hpos : ∀ e ∈ edges, 0 ≤ e.2.2)
    (hsum : total edges < INF) {s : String} (hs : Occurs edges s) :
    ∃ L done, mainLoop G.names.length G.adj G.names.length (initLabels (G.idx s)) = some L ∧
      Settled (relabel G.idx edges) G.names.length (G.idx s) L done ∧
      ∀ t d, Walk edges s t d → G.idx t ∈ done ∧ L.dist (G.idx t) ≤ d := by
  have hB := h.bounded hpos hsum hs
  obtain ⟨L, done, hloop, hset⟩ := mainLoop_settles hB
  refine ⟨L, done, hloop, hset, ?_⟩
  -- every walk of names is a walk of numbers
  intro t d hd
  exact hset.walk hB hset.source_mem (hd.relabel G.idx)

/-- A settled vertex is traced back to the source. -/
theorem Settled.traced {E : List (Nat × Nat × Int)} {n src : Nat} {L : Labels} {done : List Nat}
    (h : Settled E n src L done) {v : Nat} (hv : v ∈ done) :
    ∃ p, p ⊆ done ∧ Route E src L v p ∧ p.length ≤ n ∧ walkBack L.prev (n + 1) v = some p := by
  obtain ⟨p, hsub, hp⟩ := h.route v hv
  have hlen : p.length ≤ n :=
    (List.subperm_of_subset hp.nodup hsub).length_le.trans h.visited.length_le
  refine ⟨p, hsub, hp, hlen, ?_⟩
  cases p with
  | nil => cases hp.head
  | cons x q =>
    obtain rfl : x = v := Option.some.inj hp.head
    exact walkBack_traced hp.traced (by rw [List.length_cons] at hlen; omega)

/-- **The reconstruction** of a settled vertex's path. -/
theorem readBack (h : Numbered edges G) {s t : String} (hs : Occurs edges s)
    (ht : Occurs edges t) {L : Labels} {done : List Nat}
    (hset : Settled (relabel G.idx edges) G.names.length (G.idx s) L done)
    (hmem : G.idx t ∈ done) :
    ∃ p, walkBack L.prev (G.names.length + 1) (G.idx t) = some p ∧
      Printed edges s t (L.dist (G.idx t)) (p.reverse.map G.name) := by
  obtain ⟨p, hsub, hp, -, hback⟩ := hset.traced hmem
  obtain ⟨ws, hws, hsum⟩ := hp.cost
  refine ⟨p, hback, ?_, ?_, ?_, ws.reverse, ?_, ?_⟩
  · rw [List.head?_map, List.head?_reverse, hp.last, Option.map_some, h.name_idx hs]
  · rw [List.getLast?_map, List.getLast?_reverse, hp.head, Option.map_some, h.name_idx ht]
  · refine h.nodup_names (List.nodup_reverse.mpr hp.nodup) fun i hi => ?_
    exact hset.bound i (hsub (List.mem_reverse.mp hi))
  · have hsteps := hws.reverse.relabel G.name
    rw [relabel_relabel fun v hv => h.name_idx hv] at hsteps
    exact hsteps
  · rw [List.sum_reverse]
    exact hsum

end

/-- **The program is correct**: it prints `no path` exactly when a name is unknown or no walk
joins the two, and otherwise the least cost of a walk and a path of exactly that cost. -/
theorem dijkstra_correct (edges : List InputEdge) (srcName dstName : String)
    (hpos : ∀ e ∈ edges, 0 ≤ e.2.2) (hsum : total edges < INF) :
    ∃ out, dijkstra edges srcName dstName = some out ∧
      (out = .noPath ↔ ¬ Occurs edges srcName ∨ ¬ Occurs edges dstName ∨
        ¬ ∃ d, Walk edges srcName dstName d) ∧
      ∀ d path, out = .route d path →
        IsLeast {d | Walk edges srcName dstName d} d ∧
          Printed edges srcName dstName d path := by
  have h := buildGraph_numbered edges
  unfold dijkstra search
  generalize buildGraph edges = G at h
  cases hsrc : G.id.lookup srcName with
  | none =>
    refine ⟨.noPath, rfl, iff_of_true rfl (Or.inl ((h.lookup_none srcName).mp hsrc)), ?_⟩
    intro d path hout
    cases hout
  | some src =>
    cases hdst : G.id.lookup dstName with
    | none =>
      refine ⟨.noPath, rfl, iff_of_true rfl (Or.inr (Or.inl ((h.lookup_none _).mp hdst))), ?_⟩
      intro d path hout
      cases hout
    | some dst =>
      have hs : Occurs edges srcName := (h.occurs _).mp ⟨src, (h.lookup _ _).mp hsrc⟩
      have ht : Occurs edges dstName := (h.occurs _).mp ⟨dst, (h.lookup _ _).mp hdst⟩
      obtain rfl : G.idx srcName = src := h.idx_eq ((h.lookup _ _).mp hsrc)
      obtain rfl : G.idx dstName = dst := h.idx_eq ((h.lookup _ _).mp hdst)
      obtain ⟨L, done, hloop, hset, hwalk⟩ := h.settles hpos hsum hs
      dsimp only
      rw [hloop]
      by_cases hinf : L.dist (G.idx dstName) = INF
      · have hnone : ¬ ∃ d, Walk edges srcName dstName d := by
          rintro ⟨d, hd⟩
          have := hset.finite _ (hwalk _ d hd).1
          omega
        refine ⟨.noPath, if_pos hinf, iff_of_true rfl (Or.inr (Or.inr hnone)), ?_⟩
        intro d path hout
        cases hout
      · have hmem : G.idx dstName ∈ done :=
          Classical.byContradiction fun hout => hinf (hset.rest _ hout)
        obtain ⟨p, hback, hp⟩ := readBack h hs ht hset hmem
        refine ⟨.route (L.dist (G.idx dstName)) (p.reverse.map G.name), ?_, ?_, ?_⟩
        · show (if L.dist (G.idx dstName) = INF then _ else _) = _
          rw [if_neg hinf, hback]
          rfl
        · refine iff_of_false (fun he => by cases he) ?_
          rintro (hout | hout | hout)
          · exact hout hs
          · exact hout ht
          · exact hout ⟨_, hp.walk⟩
        · intro d path hout
          cases hout
          exact ⟨⟨hp.walk, fun d hd => (hwalk _ d hd).2⟩, hp⟩

/-- Parallel edges, a loop and weights of zero. -/
def smallNet : List InputEdge :=
  [("a", "b", 4), ("b", "a", 1), ("b", "b", 0), ("b", "c", 0), ("c", "a", 2)]

/-- From `a` to `c` through `b`, for 1. -/
theorem dijkstra_correct_small :
    IsLeast {d | Walk smallNet "a" "c" d} 1 ∧ Printed smallNet "a" "c" 1 ["a", "b", "c"] := by
  obtain ⟨out, hout, _, hroute⟩ :=
    dijkstra_correct smallNet "a" "c" (by decide) (by decide +kernel)
  refine hroute 1 _ (Option.some.inj (hout.symm.trans ?_))
  decide +kernel

end CampusNet.Dijkstra
