import CampusNet.Homework13.ShortestPath

/-!
# Weights of any size

`INF` is an ordinary number as well as the mark of an unreached vertex, and the relaxation adds an
unchecked weight to a label.

* `Settled.short_walk` — every walk below `INF` is seen, whatever the other weights are.
* `Round.least` — the label of the vertex being visited is its distance.
* `SumsFit`, `judges_iff` — the loop runs without overflow and `no path` is printed exactly for
  unconnected names, if and only if no distance below `INF` and an edge behind it leave the `int`
  range, and the destination, if connected, is nearer than `INF`.
-/

namespace CampusNet.Dijkstra

open WeightedGraph

section

variable {E : List (Nat × Nat × Int)} {n src : Nat}

/-- **A walk below `INF`** over non-negative edges ends at a visited vertex, and costs at least its
label. -/
theorem Settled.short_walk {E' : List (Nat × Nat × Int)} {L : Labels} {done : List Nat}
    (h : Settled E n src L done) (hsub : ∀ u v w, Joins E' u v w → Joins E u v w ∧ 0 ≤ w)
    {v : Nat} {d : Int} (hw : Walk E' src v d) (hd : d < INF) : v ∈ done ∧ L.dist v ≤ d := by
  refine hw.label (R := fun v d => d < INF → v ∈ done ∧ L.dist v ≤ d) ?_ ?_ hd
  · intro _
    exact ⟨h.source_mem, le_of_eq h.source.1⟩
  · intro b c d w hb hj hdw
    obtain ⟨hj, hpos⟩ := hsub b c w hj
    obtain ⟨hb, hle⟩ := hb (by omega)
    have hc := h.closed b hb c w hj
    refine ⟨?_, by omega⟩
    by_contra hout
    have := h.rest c hout
    omega

/-- A visited vertex is reached by its route. -/
theorem Inv.walk_of_mem {L : Labels} {done : List Nat} (h : Inv E n src L done) {v : Nat}
    (hv : v ∈ done) : Walk E src v (L.dist v) := by
  obtain ⟨p, -, hp⟩ := h.route v hv
  obtain ⟨ws, hws, hsum⟩ := hp.cost
  rw [← hsum]
  exact hws.walk hp.head hp.last

/-- **No walk is shorter**: it leaves the vertices visited before over an edge already relaxed. -/
theorem Round.least {u : Nat} {done : List Nat} {L : Labels} (h : Round E n src u done L)
    (hpos : ∀ a b w, Joins E a b w → 0 ≤ w) {d : Int} (hw : Walk E src u d) : L.dist u ≤ d := by
  have hrule := hw.label (R := fun v d => L.dist u ≤ d ∨ (v ∈ done ∧ L.dist v ≤ d)) ?_ ?_
  · refine hrule.resolve_right ?_
    rintro ⟨hmem, -⟩
    exact (List.nodup_cons.mp h.nodup).1 hmem
  · by_cases hsrc : src ∈ done
    · exact Or.inr ⟨hsrc, le_of_eq h.source.1⟩
    · have := h.label_le hsrc
      rw [h.source.1] at this
      exact Or.inl this
  · intro b c d w hb hj
    have hw := hpos b c w hj
    rcases hb with hb | ⟨hb, hle⟩
    · exact Or.inl (by omega)
    · have hc := h.closed b hb c w hj
      by_cases hmem : c ∈ done
      · exact Or.inr ⟨hmem, by omega⟩
      · have := h.label_le hmem
        exact Or.inl (by omega)

end

section

variable {edges : List InputEdge} {G : Graph}

theorem Numbered.lookup_idx (h : Numbered edges G) {s : String} (hs : Occurs edges s) :
    G.id.lookup s = some (G.idx s) := (h.lookup _ _).mpr (h.getElem?_idx hs)

/-- Walks of names are walks of numbers, over any of the edges. -/
theorem Numbered.walk_iff (h : Numbered edges G) {part : List InputEdge} (hsub : part ⊆ edges)
    {s t : String} (hs : Occurs edges s) (ht : Occurs edges t) (d : Int) :
    Walk (relabel G.idx part) (G.idx s) (G.idx t) d ↔ Walk part s t d := by
  constructor
  · intro hw
    have hname : ∀ v, Occurs part v → G.name (G.idx v) = v := by
      rintro v ⟨e, he, hv⟩
      exact h.name_idx ⟨e, hsub he, hv⟩
    have hback := hw.relabel G.name
    rw [relabel_relabel hname, h.name_idx hs, h.name_idx ht] at hback
    exact hback
  · exact fun hw => hw.relabel G.idx

/-- The lookups of two names that occur succeed, and the loop starts. -/
theorem Numbered.search_eq (h : Numbered edges G) {s t : String} (hs : Occurs edges s)
    (ht : Occurs edges t) : search G s t =
      (mainLoop G.names.length G.adj G.names.length (initLabels (G.idx s))).bind fun L =>
        if L.dist (G.idx t) = INF then some .noPath
        else (walkBack L.prev (G.names.length + 1) (G.idx t)).bind fun path =>
          some (.route (L.dist (G.idx t)) (path.reverse.map G.name)) := by
  unfold search
  rw [h.lookup_idx hs, h.lookup_idx ht]
  rfl

/-- No distance below `INF` from `s`, with an edge behind it, leaves the `int` range. -/
def SumsFit (edges : List InputEdge) (s : String) : Prop :=
  ∀ a b w d, Joins edges a b w → IsLeast {d | Walk edges s a d} d → d < INF → d + w ≤ INT_MAX

/-- The weights by names and by numbers are the same. -/
theorem joins_nonneg (hpos : ∀ e ∈ edges, 0 ≤ e.2.2) {f : String → Nat} {u v : Nat} {w : Int}
    (hj : Joins (relabel f edges) u v w) : 0 ≤ w := by
  obtain ⟨a, b, -, -, hj | hj⟩ := joins_of_relabel hj
  · exact hpos _ hj
  · exact hpos _ hj

/-- In the settled graph every name nearer than `INF` is visited. -/
theorem Numbered.short_walk (hpos : ∀ e ∈ edges, 0 ≤ e.2.2) {s t : String} {L : Labels}
    {done : List Nat} (hset : Settled (relabel G.idx edges) G.names.length (G.idx s) L done)
    {d : Int} (hd : Walk edges s t d) (hlt : d < INF) :
    G.idx t ∈ done ∧ L.dist (G.idx t) ≤ d := by
  apply hset.short_walk _ (hd.relabel G.idx) hlt
  intro a b w hj
  exact ⟨hj, joins_nonneg hpos hj⟩

/-- A label is `INF` exactly when every walk costs so much. -/
theorem Numbered.dist_eq_inf (h : Numbered edges G) (hpos : ∀ e ∈ edges, 0 ≤ e.2.2)
    {s t : String} (hs : Occurs edges s) (ht : Occurs edges t) {L : Labels} {done : List Nat}
    (hset : Settled (relabel G.idx edges) G.names.length (G.idx s) L done) :
    L.dist (G.idx t) = INF ↔ ¬∃ d, Walk edges s t d ∧ d < INF := by
  constructor
  · rintro hinf ⟨d, hd, hlt⟩
    have := hset.finite _ (Numbered.short_walk hpos hset hd hlt).1
    omega
  · intro hfar
    refine hset.rest _ fun hmem => hfar ⟨L.dist (G.idx t), ?_, hset.finite _ hmem⟩
    exact (h.walk_iff (List.Subset.refl edges) hs ht _).mp (hset.walk_of_mem hmem)

/-- A loop that met no bad edge met every sum behind a distance below `INF`. -/
theorem Numbered.sumsFit (h : Numbered edges G) (hpos : ∀ e ∈ edges, 0 ≤ e.2.2) {s : String}
    (hs : Occurs edges s) {L : Labels} {done : List Nat}
    (hset : Settled (relabel G.idx edges) G.names.length (G.idx s) L done)
    (htame : Tame (relabel G.idx edges) L done) : SumsFit edges s := by
  intro a b w d hj hleast hlt
  obtain ⟨hmem, -⟩ := Numbered.short_walk hpos hset hleast.1 hlt
  have hd : d ≤ L.dist (G.idx a) :=
    hleast.2 ((h.walk_iff (List.Subset.refl edges) hs hj.symm.occurs _).mp (hset.walk_of_mem hmem))
  have hsum := (htame _ hmem _ w (hj.relabel G.idx)).2
  omega

/-- **A bad edge** is too long for its sum: the loop does not return, and the sum is one behind a
distance. -/
theorem Numbered.overflows (h : Numbered edges G) (hpos : ∀ e ∈ edges, 0 ≤ e.2.2) {s : String}
    (hs : Occurs edges s) {out : Option Labels} {u : Nat} {done : List Nat} {L : Labels}
    {rest : Nat}
    (hstop : StopsAt (relabel G.idx edges) G.names.length (G.idx s) G.adj out u done L rest) :
    out = none ∧ ¬SumsFit edges s := by
  refine ⟨hstop.overflow (h.listed hs) fun v w => joins_nonneg hpos, ?_⟩
  obtain ⟨v, w, hj, hbad⟩ := hstop.bad
  have hlong := hbad.resolve_left (not_lt.mpr (joins_nonneg hpos hj))
  intro hfits
  obtain ⟨a, b, rfl, rfl, hab⟩ := joins_of_relabel hj
  have hmem : G.idx a ∈ G.idx a :: done := List.mem_cons_self
  have hleast : IsLeast {d | Walk edges s a d} (L.dist (G.idx a)) := by
    constructor
    · apply (h.walk_iff (List.Subset.refl edges) hs hab.symm.occurs _).mp
      exact hstop.round.walk_of_mem hmem
    · intro d hd
      exact hstop.round.least (fun _ _ _ => joins_nonneg hpos) (hd.relabel G.idx)
  have := hfits a b w _ hab hleast (hstop.round.finite _ hmem)
  omega

/-- A loop that has settled every vertex judges by `INF`. -/
theorem Numbered.judges (h : Numbered edges G) {s t : String} (hs : Occurs edges s)
    (ht : Occurs edges t) {L : Labels} {done : List Nat}
    (hloop : mainLoop G.names.length G.adj G.names.length (initLabels (G.idx s)) = some L)
    (hset : Settled (relabel G.idx edges) G.names.length (G.idx s) L done) :
    ∃ out, search G s t = some out ∧ (out = .noPath ↔ L.dist (G.idx t) = INF) := by
  rw [h.search_eq hs ht, hloop]
  by_cases hinf : L.dist (G.idx t) = INF
  · exact ⟨.noPath, if_pos hinf, iff_of_true rfl hinf⟩
  · have hmem : G.idx t ∈ done := by
      by_contra hout
      exact hinf (hset.rest _ hout)
    obtain ⟨p, hback, -⟩ := readBack h hs ht hset hmem
    refine ⟨.route (L.dist (G.idx t)) (p.reverse.map G.name), ?_, ?_⟩
    · rw [Option.bind_some, if_neg hinf, hback]
      rfl
    · exact iff_of_false (by simp) hinf

end

/-- **Large weights**: the loop runs without overflow and `no path` is printed exactly for names
that are not connected, if and only if every sum it meets fits and the destination, if connected,
is nearer than `INF`. -/
theorem judges_iff (edges : List InputEdge) (s t : String)
    (hw : ∀ e ∈ edges, 0 ≤ e.2.2 ∧ e.2.2 ≤ INT_MAX) (hs : Occurs edges s)
    (ht : Occurs edges t) :
    (∃ out, dijkstra edges s t = some out ∧ (out = .noPath ↔ ¬∃ d, Walk edges s t d)) ↔
      SumsFit edges s ∧ ((∃ d, Walk edges s t d) → ∃ d, Walk edges s t d ∧ d < INF) := by
  have h := buildGraph_numbered edges
  have hpos : ∀ e ∈ edges, 0 ≤ e.2.2 := fun e he => (hw e he).1
  unfold dijkstra
  generalize buildGraph edges = G at h
  rcases mainLoop_calm (h.listed hs) initLabels_inv (by simp [Closed]) (by simp [Tame])
    (Nat.zero_add _) with ⟨L, done, hloop, hset, htame⟩ | ⟨u, done, L, rest, hstop⟩
  · obtain ⟨out, hout, hjudge⟩ := h.judges hs ht hloop hset
    rw [h.dist_eq_inf hpos hs ht hset] at hjudge
    constructor
    · rintro ⟨out', hout', hright⟩
      obtain rfl : out = out' := Option.some.inj (hout.symm.trans hout')
      refine ⟨h.sumsFit hpos hs hset htame, fun hconn => ?_⟩
      by_contra hfar
      exact hright.mp (hjudge.mpr hfar) hconn
    · rintro ⟨-, hconn⟩
      refine ⟨out, hout, hjudge.trans (not_congr ⟨?_, hconn⟩)⟩
      rintro ⟨d, hd, -⟩
      exact ⟨d, hd⟩
  · obtain ⟨hnone, hlong⟩ := h.overflows hpos hs hstop
    apply iff_of_false
    · rintro ⟨out, hout, -⟩
      rw [h.search_eq hs ht, hnone] at hout
      cases hout
    · exact fun hright => hlong hright.1

/-- The longest edge that fits behind a distance of 1. -/
def longEdge : List InputEdge := [("a", "b", 1), ("b", "c", 2147483646)]

/-- Its sum is `INT_MAX`. -/
theorem judges_iff_longEdge : SumsFit longEdge "a" := by
  have hab : Walk longEdge "a" "b" (0 + 1) := Walk.nil.snoc (Or.inl (by decide))
  have hout : dijkstra longEdge "a" "b" = some (.route 1 ["a", "b"]) := by decide +kernel
  have hiff := judges_iff longEdge "a" "b" (by decide) ⟨("a", "b", 1), by decide, by decide⟩
    ⟨("a", "b", 1), by decide, by decide⟩
  exact (hiff.mp ⟨_, hout, iff_of_false (by simp) (fun hno => hno ⟨_, hab⟩)⟩).1

/-- One edge as long as `INF`. -/
def farEdge : List InputEdge := [("a", "b", 1000000000)]

/-- Its ends are connected and there is `no path`; and one more than `longEdge` overflows. -/
theorem farEdge_misjudged :
    (¬∃ out, dijkstra farEdge "a" "b" = some out ∧
      (out = .noPath ↔ ¬∃ d, Walk farEdge "a" "b" d)) ∧
    dijkstra farEdge "a" "b" = some .noPath ∧
    dijkstra [("a", "b", 1), ("b", "c", 2147483647)] "a" "c" = none := by
  have hfar : dijkstra farEdge "a" "b" = some .noPath := by decide +kernel
  refine ⟨?_, hfar, by decide +kernel⟩
  rintro ⟨out, hout, hright⟩
  rw [hfar] at hout
  obtain rfl := Option.some.inj hout
  have hab : Walk farEdge "a" "b" (0 + 1000000000) := Walk.nil.snoc (Or.inl (by decide))
  exact hright.mp rfl ⟨_, hab⟩

end CampusNet.Dijkstra
