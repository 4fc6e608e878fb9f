import CampusNet.Homework13.LargeWeights
import CampusNet.Homework13.NegativeEdges

/-!
# The reconstruction loop

The program reads any weights.  `prev` leads back to the source as long as no visited vertex is
relaxed again.

* `nonneg` — the edges that are not negative.
* `NoNegativeNear` — no negative edge at a vertex that such edges join to the source for less than
  `INF`.
* `Settled.leadsBack`, `Trap.not_leadsBack` — the two ways the main loop can end.
* `reconstruct_iff` — after a loop without overflow, every reached vertex has a path of at most `n`
  vertices that starts at the source, exactly under that condition.
-/

namespace CampusNet.Dijkstra

open WeightedGraph

/-- The edges that are not negative. -/
def nonneg {V : Type} (edges : List (V × V × Int)) : List (V × V × Int) :=
  edges.filter fun e => 0 ≤ e.2.2

theorem joins_of_nonneg {V : Type} {edges : List (V × V × Int)} {u v : V} {w : Int} :
    Joins (nonneg edges) u v w ↔ Joins edges u v w ∧ 0 ≤ w := by
  simp only [Joins, nonneg, List.mem_filter, decide_eq_true_eq]
  exact (or_and_right).symm

theorem nonneg_relabel {V V' : Type} (f : V → V') (edges : List (V × V × Int)) :
    nonneg (relabel f edges) = relabel f (nonneg edges) := by
  unfold nonneg relabel
  rw [List.filter_map]
  rfl

/-- Steps that leave their later vertices over no negative edge. -/
theorem Steps.nonneg {V : Type} {edges : List (V × V × Int)} {p : List V} {ws : List Int}
    (h : Steps edges p ws) (hpos : ∀ y ∈ p.tail, ∀ x w, Joins edges y x w → 0 ≤ w) :
    Steps (nonneg edges) p ws := by
  induction h with
  | single a => exact .single a
  | @cons a b p w ws hj _ ih =>
    rw [List.tail_cons, List.forall_mem_cons] at hpos
    exact .cons (joins_of_nonneg.mpr ⟨hj, hpos.1 a w hj.symm⟩) (ih hpos.2)

/-- No negative edge at a vertex that the others join to `s` for less than `INF`. -/
def NoNegativeNear (edges : List InputEdge) (s : String) : Prop :=
  ∀ a b w d, Walk (nonneg edges) s a d → d < INF → Joins edges a b w → 0 ≤ w

section

variable {E : List (Nat × Nat × Int)} {n src : Nat}

/-- The label of the vertex just visited is the cost of a walk over edges that are not negative. -/
theorem Round.walk_nonneg {u : Nat} {done : List Nat} {L : Labels} (h : Round E n src u done L)
    (htame : Tame E L done) : Walk (nonneg E) src u (L.dist u) := by
  obtain ⟨p, hsub, hp⟩ := h.route u List.mem_cons_self
  obtain ⟨ws, hws, hsum⟩ := hp.cost
  rw [← hsum]
  refine (Steps.nonneg hws fun y hy x w hj => ?_).walk hp.head hp.last
  -- behind the head the route keeps to the vertices visited before
  have hmem : y ∈ done := by
    have hne : y ≠ u := by
      cases p with
      | nil => cases hp.head
      | cons x q =>
        obtain rfl : x = u := Option.some.inj hp.head
        exact fun hyx => (List.nodup_cons.mp hp.nodup).1 (hyx ▸ hy)
    exact (List.mem_cons.mp (hsub (List.mem_of_mem_tail hy))).resolve_left hne
  exact (htame y hmem x w hj).1

/-- **A loop that comes to a bad edge** and returns has met a negative one, and ends in a trap. -/
theorem StopsAt.trapped {adj : Nat → List Edge} (hE : Listed E n src adj) {L' : Labels} {u : Nat}
    {done : List Nat} {L : Labels} {rest : Nat}
    (h : StopsAt E n src adj (some L') u done L rest) :
    (∃ z w, Joins E u z w ∧ w < 0) ∧
      ∃ q d before done, Trap E n q d before done L' ∧ L'.dist q < d := by
  have hneg : ∃ z w, Joins E u z w ∧ w < 0 := by
    by_contra hno
    push Not at hno
    cases h.overflow hE hno
  refine ⟨hneg, ?_⟩
  obtain ⟨L₁, hfold, hrun⟩ := Option.bind_eq_some_iff.mp h.run.symm
  obtain ⟨z, w, hj, hw⟩ := hneg
  have hz : z ∉ done := fun hmem => by
    have := (h.tame z hmem u w hj.symm).1
    omega
  have htrap := Trap.start hE h.round.toInv.visited (fun v _ hv => h.round.label_le hv)
    ⟨z, w, hj, hw, hz⟩ (relaxed_of_fold hfold)
  exact mainLoop_trap hE htrap h.left hrun

end

/-- The labels when the main loop from `s` has ended. -/
def Graph.finalLabels (G : Graph) (s : String) : Option Labels :=
  mainLoop G.names.length G.adj G.names.length (initLabels (G.idx s))

/-- The reconstruction loop from `t` ends within `n` steps, at the source. -/
def LeadsBack (G : Graph) (L : Labels) (s t : String) : Prop :=
  ∃ p, walkBack L.prev (G.names.length + 1) (G.idx t) = some p ∧
    p.getLast? = some (G.idx s) ∧ p.length ≤ G.names.length

section

variable {edges : List InputEdge} {G : Graph} {s : String} {L : Labels} {done : List Nat}

/-- In the settled graph a finite label leads back. -/
theorem Settled.leadsBack
    (hset : Settled (relabel G.idx edges) G.names.length (G.idx s) L done) {t : String}
    (hfin : L.dist (G.idx t) ≠ INF) : LeadsBack G L s t := by
  have hmem : G.idx t ∈ done := by
    by_contra hout
    exact hfin (hset.rest _ hout)
  obtain ⟨p, -, hp, hlen, hback⟩ := hset.traced hmem
  exact ⟨p, hback, hp.last, hlen⟩

/-- A loop that met no bad edge met every edge that is near. -/
theorem Settled.noNegativeNear
    (hset : Settled (relabel G.idx edges) G.names.length (G.idx s) L done)
    (htame : Tame (relabel G.idx edges) L done) : NoNegativeNear edges s := by
  intro a b w d hd hlt hj
  have hd' := hd.relabel G.idx
  rw [← nonneg_relabel] at hd'
  obtain ⟨hmem, -⟩ := hset.short_walk (fun _ _ _ => joins_of_nonneg.mp) hd' hlt
  exact (htame _ hmem _ w (hj.relabel G.idx)).1

/-- The first negative edge met is near. -/
theorem Round.negativeNear (h : Numbered edges G) (hs : Occurs edges s) {u : Nat}
    (hround : Round (relabel G.idx edges) G.names.length (G.idx s) u done L)
    (htame : Tame (relabel G.idx edges) L done) {z : Nat} {w : Int}
    (hj : Joins (relabel G.idx edges) u z w) (hw : w < 0) : ¬NoNegativeNear edges s := by
  intro hnear
  obtain ⟨a, b, rfl, rfl, hab⟩ := joins_of_relabel hj
  have hd := hround.walk_nonneg htame
  have hsub : nonneg edges ⊆ edges := List.filter_subset_self ..
  rw [nonneg_relabel, h.walk_iff hsub hs hab.symm.occurs] at hd
  have := hnear a b w _ hd (hround.finite _ List.mem_cons_self) hab
  omega

/-- The vertex at the bottom of a trap has a name and a finite label, and does not lead back. -/
theorem Trap.not_leadsBack (h : Numbered edges G) {E : List (Nat × Nat × Int)} {q : Nat} {d : Int}
    {before : List Nat} (htrap : Trap E G.names.length q d before done L) (hlow : L.dist q < d) :
    ∃ t, Occurs edges t ∧ L.dist (G.idx t) ≠ INF ∧ ¬LeadsBack G L s t := by
  have hq := List.getElem?_eq_getElem (htrap.bound q htrap.mem)
  have hidx := h.idx_eq hq
  refine ⟨_, (h.occurs _).mp ⟨q, hq⟩, ?_, ?_⟩
  · have := htrap.small
    rw [hidx]
    omega
  · rintro ⟨p, hback, -⟩
    rw [hidx, htrap.walkBack hlow] at hback
    cases hback

end

/-- **Path reconstruction**: after a loop without overflow, every vertex with a finite label leads
back to the source, if and only if no negative edge is near. -/
theorem reconstruct_iff (edges : List InputEdge) (s : String) (hs : Occurs edges s) (L : Labels)
    (hloop : (buildGraph edges).finalLabels s = some L) :
    (∀ t, Occurs edges t → L.dist ((buildGraph edges).idx t) ≠ INF →
      LeadsBack (buildGraph edges) L s t) ↔ NoNegativeNear edges s := by
  have h := buildGraph_numbered edges
  unfold Graph.finalLabels at hloop
  generalize buildGraph edges = G at h hloop
  have hE := h.listed hs
  rcases mainLoop_calm hE initLabels_inv (by simp [Closed]) (by simp [Tame]) (Nat.zero_add _) with
    ⟨L', done, hcalm, hset, htame⟩ | ⟨u, done, L', rest, hstop⟩
  · obtain rfl : L = L' := Option.some.inj (hloop.symm.trans hcalm)
    exact iff_of_true (fun t _ hfin => hset.leadsBack hfin) (hset.noNegativeNear htame)
  · rw [hloop] at hstop
    obtain ⟨⟨z, w, hj, hw⟩, q, d, before, done', htrap, hlow⟩ := hstop.trapped hE
    apply iff_of_false
    · intro hall
      obtain ⟨t, ht, hfin, hno⟩ := htrap.not_leadsBack h hlow
      exact hno (hall t ht hfin)
    · exact hstop.round.negativeNear h hs hstop.tame hj hw

/-- A negative edge that is not joined to `a`. -/
def farNegative : List InputEdge := [("a", "b", 4), ("c", "d", -1)]

theorem reconstruct_iff_farNegative :
    ∃ L, (buildGraph farNegative).finalLabels "a" = some L ∧
      LeadsBack (buildGraph farNegative) L "a" "b" := by
  have hrun : (((buildGraph farNegative).finalLabels "a").map fun L =>
      L.dist ((buildGraph farNegative).idx "b")) = some 4 := by decide +kernel
  obtain ⟨L, hL, hdist⟩ := Option.map_eq_some_iff.mp hrun
  refine ⟨L, hL, ?_⟩
  have ha : Occurs farNegative "a" := ⟨("a", "b", 4), by simp [farNegative], Or.inl rfl⟩
  have hb : Occurs farNegative "b" := ⟨("a", "b", 4), by simp [farNegative], Or.inr rfl⟩
  refine (reconstruct_iff farNegative "a" ha L hL).mpr ?_ "b" hb (by rw [hdist]; decide)
  intro x y w d hd _ hj
  have hx : x = "a" ∨ x = "b" := by
    apply hd.label (R := fun v _ => v = "a" ∨ v = "b") (Or.inl rfl)
    intro b c _ w _ hj
    simp [Joins, nonneg, farNegative] at hj
    rcases hj with ⟨-, rfl, -⟩ | ⟨rfl, -, -⟩
    · exact Or.inr rfl
    · exact Or.inl rfl
  rcases hx with rfl | rfl
  · simp [Joins, farNegative] at hj
    omega
  · simp [Joins, farNegative] at hj
    omega

/-- One negative edge. -/
def negativeEdge : List InputEdge := [("a", "b", -5)]

/-- From `a` both ends have finite labels, and each is the predecessor of the other. -/
theorem negativeEdge_circles :
    ∃ L, (buildGraph negativeEdge).finalLabels "a" = some L ∧
      L.dist ((buildGraph negativeEdge).idx "b") ≠ INF ∧
      ¬LeadsBack (buildGraph negativeEdge) L "a" "b" ∧
      ∀ fuel, walkBack L.prev fuel ((buildGraph negativeEdge).idx "b") = none := by
  have hrun : (((buildGraph negativeEdge).finalLabels "a").map fun L =>
      (L.dist 1, L.prev 0, L.prev 1)) = some (-5, 1, 0) := by decide +kernel
  have hidx : (buildGraph negativeEdge).idx "b" = 1 := by decide +kernel
  obtain ⟨L, hL, hvals⟩ := Option.map_eq_some_iff.mp hrun
  simp only [Prod.mk.injEq] at hvals
  obtain ⟨hdist, h0, h1⟩ := hvals
  have hback : ∀ fuel, walkBack L.prev fuel (1 : Nat) = none := by
    intro fuel
    apply walkBack_none (S := fun v => v = 0 ∨ v = 1) _ fuel 1 (Or.inr rfl)
    rintro v (rfl | rfl)
    · exact ⟨1, h0, Or.inr rfl⟩
    · exact ⟨0, h1, Or.inl rfl⟩
  rw [hidx]
  refine ⟨L, hL, by rw [hdist]; decide, ?_, hback⟩
  rintro ⟨p, hp, -⟩
  rw [hidx, hback] at hp
  cases hp

end CampusNet.Dijkstra
