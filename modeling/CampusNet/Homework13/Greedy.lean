import CampusNet.Homework13.Dijkstra
import Mathlib.Data.List.Perm.Subperm

/-!
# The greedy invariant

* `select_spec`, `relaxEdge_spec` — what one round does, said once.
* `Route` — a path of the `prev` pointers, with edges that add up to the label.
* `Visited` — `done` lists the visited vertices, the last one first.
* `Inv` — the invariant between rounds: visited labels are final and carry a route through visited
  vertices; every other finite label comes through a visited vertex.
* `Round` — the same while the edges of the vertex just visited are being relaxed.
* `mainLoop_calm` — the loop returns, without overflow, with nothing left to visit; or it comes to
  a vertex with an edge that is negative, or too long for the sum (`StopsAt`).
* `mainLoop_settles` — with small weights it is the first.
* `Settled.walk` — then the visited labels are the least costs.
-/

namespace CampusNet.Dijkstra

open WeightedGraph

/-! ## One round -/

/-- `select` finds a least unvisited vertex, if there is an unvisited one. -/
theorem select_spec (n : Nat) (L : Labels) :
    (select n L = none → ∀ i < n, L.vis i = true) ∧
      ∀ u, select n L = some u → u < n ∧ L.vis u = false ∧
        ∀ i < n, L.vis i = false → L.dist u ≤ L.dist i := by
  induction n with
  | zero =>
    constructor
    · intro _ i hi
      exact absurd hi (Nat.not_lt_zero i)
    · intro u hu
      cases hu
  | succ n ih =>
    have hstep : select (n + 1) L =
        if L.vis n = false ∧ (∀ v ∈ select n L, L.dist n < L.dist v) then some n
        else select n L := by
      unfold select
      rw [List.range_succ, List.foldl_append]
      rfl
    rw [hstep]
    split
    · rename_i hnew
      constructor
      · intro h
        cases h
      · intro u hu
        cases hu
        refine ⟨Nat.lt_succ_self n, hnew.1, ?_⟩
        intro i hi hv
        rcases Nat.lt_succ_iff_lt_or_eq.mp hi with hi | rfl
        · cases hs : select n L with
          | none =>
            rw [ih.1 hs i hi] at hv
            cases hv
          | some v =>
            calc L.dist n ≤ L.dist v := le_of_lt (hnew.2 v hs)
              _ ≤ L.dist i := (ih.2 v hs).2.2 i hi hv
        · exact le_refl _
    · rename_i hold
      constructor
      · intro hnone i hi
        rcases Nat.lt_succ_iff_lt_or_eq.mp hi with hi | rfl
        · exact ih.1 hnone i hi
        · cases hv : L.vis i with
          | true => rfl
          | false => exact absurd ⟨hv, fun v hs => by rw [hnone] at hs; cases hs⟩ hold
      · intro u hu
        obtain ⟨hlt, hun, hmin⟩ := ih.2 u hu
        refine ⟨Nat.lt_succ_of_lt hlt, hun, ?_⟩
        intro i hi hv
        rcases Nat.lt_succ_iff_lt_or_eq.mp hi with hi | rfl
        · exact hmin i hi hv
        · by_contra hgt
          apply hold
          refine ⟨hv, ?_⟩
          intro v hs
          rw [hu] at hs
          cases hs
          omega

/-- The label `d` and predecessor `u` for `v`. -/
def Labels.lower (L : Labels) (v u : Nat) (d : Int) : Labels :=
  { L with dist := Function.update L.dist v d, prev := Function.update L.prev v u }

@[simp] theorem Labels.lower_dist_self (L : Labels) (v u : Nat) (d : Int) :
    (L.lower v u d).dist v = d := Function.update_self ..

@[simp] theorem Labels.lower_prev_self (L : Labels) (v u : Nat) (d : Int) :
    (L.lower v u d).prev v = u := Function.update_self ..

theorem Labels.lower_dist_of_ne (L : Labels) {v x : Nat} (hx : x ≠ v) (u : Nat) (d : Int) :
    (L.lower v u d).dist x = L.dist x := Function.update_of_ne hx _ _

theorem Labels.lower_prev_of_ne (L : Labels) {v x : Nat} (hx : x ≠ v) (u : Nat) (d : Int) :
    (L.lower v u d).prev x = L.prev x := Function.update_of_ne hx _ _

theorem Labels.lower_dist_le (L : Labels) {v : Nat} {d : Int} (hd : d ≤ L.dist v) (u x : Nat) :
    (L.lower v u d).dist x ≤ L.dist x := by
  by_cases hx : x = v
  · rw [hx, lower_dist_self]
    exact hd
  · exact le_of_eq (L.lower_dist_of_ne hx u d)

/-- One edge: a smaller label is written, or there is nothing to do. -/
theorem relaxEdge_spec {u : Nat} {L : Labels} {e : Edge} (hfit : FitsInt (L.dist u + e.w)) :
    (L.dist u + e.w < L.dist e.target ∧
      relaxEdge u L e = some (L.lower e.target u (L.dist u + e.w))) ∨
    (L.dist e.target ≤ L.dist u + e.w ∧ relaxEdge u L e = some L) := by
  unfold relaxEdge
  rw [checkedInt_of_fits hfit]
  by_cases hlt : L.dist u + e.w < L.dist e.target
  · exact Or.inl ⟨hlt, if_pos hlt⟩
  · exact Or.inr ⟨le_of_not_gt hlt, if_neg hlt⟩

/-! ## Routes -/

/-- `prev` leads along the vertices and ends. -/
def Traced (prev : Nat → Int) : List Nat → Prop
  | [] => False
  | [x] => prev x = -1
  | x :: y :: p => prev x = y ∧ Traced prev (y :: p)

theorem Traced.congr {prev prev' : Nat → Int} :
    ∀ {p : List Nat}, Traced prev p → (∀ x ∈ p, prev' x = prev x) → Traced prev' p
  | [], h, _ => h
  | [x], h, heq => (heq x List.mem_cons_self).trans h
  | x :: _ :: _, h, heq => ⟨(heq x List.mem_cons_self).trans h.1,
      h.2.congr fun z hz => heq z (List.mem_cons_of_mem x hz)⟩

/-- The reconstruction loop reads a traced path back. -/
theorem walkBack_traced {prev : Nat → Int} :
    ∀ {fuel : Nat} {x : Nat} {p : List Nat}, Traced prev (x :: p) → p.length + 1 < fuel →
      walkBack prev fuel x = some (x :: p)
  | 0, _, _, _, hf => absurd hf (Nat.not_lt_zero _)
  | fuel + 1, x, p, h, hf => by
    have hx : (x : Int) ≠ -1 := by omega
    rw [walkBack, if_neg hx, Int.toNat_natCast]
    cases p with
    | nil =>
      obtain ⟨f, rfl⟩ : ∃ f, fuel = f + 1 := ⟨fuel - 1, by simp at hf; omega⟩
      rw [show prev x = -1 from h, walkBack, if_pos rfl]
      rfl
    | cons y p =>
      rw [h.1, walkBack_traced h.2 (by simp at hf; omega)]
      rfl

structure Route (E : List (Nat × Nat × Int)) (src : Nat) (L : Labels) (v : Nat)
    (p : List Nat) : Prop where
  head : p.head? = some v
  last : p.getLast? = some src
  nodup : p.Nodup
  traced : Traced L.prev p
  cost : ∃ ws, Steps E p ws ∧ ws.sum = L.dist v

theorem Route.congr {E : List (Nat × Nat × Int)} {src v : Nat} {L L' : Labels} {p : List Nat}
    (h : Route E src L v p) (hprev : ∀ x ∈ p, L'.prev x = L.prev x)
    (hdist : L'.dist v = L.dist v) : Route E src L' v p :=
  ⟨h.head, h.last, h.nodup, h.traced.congr hprev, by rw [hdist]; exact h.cost⟩

/-! ## The visited vertices -/

/-- `done` lists the visited vertices. -/
structure Visited (n : Nat) (L : Labels) (done : List Nat) : Prop where
  vis : ∀ v, L.vis v = true ↔ v ∈ done
  nodup : done.Nodup
  bound : ∀ v ∈ done, v < n
  top : ∀ v, L.dist v ≤ INF

section

variable {n : Nat} {L : Labels} {done : List Nat}

theorem Visited.unvisited (h : Visited n L done) {v : Nat} : L.vis v = false ↔ v ∉ done := by
  rw [← Bool.not_eq_true, h.vis]

/-- Visiting the selected vertex. -/
theorem Visited.selected (h : Visited n L done) {u : Nat} (hu : select n L = some u) :
    u ∉ done ∧ (∀ v < n, v ∉ done → L.dist u ≤ L.dist v) ∧ Visited n (visit u L) (u :: done) := by
  obtain ⟨hlt, hun, hmin⟩ := (select_spec n L).2 u hu
  have hnew := h.unvisited.mp hun
  refine ⟨hnew, fun v hv hout => hmin v hv (h.unvisited.mpr hout), ?_,
    List.nodup_cons.mpr ⟨hnew, h.nodup⟩, List.forall_mem_cons.mpr ⟨hlt, h.bound⟩, h.top⟩
  intro v
  show Function.update L.vis u true v = true ↔ v ∈ u :: done
  by_cases hv : v = u
  · simp [hv]
  · simp [hv, h.vis]

theorem Visited.subperm (h : Visited n L done) : List.Subperm done (List.range n) :=
  List.subperm_of_subset h.nodup fun v hv => List.mem_range.mpr (h.bound v hv)

theorem Visited.length_le (h : Visited n L done) : done.length ≤ n := by
  calc done.length ≤ (List.range n).length := h.subperm.length_le
    _ = n := List.length_range

/-- After `n` rounds every vertex is visited. -/
theorem Visited.all_of_length (h : Visited n L done) (hlen : done.length = n) :
    ∀ i < n, i ∈ done := by
  intro i hi
  have hperm := h.subperm.perm_of_length_le (by rw [List.length_range, hlen])
  exact hperm.mem_iff.mpr (List.mem_range.mpr hi)

/-- With nothing to select every vertex is visited. -/
theorem Visited.all_of_none (h : Visited n L done) (hs : select n L = none) :
    ∀ i < n, i ∈ done := by
  intro i hi
  exact (h.vis i).mp ((select_spec n L).1 hs i hi)

end

/-! ## The invariant -/

/-- The graph with its bounds: what `main` reads, by numbers. -/
structure Bounded (E : List (Nat × Nat × Int)) (n src : Nat) (adj : Nat → List Edge) : Prop where
  pos : ∀ e ∈ E, 0 ≤ e.2.2
  small : total E < INF
  source : src < n
  lt : ∀ {u v w}, Joins E u v w → v < n
  adj : ∀ u v w, ⟨v, w⟩ ∈ adj u ↔ Joins E u v w

/-- The same without the bounds on the weights. -/
structure Listed (E : List (Nat × Nat × Int)) (n src : Nat) (adj : Nat → List Edge) : Prop where
  source : src < n
  lt : ∀ {u v w}, Joins E u v w → v < n
  adj : ∀ u v w, ⟨v, w⟩ ∈ adj u ↔ Joins E u v w

structure Inv (E : List (Nat × Nat × Int)) (n src : Nat) (L : Labels) (done : List Nat) :
    Prop where
  vis : ∀ v, L.vis v = true ↔ v ∈ done
  nodup : done.Nodup
  bound : ∀ v ∈ done, v < n
  source : L.dist src = 0 ∧ L.prev src = -1
  range : ∀ v, 0 ≤ L.dist v ∧ L.dist v ≤ INF
  finite : ∀ v ∈ done, L.dist v < INF
  below : ∀ v ∈ done, ∀ x ∉ done, L.dist v ≤ L.dist x
  frontier : ∀ x ∉ done, x ≠ src → L.dist x ≠ INF →
    ∃ u ∈ done, ∃ w, Joins E u x w ∧ L.prev x = u ∧ L.dist x = L.dist u + w
  route : ∀ v ∈ done, ∃ p, p ⊆ done ∧ Route E src L v p

/-- Every edge from a vertex of `S` is relaxed. -/
def Closed (E : List (Nat × Nat × Int)) (L : Labels) (S : List Nat) : Prop :=
  ∀ u ∈ S, ∀ v w, Joins E u v w → L.dist v ≤ L.dist u + w

/-- Every edge from a vertex of `S` is non-negative and short enough for its sum. -/
def Tame (E : List (Nat × Nat × Int)) (L : Labels) (S : List Nat) : Prop :=
  ∀ u ∈ S, ∀ v w, Joins E u v w → 0 ≤ w ∧ L.dist u + w ≤ INT_MAX

section

variable {E : List (Nat × Nat × Int)} {n src : Nat} {adj : Nat → List Edge}

theorem Bounded.listed (hB : Bounded E n src adj) : Listed E n src adj :=
  ⟨hB.source, hB.lt, hB.adj⟩

theorem Bounded.weight (hB : Bounded E n src adj) {u v : Nat} {w : Int} (hj : Joins E u v w) :
    0 ≤ w ∧ w < INF := by
  have hmem : ∃ e ∈ E, e.2.2 = w := by
    rcases hj with h | h
    · exact ⟨_, h, rfl⟩
    · exact ⟨_, h, rfl⟩
  obtain ⟨e, he, rfl⟩ := hmem
  refine ⟨hB.pos e he, lt_of_le_of_lt ?_ hB.small⟩
  refine List.single_le_sum (fun x hx => ?_) _ (List.mem_map_of_mem he)
  obtain ⟨f, hf, rfl⟩ := List.mem_map.mp hx
  exact hB.pos f hf

theorem initLabels_inv : Inv E n src (initLabels src) [] where
  vis := by simp [initLabels]
  nodup := List.nodup_nil
  bound := by simp
  source := by simp [initLabels]
  range := by
    intro v
    by_cases hv : v = src
    · simp [initLabels, hv, INF]
    · simp [initLabels, hv, INF]
  finite := by simp
  below := by simp
  frontier := by
    intro x _ hx hfin
    exact absurd (by simp [initLabels, hx]) hfin
  route := by simp

theorem Inv.visited {L : Labels} {done : List Nat} (h : Inv E n src L done) :
    Visited n L done := ⟨h.vis, h.nodup, h.bound, fun v => (h.range v).2⟩

/-- A finite label belongs to a vertex of the graph. -/
theorem Inv.lt (hE : Listed E n src adj) {L : Labels} {done : List Nat}
    (h : Inv E n src L done) {x : Nat} (hx : x ∉ done) (hfin : L.dist x ≠ INF) : x < n := by
  by_cases hsrc : x = src
  · rw [hsrc]
    exact hE.source
  · obtain ⟨u, _, w, hj, _⟩ := h.frontier x hx hsrc hfin
    exact hE.lt hj

/-- The state of the inner loop: `u` has just been visited. -/
structure Round (E : List (Nat × Nat × Int)) (n src u : Nat) (done : List Nat) (L : Labels) :
    Prop extends Inv E n src L (u :: done) where
  top : ∀ v ∈ u :: done, L.dist v ≤ L.dist u
  closed : Closed E L done

/-- The label of `u` is least among those not visited before it. -/
theorem Round.label_le {u : Nat} {done : List Nat} {L : Labels} (h : Round E n src u done L)
    {v : Nat} (hv : v ∉ done) : L.dist u ≤ L.dist v := by
  by_cases hvu : v = u
  · rw [hvu]
  · exact h.below u List.mem_cons_self v (by simp [hvu, hv])

/-- A reached vertex that is not visited has a route through the visited ones. -/
theorem Inv.newRoute {L : Labels} {done : List Nat} (h : Inv E n src L done) {u : Nat}
    (hnew : u ∉ done) (hfin : L.dist u ≠ INF) : ∃ p, p ⊆ u :: done ∧ Route E src L u p := by
  by_cases hsrc : u = src
  · subst hsrc
    refine ⟨[u], by simp, rfl, rfl, List.nodup_singleton u, h.source.2, [], .single u, ?_⟩
    exact h.source.1.symm
  · obtain ⟨a, ha, w, hj, hprev, hdist⟩ := h.frontier u hnew hsrc hfin
    obtain ⟨p, hsub, hp⟩ := h.route a ha
    obtain ⟨ws, hws, hsum⟩ := hp.cost
    cases p with
    | nil => cases hp.head
    | cons b p =>
      obtain rfl : b = a := Option.some.inj hp.head
      refine ⟨u :: b :: p, List.cons_subset_cons u hsub, rfl, ?_, ?_, ⟨hprev, hp.traced⟩,
        w :: ws, .cons hj.symm hws, ?_⟩
      · rw [List.getLast?_cons_cons]
        exact hp.last
      · exact List.nodup_cons.mpr ⟨fun hmem => hnew (hsub hmem), hp.nodup⟩
      · rw [List.sum_cons, hsum, hdist, add_comm]

/-- **Visiting** the selected vertex. -/
theorem Inv.visit (hE : Listed E n src adj) {L : Labels} {done : List Nat}
    (h : Inv E n src L done) (hcl : Closed E L done) {u : Nat} (hu : select n L = some u)
    (hfin : L.dist u ≠ INF) : Round E n src u done (visit u L) := by
  obtain ⟨hnew, hmin, hvis⟩ := h.visited.selected hu
  have hleast : ∀ x ∉ done, L.dist u ≤ L.dist x := by
    intro x hx
    by_cases hx' : L.dist x = INF
    · rw [hx']
      exact (h.range u).2
    · exact hmin x (h.lt hE hx hx') hx
  have hroute := h.newRoute hnew hfin
  have hout : ∀ x, x ∉ u :: done → x ∉ done :=
    fun x hx hmem => hx (List.mem_cons_of_mem u hmem)
  refine { vis := hvis.vis, nodup := hvis.nodup, bound := hvis.bound, source := h.source,
           range := h.range, finite := ?finite, below := ?below, frontier := ?frontier,
           route := ?route, top := ?top, closed := hcl }
  case finite =>
    exact List.forall_mem_cons.mpr ⟨lt_of_le_of_ne (h.range u).2 hfin, h.finite⟩
  case below =>
    rw [List.forall_mem_cons]
    constructor
    · intro x hx
      exact hleast x (hout x hx)
    · intro v hv x hx
      exact h.below v hv x (hout x hx)
  case frontier =>
    intro x hx hsrc hx'
    obtain ⟨a, ha, w, hw⟩ := h.frontier x (hout x hx) hsrc hx'
    exact ⟨a, List.mem_cons_of_mem u ha, w, hw⟩
  case route =>
    rw [List.forall_mem_cons]
    constructor
    · obtain ⟨p, hsub, hp⟩ := hroute
      exact ⟨p, hsub, hp.congr (fun _ _ => rfl) rfl⟩
    · intro v hv
      obtain ⟨p, hsub, hp⟩ := h.route v hv
      exact ⟨p, List.subset_cons_of_subset u hsub, hp.congr (fun _ _ => rfl) rfl⟩
  case top => exact List.forall_mem_cons.mpr ⟨le_refl _, fun v hv => h.below v hv u hnew⟩

/-- A label below that of `u` is lowered: the vertex is neither visited nor the source. -/
theorem Round.lower {u : Nat} {done : List Nat} {L : Labels} (h : Round E n src u done L)
    {v : Nat} {w : Int} (hj : Joins E u v w) (hw : 0 ≤ w) (hlt : L.dist u + w < L.dist v) :
    Round E n src u done (L.lower v u (L.dist u + w)) := by
  have hv : v ∉ u :: done := fun hmem => by
    have := h.top v hmem
    omega
  have hne : ∀ x ∈ u :: done, x ≠ v := fun x hx he => hv (he ▸ hx)
  have hdist : ∀ x, x ≠ v → (L.lower v u (L.dist u + w)).dist x = L.dist x :=
    fun x hx => L.lower_dist_of_ne hx u _
  have hprev : ∀ x, x ≠ v → (L.lower v u (L.dist u + w)).prev x = L.prev x :=
    fun x hx => L.lower_prev_of_ne hx u _
  have hu := hne u List.mem_cons_self
  have hsrc : src ≠ v := fun he => by
    have := h.source.1
    have := (h.range u).1
    rw [he] at *
    omega
  refine { vis := h.vis, nodup := h.nodup, bound := h.bound, source := ?source, range := ?range,
           finite := ?finite, below := ?below, frontier := ?frontier, route := ?route, top := ?top,
           closed := ?closed }
  case source =>
    rw [hdist src hsrc, hprev src hsrc]
    exact h.source
  case range =>
    intro x
    by_cases hx : x = v
    · subst hx
      rw [L.lower_dist_self]
      have := (h.range u).1
      have := (h.range x).2
      omega
    · rw [hdist x hx]
      exact h.range x
  case finite =>
    intro x hx
    rw [hdist x (hne x hx)]
    exact h.finite x hx
  case below =>
    intro x hx y hy
    rw [hdist x (hne x hx)]
    by_cases hyv : y = v
    · subst hyv
      rw [L.lower_dist_self]
      have := h.top x hx
      omega
    · rw [hdist y hyv]
      exact h.below x hx y hy
  case frontier =>
    intro x hx hxs hfin
    by_cases hxv : x = v
    · subst hxv
      refine ⟨u, List.mem_cons_self, w, hj, L.lower_prev_self .., ?_⟩
      rw [L.lower_dist_self, hdist u hu]
    · rw [hdist x hxv] at hfin ⊢
      obtain ⟨a, ha, c, hc, hp, hd⟩ := h.frontier x hx hxs hfin
      exact ⟨a, ha, c, hc, (hprev x hxv).trans hp, by rw [hdist a (hne a ha)]; exact hd⟩
  case route =>
    intro x hx
    obtain ⟨p, hsub, hp⟩ := h.route x hx
    exact ⟨p, hsub, hp.congr (fun y hy => hprev y (hne y (hsub hy))) (hdist x (hne x hx))⟩
  case top =>
    intro x hx
    rw [hdist x (hne x hx), hdist u hu]
    exact h.top x hx
  case closed =>
    intro x hx y c hj'
    rw [hdist x (hne x (List.mem_cons_of_mem u hx))]
    by_cases hyv : y = v
    · subst hyv
      have := h.closed x hx y c hj'
      rw [L.lower_dist_self]
      omega
    · rw [hdist y hyv]
      exact h.closed x hx y c hj'

/-- **One edge** that is no trouble. -/
theorem Round.oneEdge {u : Nat} {done : List Nat} {L : Labels} (h : Round E n src u done L)
    {e : Edge} (hj : Joins E u e.target e.w) (hw : 0 ≤ e.w) (hmax : L.dist u + e.w ≤ INT_MAX) :
    ∃ L', relaxEdge u L e = some L' ∧ Round E n src u done L' ∧ (∀ x, L'.dist x ≤ L.dist x) ∧
      L'.dist u = L.dist u ∧ L'.dist e.target ≤ L.dist u + e.w := by
  have hfit : FitsInt (L.dist u + e.w) := by
    have := (h.range u).1
    unfold FitsInt INT_MIN
    omega
  rcases relaxEdge_spec hfit with ⟨hlt, he⟩ | ⟨hle, he⟩
  · refine ⟨_, he, h.lower hj hw hlt, L.lower_dist_le (le_of_lt hlt) u, ?_,
      le_of_eq (L.lower_dist_self ..)⟩
    refine L.lower_dist_of_ne (fun hu => ?_) u _
    rw [← hu] at hlt
    omega
  · exact ⟨L, he, h, fun _ => le_refl _, rfl, hle⟩

/-- **The inner loop** over edges that are no trouble: it returns, labels only get smaller, and
every edge of `u` is relaxed. -/
theorem Round.relaxAll {u : Nat} {done : List Nat} :
    ∀ {l : List Edge} {L : Labels}, Round E n src u done L →
      (∀ e ∈ l, Joins E u e.target e.w ∧ 0 ≤ e.w ∧ L.dist u + e.w ≤ INT_MAX) →
      ∃ L', l.foldlM (relaxEdge u) L = some L' ∧ Round E n src u done L' ∧
        (∀ x, L'.dist x ≤ L.dist x) ∧ L'.dist u = L.dist u ∧
        ∀ e ∈ l, L'.dist e.target ≤ L'.dist u + e.w
  | [], L, h, _ => ⟨L, rfl, h, fun _ => le_refl _, rfl, fun e he => by cases he⟩
  | e :: l, L, h, hl => by
    rw [List.forall_mem_cons] at hl
    obtain ⟨⟨hj, hw, hmax⟩, hl⟩ := hl
    obtain ⟨L₁, he, hround₁, hmono₁, hsame₁, hrel₁⟩ := h.oneEdge hj hw hmax
    rw [← hsame₁] at hl
    obtain ⟨L', hrun, hround, hmono, hsame, hrel⟩ := hround₁.relaxAll hl
    rw [List.foldlM_cons, he]
    refine ⟨L', hrun, hround, fun x => (hmono x).trans (hmono₁ x), hsame.trans hsame₁, ?_⟩
    refine List.forall_mem_cons.mpr ⟨?_, hrel⟩
    rw [hsame, hsame₁]
    exact (hmono e.target).trans hrel₁

/-- An edge that is too long for its sum stops the inner loop. -/
theorem Round.relaxAll_overflow {u : Nat} {done : List Nat} :
    ∀ {l : List Edge} {L : Labels}, Round E n src u done L →
      (∀ e ∈ l, Joins E u e.target e.w ∧ 0 ≤ e.w) → (∃ e ∈ l, INT_MAX < L.dist u + e.w) →
      l.foldlM (relaxEdge u) L = none
  | [], _, _, _, hlong => by
    obtain ⟨e, he, -⟩ := hlong
    cases he
  | e :: l, L, h, hl, hlong => by
    rw [List.forall_mem_cons] at hl
    obtain ⟨⟨hj, hw⟩, hl⟩ := hl
    rw [List.foldlM_cons]
    by_cases hmax : L.dist u + e.w ≤ INT_MAX
    · have hrest : ∃ f ∈ l, INT_MAX < L.dist u + f.w := by
        obtain ⟨f, hf, hlong⟩ := hlong
        rcases List.mem_cons.mp hf with rfl | hf
        · omega
        · exact ⟨f, hf, hlong⟩
      obtain ⟨L₁, he, hround₁, -, hsame₁, -⟩ := h.oneEdge hj hw hmax
      rw [← hsame₁] at hrest
      rw [he]
      exact hround₁.relaxAll_overflow hl hrest
    · have hnone : relaxEdge u L e = none := by
        have hfit : ¬FitsInt (L.dist u + e.w) := fun h => hmax h.2
        unfold relaxEdge checkedInt
        rw [if_neg hfit]
        rfl
      rw [hnone]
      rfl

/-! ## The loop -/

/-- Nothing is left to visit. -/
structure Settled (E : List (Nat × Nat × Int)) (n src : Nat) (L : Labels) (done : List Nat) :
    Prop extends Inv E n src L done where
  closed : Closed E L done
  rest : ∀ x ∉ done, L.dist x = INF

theorem Inv.settled_of_all (hE : Listed E n src adj) {L : Labels} {done : List Nat}
    (h : Inv E n src L done) (hcl : Closed E L done) (hall : ∀ i < n, i ∈ done) :
    Settled E n src L done :=
  ⟨h, hcl, fun x hx => Classical.byContradiction fun hfin => hx (hall x (h.lt hE hx hfin))⟩

/-- The loop comes to `u`, visited after `done`, with `rest` rounds to go; all edges of `done` were
no trouble, and `u` has one that is negative or too long for its sum. -/
structure StopsAt (E : List (Nat × Nat × Int)) (n src : Nat) (adj : Nat → List Edge)
    (out : Option Labels) (u : Nat) (done : List Nat) (L : Labels) (rest : Nat) : Prop where
  round : Round E n src u done L
  tame : Tame E L done
  bad : ∃ v w, Joins E u v w ∧ (w < 0 ∨ INT_MAX < L.dist u + w)
  left : (u :: done).length + rest = n
  run : out = ((adj u).foldlM (relaxEdge u) L).bind (mainLoop n adj rest)

/-- **Dijkstra's loop** returns, without overflow, and nothing is left to visit; or it comes to a
first vertex with a bad edge.  Each round visits one vertex more, and there are as many rounds as
vertices. -/
theorem mainLoop_calm (hE : Listed E n src adj) :
    ∀ {steps : Nat} {L : Labels} {done : List Nat}, Inv E n src L done → Closed E L done →
      Tame E L done → done.length + steps = n →
      (∃ L' done', mainLoop n adj steps L = some L' ∧ Settled E n src L' done' ∧
        Tame E L' done') ∨
      ∃ u done' L' rest, StopsAt E n src adj (mainLoop n adj steps L) u done' L' rest
  | 0, L, done, h, hcl, htame, hlen => by
    have hall := h.visited.all_of_length hlen
    exact Or.inl ⟨L, done, rfl, h.settled_of_all hE hcl hall, htame⟩
  | steps + 1, L, done, h, hcl, htame, hlen => by
    rw [mainLoop]
    cases hs : select n L with
    | none =>
      have hall := h.visited.all_of_none hs
      exact Or.inl ⟨L, done, rfl, h.settled_of_all hE hcl hall, htame⟩
    | some u =>
      by_cases hinf : L.dist u = INF
      · refine Or.inl ⟨L, done, if_pos hinf, ⟨h, hcl, fun x hx => ?_⟩, htame⟩
        by_contra hfin
        have := (h.visited.selected hs).2.1 x (h.lt hE hx hfin) hx
        have := (h.range x).2
        omega
      have hlen' : (u :: done).length + steps = n := by
        rw [List.length_cons]
        omega
      have hround := h.visit hE hcl hs hinf
      dsimp only
      rw [if_neg hinf]
      by_cases hbad : ∃ v w, Joins E u v w ∧ (w < 0 ∨ INT_MAX < L.dist u + w)
      · exact Or.inr ⟨u, done, visit u L, steps, hround, htame, hbad, hlen', rfl⟩
      · push Not at hbad
        obtain ⟨L₁, hrun, hround₁, hmono, hsame, hrel⟩ := hround.relaxAll (l := adj u)
          fun e he => ⟨(hE.adj u e.target e.w).mp he, hbad _ _ ((hE.adj u _ _).mp he)⟩
        have hcl' : Closed E L₁ (u :: done) :=
          List.forall_mem_cons.mpr ⟨fun v w hj => hrel ⟨v, w⟩ ((hE.adj u v w).mpr hj),
            hround₁.closed⟩
        have htame' : Tame E L₁ (u :: done) := by
          refine List.forall_mem_cons.mpr ⟨fun v w hj => ?_, fun x hx v w hj => ?_⟩
          · rw [hsame]
            exact hbad v w hj
          · obtain ⟨hw, hmax⟩ := htame x hx v w hj
            exact ⟨hw, (Int.add_le_add_right (hmono x) w).trans hmax⟩
        rw [hrun]
        exact mainLoop_calm hE hround₁.toInv hcl' htame' hlen'

/-- Where no edge is negative the bad one is too long, and the loop does not return. -/
theorem StopsAt.overflow (hE : Listed E n src adj) {out : Option Labels} {u : Nat}
    {done : List Nat} {L : Labels} {rest : Nat} (h : StopsAt E n src adj out u done L rest)
    (hpos : ∀ v w, Joins E u v w → 0 ≤ w) : out = none := by
  obtain ⟨v, w, hj, hbad⟩ := h.bad
  have hlong := hbad.resolve_left (not_lt.mpr (hpos v w hj))
  have hover : (adj u).foldlM (relaxEdge u) L = none := by
    apply h.round.relaxAll_overflow
    · intro e he
      have hje := (hE.adj u e.target e.w).mp he
      exact ⟨hje, hpos _ _ hje⟩
    · exact ⟨⟨v, w⟩, (hE.adj u v w).mpr hj, hlong⟩
  rw [h.run, hover]
  rfl

/-- **Small weights**: no edge is bad. -/
theorem mainLoop_settles (hB : Bounded E n src adj) :
    ∃ L done, mainLoop n adj n (initLabels src) = some L ∧ Settled E n src L done := by
  have hnone : ∀ u : Nat, u ∉ ([] : List Nat) := fun u => List.not_mem_nil
  obtain ⟨L, done, hloop, hset, -⟩ | ⟨u, done, L, rest, hstop⟩ :=
    mainLoop_calm hB.listed initLabels_inv (fun u hu => absurd hu (hnone u))
      (fun u hu => absurd hu (hnone u)) (Nat.zero_add n)
  · exact ⟨L, done, hloop, hset⟩
  · obtain ⟨v, w, hj, hbad⟩ := hstop.bad
    obtain ⟨hw, hw'⟩ := hB.weight hj
    have hfin := hstop.round.finite u List.mem_cons_self
    unfold INF at hfin hw'
    unfold INT_MAX at hbad
    omega

/-! ## Optimality -/

/-- **Every walk** from the source ends at a visited vertex, and costs at least its label. -/
theorem Settled.walk (hB : Bounded E n src adj) {L : Labels} {done : List Nat}
    (h : Settled E n src L done) (hsrc : src ∈ done) {v : Nat} {d : Int} (hw : Walk E src v d) :
    v ∈ done ∧ L.dist v ≤ d := by
  refine hw.label (R := fun v d => v ∈ done ∧ L.dist v ≤ d) ⟨hsrc, le_of_eq h.source.1⟩ ?_
  rintro b c d w ⟨hb, hd⟩ hj
  have hle := h.closed b hb c w hj
  refine ⟨Classical.byContradiction fun hc => ?_, by omega⟩
  -- the route to `b` and the edge to `c` cost less than INF
  obtain ⟨p, hsub, hp⟩ := h.route b hb
  obtain ⟨ws, hws, hsum⟩ := hp.cost
  have hcost := hws.sum_add_le_total hB.pos hp.nodup hp.head (fun hmem => hc (hsub hmem)) hj
  have := h.rest c hc
  have := hB.small
  omega

theorem Settled.source_mem {L : Labels} {done : List Nat} (h : Settled E n src L done) :
    src ∈ done := by
  by_contra hsrc
  have := h.rest src hsrc
  rw [h.source.1] at this
  cases this

end

end CampusNet.Dijkstra
