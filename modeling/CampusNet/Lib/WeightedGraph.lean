import Mathlib.Algebra.Order.Monoid.Defs
import Mathlib.Algebra.Order.BigOperators.Group.List
import Mathlib.Algebra.BigOperators.Group.List.Basic
import Mathlib.Data.List.Nodup

/-!
# Undirected multigraphs with weights

A graph is its list of weighted edges, over any vertices and any ordered weights; parallel edges
and loops are allowed.

* `Walk` — a walk and its total weight; `Steps` — a list of vertices with the weights of the
  edges chosen along it; `relabel` — the graph with its vertices renamed.
* `Walk.label` — the rule for labels that bound walks: what holds at the start and is kept along
  every edge holds at the end of every walk.
* `Steps.sum_le_inner` — a list without repetition costs at most all edges among its vertices;
  `Steps.sum_add_le_total` — and with one more edge to a new vertex at most all edges.
-/

namespace CampusNet.WeightedGraph

variable {V W : Type}

/-- An edge of weight `w` joins `u` and `v`, in either direction. -/
def Joins (edges : List (V × V × W)) (u v : V) (w : W) : Prop :=
  (u, v, w) ∈ edges ∨ (v, u, w) ∈ edges

theorem Joins.symm {edges : List (V × V × W)} {u v : V} {w : W} (h : Joins edges u v w) :
    Joins edges v u w := Or.symm h

/-- The vertex is an end of some edge. -/
def Occurs (edges : List (V × V × W)) (u : V) : Prop := ∃ e ∈ edges, e.1 = u ∨ e.2.1 = u

theorem Joins.occurs {edges : List (V × V × W)} {u v : V} {w : W} (h : Joins edges u v w) :
    Occurs edges v := by
  rcases h with h | h
  · exact ⟨_, h, Or.inr rfl⟩
  · exact ⟨_, h, Or.inl rfl⟩

/-- The vertices `p` in order, with the weights `ws` of one edge for each step. -/
inductive Steps (edges : List (V × V × W)) : List V → List W → Prop
  | single (a : V) : Steps edges [a] []
  | cons {a b : V} {p : List V} {w : W} {ws : List W} : Joins edges a b w →
      Steps edges (b :: p) ws → Steps edges (a :: b :: p) (w :: ws)

theorem Steps.snoc {edges : List (V × V × W)} {p : List V} {ws : List W} {a b : V} {w : W}
    (h : Steps edges p ws) (hlast : p.getLast? = some a) (hj : Joins edges a b w) :
    Steps edges (p ++ [b]) (ws ++ [w]) := by
  induction h with
  | single c =>
    cases hlast
    exact .cons hj (.single b)
  | @cons c d p v vs hcd hrest ih =>
    rw [List.getLast?_cons_cons] at hlast
    exact .cons hcd (ih hlast)

theorem Steps.reverse {edges : List (V × V × W)} {p : List V} {ws : List W}
    (h : Steps edges p ws) : Steps edges p.reverse ws.reverse := by
  induction h with
  | single a => exact .single a
  | @cons a b p w ws hj _ ih =>
    rw [List.reverse_cons, show (w :: ws).reverse = ws.reverse ++ [w] from List.reverse_cons]
    refine ih.snoc ?_ hj.symm
    simp

/-! ## Renaming -/

section

variable {V' : Type}

/-- The graph with its vertices renamed. -/
def relabel (f : V → V') (edges : List (V × V × W)) : List (V' × V' × W) :=
  edges.map fun e => (f e.1, f e.2.1, e.2.2)

theorem Joins.relabel (f : V → V') {edges : List (V × V × W)} {a b : V} {w : W}
    (h : Joins edges a b w) : Joins (relabel f edges) (f a) (f b) w := by
  rcases h with h | h
  · exact Or.inl (List.mem_map_of_mem (f := fun e => (f e.1, f e.2.1, e.2.2)) h)
  · exact Or.inr (List.mem_map_of_mem (f := fun e => (f e.1, f e.2.1, e.2.2)) h)

theorem joins_of_relabel {f : V → V'} {edges : List (V × V × W)} {x y : V'} {w : W}
    (h : Joins (relabel f edges) x y w) : ∃ a b, x = f a ∧ y = f b ∧ Joins edges a b w := by
  rcases h with h | h
  · obtain ⟨e, he, heq⟩ := List.mem_map.mp h
    cases heq
    exact ⟨e.1, e.2.1, rfl, rfl, Or.inl he⟩
  · obtain ⟨e, he, heq⟩ := List.mem_map.mp h
    cases heq
    exact ⟨e.2.1, e.1, rfl, rfl, Or.inr he⟩

theorem Steps.relabel (f : V → V') {edges : List (V × V × W)} {p : List V} {ws : List W}
    (h : Steps edges p ws) : Steps (relabel f edges) (p.map f) ws := by
  induction h with
  | single a => exact .single (f a)
  | cons hj _ ih => exact .cons (hj.relabel f) ih

/-- Renaming there and back, on the vertices that occur. -/
theorem relabel_relabel {f : V → V'} {g : V' → V} {edges : List (V × V × W)}
    (h : ∀ v, Occurs edges v → g (f v) = v) :
    WeightedGraph.relabel g (WeightedGraph.relabel f edges) = edges := by
  unfold WeightedGraph.relabel
  rw [List.map_map]
  refine (List.map_congr_left fun e he => ?_).trans (List.map_id edges)
  show (g (f e.1), g (f e.2.1), e.2.2) = e
  rw [h e.1 ⟨e, he, Or.inl rfl⟩, h e.2.1 ⟨e, he, Or.inr rfl⟩]

end

section

variable [AddCommMonoid W]

def total (edges : List (V × V × W)) : W := (edges.map fun e => e.2.2).sum

theorem total_relabel {V' : Type} (f : V → V') (edges : List (V × V × W)) :
    total (relabel f edges) = total edges := by
  unfold total relabel
  rw [List.map_map]
  rfl

inductive Walk (edges : List (V × V × W)) (a : V) : V → W → Prop
  | nil : Walk edges a a 0
  | snoc {b c : V} {d w : W} : Walk edges a b d → Joins edges b c w → Walk edges a c (d + w)

/-- **Label rule.** -/
theorem Walk.label {edges : List (V × V × W)} {a : V} {R : V → W → Prop} (h0 : R a 0)
    (hstep : ∀ b c d w, R b d → Joins edges b c w → R c (d + w)) {b : V} {d : W}
    (h : Walk edges a b d) : R b d := by
  induction h with
  | nil => exact h0
  | snoc _ hj ih => exact hstep _ _ _ _ ih hj

theorem Walk.relabel {V' : Type} (f : V → V') {edges : List (V × V × W)} {a b : V} {d : W}
    (h : Walk edges a b d) : Walk (relabel f edges) (f a) (f b) d := by
  induction h with
  | nil => exact .nil
  | snoc _ hj ih => exact ih.snoc (hj.relabel f)

/-- The same edges, in any order and direction, have the same walks. -/
theorem Walk.congr {edges edges' : List (V × V × W)}
    (h : ∀ u v w, Joins edges u v w ↔ Joins edges' u v w) {a b : V} {d : W}
    (hw : Walk edges a b d) : Walk edges' a b d := by
  induction hw with
  | nil => exact .nil
  | snoc _ hj ih => exact ih.snoc ((h _ _ _).mp hj)

theorem Walk.cons {edges : List (V × V × W)} {a b c : V} {d w : W} (hj : Joins edges a b w)
    (h : Walk edges b c d) : Walk edges a c (w + d) := by
  refine h.label (R := fun c d => Walk edges a c (w + d)) ?_ ?_
  · rw [add_comm]
    exact Walk.nil.snoc hj
  · intro x y d v hx hxy
    rw [← add_assoc]
    exact hx.snoc hxy

/-- A walk can be walked back. -/
theorem Walk.symm {edges : List (V × V × W)} {a b : V} {d : W} (h : Walk edges a b d) :
    Walk edges b a d := by
  induction h with
  | nil => exact .nil
  | snoc _ hj ih =>
    rw [add_comm]
    exact ih.cons hj.symm

/-- Steps from the last vertex back to the first make a walk. -/
theorem Steps.walk {edges : List (V × V × W)} {p : List V} {ws : List W}
    (h : Steps edges p ws) : ∀ {a b : V}, p.head? = some b → p.getLast? = some a →
      Walk edges a b ws.sum := by
  induction h with
  | single c =>
    intro a b ha hb
    cases ha; cases hb
    exact .nil
  | @cons c d p w ws hj _ ih =>
    intro a b hb ha
    cases hb
    rw [List.getLast?_cons_cons] at ha
    rw [List.sum_cons, add_comm]
    exact (ih rfl ha).snoc hj.symm

end

/-! ## Weights of simple paths -/

section

variable [DecidableEq V] [AddCommMonoid W]

/-- The total weight of the edges with both ends in `S`. -/
def inner (edges : List (V × V × W)) (S : List V) : W :=
  (edges.map fun e => if e.1 ∈ S ∧ e.2.1 ∈ S then e.2.2 else 0).sum

variable [PartialOrder W] [IsOrderedAddMonoid W]

theorem inner_le_total {edges : List (V × V × W)} (hpos : ∀ e ∈ edges, 0 ≤ e.2.2) (S : List V) :
    inner edges S ≤ total edges := by
  refine List.sum_le_sum fun e he => ?_
  split
  · exact le_refl _
  · exact hpos e he

theorem inner_mono {edges : List (V × V × W)} (hpos : ∀ e ∈ edges, 0 ≤ e.2.2) {S T : List V}
    (hsub : S ⊆ T) : inner edges S ≤ inner edges T := by
  refine List.sum_le_sum fun e he => ?_
  split
  · rename_i h
    rw [if_pos ⟨hsub h.1, hsub h.2⟩]
  · split
    · exact hpos e he
    · exact le_refl _

/-- An edge between `u` in `S` and `v` outside is not among the edges inside `S`. -/
theorem inner_add_le {S : List V} {u v : V} {w : W} (hu : u ∈ S) (hv : v ∉ S) :
    ∀ {edges : List (V × V × W)}, (∀ e ∈ edges, 0 ≤ e.2.2) → Joins edges v u w →
      inner edges S + w ≤ inner edges (v :: S)
  | [], _, hj => by rcases hj with h | h <;> cases h
  | e :: edges, hpos, hj => by
    rw [List.forall_mem_cons] at hpos
    have hmono := inner_mono hpos.2 (List.subset_cons_self v S)
    by_cases he : (v, u, w) = e ∨ (u, v, w) = e
    · -- this edge is the new one
      have hout : ¬ (e.1 ∈ S ∧ e.2.1 ∈ S) := by
        rcases he with rfl | rfl
        · exact fun h => hv h.1
        · exact fun h => hv h.2
      have hin : e.1 ∈ v :: S ∧ e.2.1 ∈ v :: S := by
        rcases he with rfl | rfl
        · exact ⟨List.mem_cons_self, List.mem_cons_of_mem _ hu⟩
        · exact ⟨List.mem_cons_of_mem _ hu, List.mem_cons_self⟩
      have hw : e.2.2 = w := by rcases he with rfl | rfl <;> rfl
      simp only [inner, List.map_cons, List.sum_cons] at hmono ⊢
      rw [if_neg hout, if_pos hin, hw, zero_add, add_comm]
      exact add_le_add (le_refl w) hmono
    · have hj' : Joins edges v u w := by
        rcases hj with h | h
        · exact Or.inl ((List.mem_cons.mp h).resolve_left fun h' => he (Or.inl h'))
        · exact Or.inr ((List.mem_cons.mp h).resolve_left fun h' => he (Or.inr h'))
      have ih := inner_add_le hu hv hpos.2 hj'
      have hhead : (if e.1 ∈ S ∧ e.2.1 ∈ S then e.2.2 else 0) ≤
          if e.1 ∈ v :: S ∧ e.2.1 ∈ v :: S then e.2.2 else 0 := by
        split
        · rename_i h
          rw [if_pos ⟨List.mem_cons_of_mem _ h.1, List.mem_cons_of_mem _ h.2⟩]
        · split
          · exact hpos.1
          · exact le_refl _
      simp only [inner, List.map_cons, List.sum_cons] at ih ⊢
      rw [add_assoc]
      exact add_le_add hhead ih

theorem inner_nonneg {edges : List (V × V × W)} (hpos : ∀ e ∈ edges, 0 ≤ e.2.2) (S : List V) :
    0 ≤ inner edges S := by
  refine List.sum_nonneg fun x hx => ?_
  obtain ⟨e, he, rfl⟩ := List.mem_map.mp hx
  split
  · exact hpos e he
  · exact le_refl _

/-- **A list without repetition** costs at most the edges among its vertices. -/
theorem Steps.sum_le_inner {edges : List (V × V × W)} (hpos : ∀ e ∈ edges, 0 ≤ e.2.2)
    {p : List V} {ws : List W} (h : Steps edges p ws) (hnd : p.Nodup) :
    ws.sum ≤ inner edges p := by
  induction h with
  | single a => exact inner_nonneg hpos [a]
  | @cons a b p w ws hj _ ih =>
    rw [List.nodup_cons] at hnd
    rw [List.sum_cons, add_comm]
    calc ws.sum + w ≤ inner edges (b :: p) + w := add_le_add (ih hnd.2) (le_refl w)
      _ ≤ inner edges (a :: b :: p) := inner_add_le List.mem_cons_self hnd.1 hpos hj

/-- **One more edge** to a new vertex: still at most all edges. -/
theorem Steps.sum_add_le_total {edges : List (V × V × W)} (hpos : ∀ e ∈ edges, 0 ≤ e.2.2)
    {p : List V} {ws : List W} (h : Steps edges p ws) (hnd : p.Nodup) {u v : V} {w : W}
    (hu : p.head? = some u) (hv : v ∉ p) (hj : Joins edges u v w) :
    ws.sum + w ≤ total edges :=
  calc ws.sum + w ≤ inner edges p + w := add_le_add (h.sum_le_inner hpos hnd) (le_refl w)
    _ ≤ inner edges (v :: p) := inner_add_le (List.mem_of_head? hu) hv hpos hj.symm
    _ ≤ total edges := inner_le_total hpos _

end

end CampusNet.WeightedGraph
