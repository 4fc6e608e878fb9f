import CampusNet.Homework13.Greedy

/-!
# Negative edges trap the `prev` pointers

The relaxation tests neither the sign of a weight nor `vis`, so it can lower a label that is final.

* `Relaxed` / `relaxed_of_fold` — one round that did not overflow, whatever the weights are.
* `Trap` — the invariant from the first vertex with a negative edge on: `q` is the last vertex
  visited with a negative edge to a vertex not visited before it, and the vertices with labels below
  the one it was visited with have their predecessors among each other.
* `Trap.start`, `Trap.round` — what one round preserves; `mainLoop_trap` — the whole loop.
* `walkBack_none` — from inside the trap the reconstruction loop does not end.
-/

namespace CampusNet.Dijkstra

open WeightedGraph

/-! ## One round -/

/-- Labels only get smaller, every edge of `u` is relaxed, and what was written came from `u`. -/
structure Relaxed (u : Nat) (l : List Edge) (L L' : Labels) : Prop where
  vis : L'.vis = L.vis
  le : ∀ x, L'.dist x ≤ L.dist x
  edge : ∀ e ∈ l, L'.dist e.target ≤ L.dist u + e.w
  wrote : ∀ x, L'.dist x < L.dist x → L'.prev x = u ∧
    ∃ e ∈ l, e.target = x ∧ L'.dist u + e.w ≤ L'.dist x ∧ (x = u → e.w < 0)
  kept : ∀ x, L'.dist x = L.dist x → L'.prev x = L.prev x

theorem relaxEdge_some {u : Nat} {L L' : Labels} {e : Edge} (h : relaxEdge u L e = some L') :
    (L.dist u + e.w < L.dist e.target ∧ L' = L.lower e.target u (L.dist u + e.w)) ∨
    (L.dist e.target ≤ L.dist u + e.w ∧ L' = L) := by
  by_cases hfit : FitsInt (L.dist u + e.w)
  · rcases relaxEdge_spec hfit with ⟨hlt, he⟩ | ⟨hle, he⟩
    · exact Or.inl ⟨hlt, Option.some.inj (h.symm.trans he)⟩
    · exact Or.inr ⟨hle, Option.some.inj (h.symm.trans he)⟩
  · unfold relaxEdge checkedInt at h
    rw [if_neg hfit] at h
    cases h

theorem Relaxed.lower {u : Nat} {l : List Edge} {L L' : Labels} {e : Edge}
    (hlt : L.dist u + e.w < L.dist e.target)
    (h : Relaxed u l (L.lower e.target u (L.dist u + e.w)) L') : Relaxed u (e :: l) L L' := by
  have hself := L.lower_dist_self e.target u (L.dist u + e.w)
  have hdown := L.lower_dist_le (le_of_lt hlt) u
  refine { vis := h.vis, le := fun x => (h.le x).trans (hdown x), edge := ?edge, wrote := ?wrote,
           kept := ?kept }
  case edge =>
    rw [List.forall_mem_cons]
    constructor
    · exact (h.le e.target).trans (le_of_eq hself)
    · intro f hf
      exact (h.edge f hf).trans (Int.add_le_add_right (hdown u) f.w)
  case wrote =>
    intro x hx
    rcases lt_or_eq_of_le (h.le x) with hlater | hlast
    · obtain ⟨hprev, f, hf, hw⟩ := h.wrote x hlater
      exact ⟨hprev, f, List.mem_cons_of_mem e hf, hw⟩
    · -- written by `e`, and not again
      have hxe : x = e.target := by
        by_contra hne
        rw [hlast, L.lower_dist_of_ne hne] at hx
        exact lt_irrefl _ hx
      subst hxe
      refine ⟨(h.kept _ hlast).trans (L.lower_prev_self ..), e, List.mem_cons_self, rfl, ?_, ?_⟩
      · rw [hlast, hself]
        exact Int.add_le_add_right ((h.le u).trans (hdown u)) e.w
      · intro hloop
        rw [hloop] at hlt
        omega
  case kept =>
    intro x hx
    have hsame : L'.dist x = (L.lower e.target u (L.dist u + e.w)).dist x := by
      have := h.le x
      have := hdown x
      omega
    have hne : x ≠ e.target := by
      intro hxe
      rw [hsame, hxe, hself] at hx
      omega
    exact (h.kept x hsame).trans (L.lower_prev_of_ne hne u _)

/-- **A round that returns**, over any weights. -/
theorem relaxed_of_fold {u : Nat} : ∀ {l : List Edge} {L L' : Labels},
    l.foldlM (relaxEdge u) L = some L' → Relaxed u l L L'
  | [], L, L', h => by
    obtain rfl : L = L' := Option.some.inj h
    exact ⟨rfl, fun _ => le_refl _, by simp, by simp, fun _ _ => rfl⟩
  | e :: l, L, L', h => by
    rw [List.foldlM_cons] at h
    obtain ⟨L₁, he, hl⟩ := Option.bind_eq_some_iff.mp h
    have ih := relaxed_of_fold hl
    rcases relaxEdge_some he with ⟨hlt, rfl⟩ | ⟨hle, rfl⟩
    · exact ih.lower hlt
    · refine ⟨ih.vis, ih.le, ?_, ?_, ih.kept⟩
      · exact List.forall_mem_cons.mpr ⟨(ih.le _).trans hle, ih.edge⟩
      · intro x hx
        obtain ⟨hprev, f, hf, hw⟩ := ih.wrote x hx
        exact ⟨hprev, f, List.mem_cons_of_mem e hf, hw⟩

/-! ## The trap -/

/-- `q` was visited after `before`, with the label `d`, and had a negative edge to a vertex not
visited before it. -/
structure Trap (E : List (Nat × Nat × Int)) (n q : Nat) (d : Int) (before done : List Nat)
    (L : Labels) : Prop extends Visited n L done where
  mem : q ∈ done
  sub : before ⊆ done
  new : q ∉ before
  small : d ≤ INF
  back : ∀ v < n, v ∉ before → L.dist v < d →
    ∃ u : Nat, L.prev v = u ∧ u < n ∧ u ∉ before ∧ (u = q ∨ L.dist u < d)
  pull : ∀ z w, Joins E q z w → w < 0 → z ∉ done → L.dist z ≤ d + w
  hope : L.dist q < d ∨ ∃ z w, Joins E q z w ∧ w < 0 ∧ z ∉ done
  spent : ∀ y ∈ done, y ∉ before → y ≠ q → ∀ z w, Joins E y z w → w < 0 → z ∈ done

section

variable {E : List (Nat × Nat × Int)} {n src : Nat} {adj : Nat → List Edge}

theorem Visited.relaxed {u : Nat} {l : List Edge} {L L' : Labels} {done : List Nat}
    (h : Visited n L done) (hrun : Relaxed u l L L') : Visited n L' done :=
  ⟨by rw [hrun.vis]; exact h.vis, h.nodup, h.bound, fun v => (hrun.le v).trans (h.top v)⟩

/-- **Visiting** a vertex with a negative edge to a vertex not visited before it. -/
theorem Trap.start (hE : Listed E n src adj) {u : Nat} {L L' : Labels} {done : List Nat}
    (h : Visited n L (u :: done)) (hmin : ∀ v < n, v ∉ done → L.dist u ≤ L.dist v)
    (hneg : ∃ z w, Joins E u z w ∧ w < 0 ∧ z ∉ done) (hrun : Relaxed u (adj u) L L') :
    Trap E n u (L.dist u) done (u :: done) L' := by
  have hrelaxed : ∀ z w, Joins E u z w → L'.dist z ≤ L.dist u + w :=
    fun z w hj => hrun.edge ⟨z, w⟩ ((hE.adj u z w).mpr hj)
  have hnew := (List.nodup_cons.mp h.nodup).1
  refine { h.relaxed hrun with
           mem := List.mem_cons_self, sub := List.subset_cons_self u done, new := hnew,
           small := h.top u, back := ?back, pull := fun z w hj _ _ => hrelaxed z w hj,
           hope := ?hope, spent := ?spent }
  case back =>
    intro v hv hout hlt
    refine ⟨u, (hrun.wrote v ?_).1, h.bound u List.mem_cons_self, hnew, Or.inl rfl⟩
    exact lt_of_lt_of_le hlt (hmin v hv hout)
  case hope =>
    obtain ⟨z, w, hj, hw, hz⟩ := hneg
    by_cases hzu : z = u
    · subst hzu
      have := hrelaxed z w hj
      exact Or.inl (by omega)
    · exact Or.inr ⟨z, w, hj, hw, by simp [hzu, hz]⟩
  case spent =>
    intro y hy hout hne
    rcases List.mem_cons.mp hy with rfl | hy
    · exact absurd rfl hne
    · exact absurd hy hout

/-- **Visiting** a vertex whose negative edges all lead to vertices visited before it: outside
`before` it lowers labels below `d` only from below `d`. -/
theorem Trap.round (hE : Listed E n src adj) {q y : Nat} {d : Int} {L L' : Labels}
    {before done : List Nat} (h : Trap E n q d before done L) (hy : y ∉ done)
    (hvis : Visited n L' (y :: done)) (hquiet : ∀ z w, Joins E y z w → w < 0 → z ∈ done)
    (hrun : Relaxed y (adj y) (visit y L) L') : Trap E n q d before (y :: done) L' := by
  have hle : ∀ x, L'.dist x ≤ L.dist x := hrun.le
  have hjoin : ∀ e ∈ adj y, Joins E y e.target e.w := fun e he => (hE.adj y _ _).mp he
  have hout : ∀ z, z ∉ y :: done → z ∉ done :=
    fun z hz hmem => hz (List.mem_cons_of_mem y hmem)
  have hybefore : y ∉ before := fun hmem => hy (h.sub hmem)
  refine { hvis with
           mem := List.mem_cons_of_mem y h.mem, sub := List.subset_cons_of_subset y h.sub,
           new := h.new, small := h.small, back := ?back, pull := ?pull, hope := ?hope,
           spent := ?spent }
  case back =>
    intro v hv hnot hlt
    rcases lt_or_eq_of_le (hle v) with hdown | hsame
    · obtain ⟨hprev, e, he, rfl, hsum, -⟩ := hrun.wrote v hdown
      refine ⟨y, hprev, hvis.bound y List.mem_cons_self, hybefore, Or.inr ?_⟩
      have hj := hjoin e he
      by_cases hw : e.w < 0
      · by_cases hq : e.target = q
        · have hpull := h.pull y e.w (hq ▸ hj.symm) hw hy
          have := hle y
          omega
        · exact absurd (h.spent _ (hquiet _ _ hj hw) hnot hq y e.w hj.symm hw) hy
      · omega
    · rw [hsame] at hlt
      obtain ⟨u, hprev, hu, hubefore, hlow⟩ := h.back v hv hnot hlt
      refine ⟨u, (hrun.kept v hsame).trans hprev, hu, hubefore, hlow.imp_right fun hlow => ?_⟩
      exact lt_of_le_of_lt (hle u) hlow
  case pull =>
    intro z w hj hw hz
    exact (hle z).trans (h.pull z w hj hw (hout z hz))
  case hope =>
    rcases h.hope with hlow | ⟨z, w, hj, hw, hz⟩
    · exact Or.inl (lt_of_le_of_lt (hle q) hlow)
    · by_cases hzy : z = y
      · subst hzy
        have hpull := h.pull z w hj hw hz
        have hback : L'.dist q ≤ L.dist z + w :=
          hrun.edge ⟨q, w⟩ ((hE.adj z q w).mpr hj.symm)
        exact Or.inl (by omega)
      · exact Or.inr ⟨z, w, hj, hw, by simp [hzy, hz]⟩
  case spent =>
    intro x hx hnot hne z w hj hw
    rcases List.mem_cons.mp hx with rfl | hx
    · exact List.mem_cons_of_mem _ (hquiet z w hj hw)
    · exact List.mem_cons_of_mem _ (h.spent x hx hnot hne z w hj hw)

/-- With every vertex below `INF` visited, `q` has been lowered. -/
theorem Trap.lowered (hE : Listed E n src adj) {q : Nat} {d : Int} {L : Labels}
    {before done : List Nat} (h : Trap E n q d before done L)
    (hall : ∀ v < n, v ∉ done → INF ≤ L.dist v) : L.dist q < d := by
  refine h.hope.resolve_right ?_
  rintro ⟨z, w, hj, hw, hz⟩
  have := hall z (hE.lt hj) hz
  have := h.pull z w hj hw hz
  have := h.small
  omega

/-- **The rest of the loop**: each round visits one vertex more, starts a new trap or keeps the old
one. -/
theorem mainLoop_trap (hE : Listed E n src adj) :
    ∀ {steps q : Nat} {d : Int} {L L' : Labels} {before done : List Nat},
      Trap E n q d before done L → done.length + steps = n →
      mainLoop n adj steps L = some L' →
      ∃ q d before done, Trap E n q d before done L' ∧ L'.dist q < d
  | 0, q, d, L, L', before, done, h, hlen, hrun => by
    obtain rfl : L = L' := Option.some.inj hrun
    refine ⟨q, d, before, done, h, h.lowered hE fun v hv hout => ?_⟩
    exact absurd (h.all_of_length hlen v hv) hout
  | steps + 1, q, d, L, L', before, done, h, hlen, hrun => by
    rw [mainLoop] at hrun
    cases hs : select n L with
    | none =>
      rw [hs] at hrun
      obtain rfl : L = L' := Option.some.inj hrun
      refine ⟨q, d, before, done, h, h.lowered hE fun v hv hout => ?_⟩
      exact absurd (h.all_of_none hs v hv) hout
    | some y =>
      obtain ⟨hy, hmin, hvis⟩ := h.toVisited.selected hs
      rw [hs] at hrun
      dsimp only at hrun
      by_cases hinf : L.dist y = INF
      · rw [if_pos hinf] at hrun
        obtain rfl : L = L' := Option.some.inj hrun
        refine ⟨q, d, before, done, h, h.lowered hE fun v hv hout => ?_⟩
        rw [← hinf]
        exact hmin v hv hout
      · rw [if_neg hinf] at hrun
        obtain ⟨L₁, hfold, hrun⟩ := Option.bind_eq_some_iff.mp hrun
        have hround := relaxed_of_fold hfold
        have hlen' : (y :: done).length + steps = n := by
          rw [List.length_cons]
          omega
        by_cases hneg : ∃ z w, Joins E y z w ∧ w < 0 ∧ z ∉ done
        · exact mainLoop_trap hE (Trap.start hE hvis hmin hneg hround) hlen' hrun
        · push Not at hneg
          exact mainLoop_trap hE (h.round hE hy (hvis.relaxed hround) hneg hround) hlen' hrun

end

/-- A set of vertices whose predecessors stay inside holds the reconstruction loop for ever. -/
theorem walkBack_none {prev : Nat → Int} {S : Nat → Prop}
    (hS : ∀ v, S v → ∃ u : Nat, prev v = u ∧ S u) :
    ∀ (fuel v : Nat), S v → walkBack prev fuel v = none
  | 0, _, _ => rfl
  | fuel + 1, v, hv => by
    obtain ⟨u, hprev, hu⟩ := hS v hv
    have hne : (v : Int) ≠ -1 := by omega
    rw [walkBack, if_neg hne, Int.toNat_natCast, hprev, walkBack_none hS fuel u hu]
    rfl

/-- **From inside the trap** the reconstruction does not end. -/
theorem Trap.walkBack {E : List (Nat × Nat × Int)} {n q : Nat} {d : Int} {L : Labels}
    {before done : List Nat} (h : Trap E n q d before done L) (hlow : L.dist q < d) (fuel : Nat) :
    walkBack L.prev fuel q = none := by
  apply walkBack_none (S := fun v => v < n ∧ v ∉ before ∧ L.dist v < d)
  · rintro v ⟨hv, hout, hlt⟩
    obtain ⟨u, hprev, hu, hubefore, hu'⟩ := h.back v hv hout hlt
    refine ⟨u, hprev, hu, hubefore, ?_⟩
    rcases hu' with rfl | hu'
    · exact hlow
    · exact hu'
  · exact ⟨h.bound q h.mem, h.new, hlow⟩

end CampusNet.Dijkstra
