import CampusNet.Lib.KeyedFold
import Mathlib.Algebra.Order.Ring.Int
import Mathlib.Data.List.Induction
import Mathlib.Logic.Function.Iterate

/-!
# The RIP update program

Model of `homework13/rip_update.cpp`: the two tables read, and the merge of R2's table into R1's.  A
`std::map` is an extensional ordered map, so equal tables have equal entries.

* `clampCost`, `readTable`, `readAdvertised` — the input.
* `mergeEntry`, `merge` — the update loop.
* `merged` / `getElem?_merge` — the entry that the loop leaves, destination by destination.
* `merge_laws` — the merge is idempotent, local and independent of the order.
-/

namespace CampusNet.Rip

open KeyedFold

structure RouteItem where
  nextHop : String
  cost : Int
  deriving DecidableEq, Repr

def RIP_INFINITY : Int := 16

def clampCost (c : Int) : Int :=
  if c < 0 then RIP_INFINITY else if c > RIP_INFINITY then RIP_INFINITY else c

/-- `r1_table`. -/
abbrev Table := Std.ExtTreeMap String RouteItem

/-- `r2_table`. -/
abbrev Advertised := Std.ExtTreeMap String Int

/-- Lines `dest next_hop cost`; a later line replaces an earlier one. -/
def readTable (lines : List (String × String × Int)) : Table :=
  lines.foldl (fun t l => t.insert l.1 ⟨l.2.1, clampCost l.2.2⟩) ∅

/-- Lines `dest cost`. -/
def readAdvertised (lines : List (String × Int)) : Advertised :=
  lines.foldl (fun t l => t.insert l.1 (clampCost l.2)) ∅

/-- One destination of R2's table, one hop further. -/
def mergeEntry (t : Table) (e : String × Int) : Table :=
  let viaR2 := clampCost (e.2 + 1)
  match t[e.1]? with
  | none => t.insert e.1 ⟨"R2", viaR2⟩
  | some cur =>
    -- a route through R2 is refreshed, also to a larger cost
    if cur.nextHop = "R2" then t.insert e.1 { cur with cost := viaR2 }
    else if viaR2 < cur.cost then t.insert e.1 { cur with nextHop := "R2", cost := viaR2 }
    else t

def merge (t : Table) (adv : Advertised) : Table :=
  adv.foldl (fun t dest cost => mergeEntry t (dest, cost)) t

/-! ## Costs -/

theorem clampCost_range (c : Int) : 0 ≤ clampCost c ∧ clampCost c ≤ 16 := by
  unfold clampCost RIP_INFINITY
  split
  · omega
  · split
    · omega
    · omega

theorem clampCost_succ {c : Int} (hc : 0 ≤ c) : clampCost (c + 1) = min 16 (c + 1) := by
  unfold clampCost RIP_INFINITY
  rw [if_neg (by omega)]
  split
  · omega
  · omega

/-! ## The entry of one destination -/

/-- What the merge makes of a destination that R2 reaches for `c`. -/
def merged (c : Int) : Option RouteItem → RouteItem
  | none => ⟨"R2", clampCost (c + 1)⟩
  | some cur =>
    if cur.nextHop = "R2" then { cur with cost := clampCost (c + 1) }
    else if clampCost (c + 1) < cur.cost then ⟨"R2", clampCost (c + 1)⟩
    else cur

theorem getElem?_insert {R : Type} (t : Std.ExtTreeMap String R) (k j : String) (r : R) :
    (t.insert k r)[j]? = if j = k then some r else t[j]? := by
  rw [Std.ExtTreeMap.getElem?_insert]
  by_cases hj : j = k
  · simp [hj]
  · simp [hj, Ne.symm hj]

/-- **One step** changes the entry of its own destination. -/
theorem mergeEntry_keyed :
    Keyed (fun (t : Table) k => t[k]?) mergeEntry (fun c o => some (merged c o)) := by
  constructor
  · intro t k c
    unfold mergeEntry merged
    dsimp only
    cases hk : t[k]? with
    | none => simp
    | some cur =>
      dsimp only
      split
      · simp
      · split
        · simp
        · exact hk
  · intro t k c j hj
    unfold mergeEntry
    dsimp only
    cases hk : t[k]? with
    | none => simp [getElem?_insert, hj]
    | some cur =>
      dsimp only
      split
      · simp [getElem?_insert, hj]
      · split
        · simp [getElem?_insert, hj]
        · rfl

theorem merge_eq_foldl (t : Table) (adv : Advertised) :
    merge t adv = adv.toList.foldl mergeEntry t := Std.ExtTreeMap.foldl_eq_foldl_toList

theorem nodup_keys (adv : Advertised) : (adv.toList.map Prod.fst).Nodup := by
  rw [Std.ExtTreeMap.map_fst_toList_eq_keys]
  exact Std.ExtTreeMap.nodup_keys

theorem not_mem_keys {adv : Advertised} {d : String} (h : adv[d]? = none) :
    d ∉ adv.toList.map Prod.fst := by
  intro hmem
  obtain ⟨⟨k, c⟩, he, rfl⟩ := List.mem_map.mp hmem
  rw [Std.ExtTreeMap.mem_toList_iff_getElem?_eq_some.mp he] at h
  cases h

/-- **The merged table**, destination by destination. -/
theorem getElem?_merge (t : Table) (adv : Advertised) (d : String) :
    (merge t adv)[d]? = (adv[d]?).elim t[d]? fun c => some (merged c t[d]?) := by
  rw [merge_eq_foldl]
  cases hd : adv[d]? with
  | none => exact mergeEntry_keyed.foldl_other (not_mem_keys hd)
  | some c =>
    exact mergeEntry_keyed.foldl_own (nodup_keys adv)
      (Std.ExtTreeMap.mem_toList_iff_getElem?_eq_some.mpr hd)

/-- An adopted route is refreshed to the same cost. -/
theorem merged_merged (c : Int) (o : Option RouteItem) :
    merged c (some (merged c o)) = merged c o := by
  cases o with
  | none => rfl
  | some cur =>
    by_cases hr2 : cur.nextHop = "R2"
    · simp [merged, hr2]
    · by_cases hlt : clampCost (c + 1) < cur.cost
      · simp [merged, hr2, hlt]
      · simp [merged, hr2, hlt]

theorem merge_merge (t : Table) (adv : Advertised) : merge (merge t adv) adv = merge t adv := by
  simp only [merge_eq_foldl]
  apply Std.ExtTreeMap.ext_getElem?
  intro d
  exact mergeEntry_keyed.foldl_twice (fun c o => congrArg some (merged_merged c o))
    (nodup_keys adv) t d

/-- The merge repeated. -/
theorem merge_iterate (t : Table) (adv : Advertised) (n : Nat) :
    (fun t => merge t adv)^[n + 1] t = merge t adv := by
  induction n with
  | zero => rfl
  | succ n ih =>
    rw [Function.iterate_succ_apply', ih]
    exact merge_merge t adv

theorem merge_perm (t : Table) {adv : Advertised} {l : List (String × Int)}
    (hp : l.Perm adv.toList) : l.foldl mergeEntry t = merge t adv := by
  rw [merge_eq_foldl]
  apply Std.ExtTreeMap.ext_getElem?
  intro d
  exact mergeEntry_keyed.foldl_perm hp (nodup_keys adv) t d

/-! ## The tables read -/

/-- What holds of every line read holds of every entry. -/
theorem read_all {L R : Type} {P : R → Prop} {key : L → String} {val : L → R}
    (hval : ∀ l, P (val l)) (lines : List L) {d : String} {e : R}
    (h : (lines.foldl (fun t l => t.insert (key l) (val l))
      (∅ : Std.ExtTreeMap String R))[d]? = some e) : P e := by
  induction lines using List.reverseRecOn with
  | nil => simp at h
  | append_singleton lines l ih =>
    rw [List.foldl_append, List.foldl_cons, List.foldl_nil, getElem?_insert] at h
    split at h
    · obtain rfl := Option.some.inj h
      exact hval l
    · exact ih h

theorem readTable_range (lines : List (String × String × Int)) {d : String} {e : RouteItem}
    (h : (readTable lines)[d]? = some e) : 0 ≤ e.cost ∧ e.cost ≤ 16 :=
  read_all (P := fun e => 0 ≤ e.cost ∧ e.cost ≤ 16) (fun l => clampCost_range l.2.2) lines h

theorem readAdvertised_range (lines : List (String × Int)) {d : String} {c : Int}
    (h : (readAdvertised lines)[d]? = some c) : 0 ≤ c ∧ c ≤ 16 :=
  read_all (P := fun c => 0 ≤ c ∧ c ≤ 16) (fun l => clampCost_range l.2) lines h

/-- The merge keeps the range of the costs. -/
theorem merged_range (c : Int) {o : Option RouteItem}
    (ho : ∀ e ∈ o, 0 ≤ e.cost ∧ e.cost ≤ 16) :
    0 ≤ (merged c o).cost ∧ (merged c o).cost ≤ 16 := by
  have hc := clampCost_range (c + 1)
  cases o with
  | none => exact hc
  | some cur =>
    rw [merged]
    split
    · exact hc
    · split
      · exact hc
      · exact ho cur rfl

/-- An advertised destination costs at most one hop more than for R2, and exactly so through R2. -/
theorem merged_cost (c : Int) (o : Option RouteItem) :
    (merged c o).cost ≤ clampCost (c + 1) ∧
      ((merged c o).nextHop = "R2" → (merged c o).cost = clampCost (c + 1)) := by
  cases o with
  | none => simp [merged]
  | some cur =>
    rw [merged]
    split
    · simp
    · rename_i hr2
      split
      · simp
      · rename_i hge
        exact ⟨not_lt.mp hge, fun h => absurd h hr2⟩

/-- **The merge** of the tables read: repeating it changes nothing, the order of the destinations
does not matter, other destinations stay, costs stay in range, and an advertised destination costs
at most one hop more than for R2, exactly so through R2. -/
theorem merge_laws (r1 : List (String × String × Int)) (r2 : List (String × Int)) :
    (∀ n, 1 ≤ n → (fun t => merge t (readAdvertised r2))^[n] (readTable r1) =
      merge (readTable r1) (readAdvertised r2)) ∧
    (∀ l : List (String × Int), l.Perm (readAdvertised r2).toList →
      l.foldl mergeEntry (readTable r1) = merge (readTable r1) (readAdvertised r2)) ∧
    (∀ d : String, (readAdvertised r2)[d]? = none →
      (merge (readTable r1) (readAdvertised r2))[d]? = (readTable r1)[d]?) ∧
    (∀ (d : String) (e : RouteItem), (merge (readTable r1) (readAdvertised r2))[d]? = some e →
      0 ≤ e.cost ∧ e.cost ≤ 16) ∧
    ∀ (d : String) (c : Int), (readAdvertised r2)[d]? = some c →
      ∃ e : RouteItem, (merge (readTable r1) (readAdvertised r2))[d]? = some e ∧
        e.cost ≤ min 16 (c + 1) ∧ (e.nextHop = "R2" → e.cost = min 16 (c + 1)) := by
  refine ⟨?_, fun l hp => merge_perm _ hp, ?_, ?_, ?_⟩
  · intro n hn
    obtain ⟨m, rfl⟩ := Nat.exists_eq_add_of_le' hn
    exact merge_iterate _ _ m
  · intro d hd
    rw [getElem?_merge, hd]
    rfl
  · intro d e he
    rw [getElem?_merge] at he
    cases hd : (readAdvertised r2)[d]? with
    | none =>
      rw [hd] at he
      exact readTable_range r1 he
    | some c =>
      rw [hd] at he
      obtain rfl := Option.some.inj he
      exact merged_range c fun e he => readTable_range r1 he
  · intro d c hd
    refine ⟨merged c (readTable r1)[d]?, ?_, ?_⟩
    · rw [getElem?_merge, hd]
      rfl
    · rw [← clampCost_succ (readAdvertised_range r2 hd).1]
      exact merged_cost c _

/-- A refreshed route, an adopted one, a kept one and an unreachable one. -/
example : (merge (readTable [("n1", "R2", 3), ("n2", "R5", 9), ("n3", "R4", 2)])
    (readAdvertised [("n1", 7), ("n2", 1), ("n3", 4), ("n4", -1)])).toList =
    [("n1", ⟨"R2", 8⟩), ("n2", ⟨"R2", 2⟩), ("n3", ⟨"R4", 2⟩), ("n4", ⟨"R2", 16⟩)] := by
  decide +kernel

end CampusNet.Rip
