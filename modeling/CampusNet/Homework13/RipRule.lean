import CampusNet.Homework13.RipUpdate

/-!
# The distance-vector rule

What an advertisement does to one route, and where the merge does something else: it lists an
unknown destination also when R2 cannot reach it.

* `ripRule` — the rule for one destination, as a function of the metric.
* `Implements` — a table follows the rule at every destination; `NoneUnreachable` — it lists no new
  destination at infinity.
* `merge_rip_iff` — the merge does both exactly when each destination new to R1 is reachable.
-/

namespace CampusNet.Rip

/-- The rule for one destination advertised at the metric `m`, over the neighbour `via`: a new
destination is added if it is reachable, a route over `via` takes the metric, and any other route is
replaced by a shorter one. -/
def ripRule (via : String) (m : Int) : Option RouteItem → Option RouteItem
  | none => if m < RIP_INFINITY then some ⟨via, m⟩ else none
  | some cur =>
    if cur.nextHop = via then some ⟨via, m⟩
    else if m < cur.cost then some ⟨via, m⟩
    else some cur

/-- The table `t'` is what the rule makes of `t`, destination by destination. -/
def Implements (t : Table) (adv : Advertised) (t' : Table) : Prop :=
  ∀ d : String, t'[d]? = (adv[d]?).elim t[d]? fun c => ripRule "R2" (min 16 (c + 1)) t[d]?

/-- No destination new in `t'` is unreachable. -/
def NoneUnreachable (t t' : Table) : Prop :=
  ∀ (d : String) (e : RouteItem), t'[d]? = some e → t[d]? = none → e.cost < RIP_INFINITY

/-- The merge and the rule differ on an unreachable destination that is new, and nowhere else. -/
theorem ripRule_eq_merged {c : Int} (hc : 0 ≤ c) (o : Option RouteItem) :
    ripRule "R2" (min 16 (c + 1)) o = some (merged c o) ↔ (o = none → c + 1 < 16) := by
  cases o with
  | none =>
    rw [ripRule, merged, clampCost_succ hc]
    unfold RIP_INFINITY
    by_cases hlt : c + 1 < 16
    · simp [hlt]
    · simp [hlt]
  | some cur =>
    rw [ripRule, merged, clampCost_succ hc]
    by_cases hr2 : cur.nextHop = "R2"
    · simp [hr2]
    · by_cases hlt : min 16 (c + 1) < cur.cost
      · simp [hr2, hlt]
      · simp [hr2, hlt]

/-- A destination new to `t` costs one hop more than for R2. -/
theorem getElem?_merge_new {t : Table} {adv : Advertised} {d : String} {c : Int}
    (hd : adv[d]? = some c) (ht : t[d]? = none) :
    (merge t adv)[d]? = some ⟨"R2", clampCost (c + 1)⟩ := by
  rw [getElem?_merge, hd, ht]
  rfl

/-- **The merge and the rule**: the merge follows the rule, and lists no new destination at
infinity, if and only if every destination advertised that is new to R1 is reachable over R2. -/
theorem merge_rip_iff (r1 : List (String × String × Int)) (r2 : List (String × Int)) :
    (Implements (readTable r1) (readAdvertised r2) (merge (readTable r1) (readAdvertised r2)) ∧
      NoneUnreachable (readTable r1) (merge (readTable r1) (readAdvertised r2))) ↔
    ∀ (d : String) (c : Int), (readAdvertised r2)[d]? = some c → (readTable r1)[d]? = none →
      c + 1 < 16 := by
  constructor
  · rintro ⟨-, hnone⟩ d c hd ht
    have hlt := hnone d _ (getElem?_merge_new hd ht) ht
    have hc := (readAdvertised_range r2 hd).1
    rw [clampCost_succ hc] at hlt
    dsimp only [RIP_INFINITY] at hlt
    omega
  · intro hreach
    constructor
    · intro d
      rw [getElem?_merge]
      cases hd : (readAdvertised r2)[d]? with
      | none => rfl
      | some c =>
        have hc := (readAdvertised_range r2 hd).1
        exact ((ripRule_eq_merged hc _).mpr (hreach d c hd)).symm
    · intro d e he ht
      cases hd : (readAdvertised r2)[d]? with
      | none =>
        rw [getElem?_merge, hd, Option.elim_none, ht] at he
        cases he
      | some c =>
        rw [getElem?_merge_new hd ht] at he
        obtain rfl := Option.some.inj he
        have hlt := hreach d c hd ht
        rw [clampCost_succ (readAdvertised_range r2 hd).1]
        dsimp only [RIP_INFINITY]
        omega

/-- R1 knows nothing, and R2 cannot reach `n1`: the merged table lists it at infinity. -/
theorem merge_lists_unreachable :
    ¬(Implements (readTable []) (readAdvertised [("n1", 16)])
        (merge (readTable []) (readAdvertised [("n1", 16)])) ∧
      NoneUnreachable (readTable []) (merge (readTable []) (readAdvertised [("n1", 16)]))) ∧
    (merge (readTable []) (readAdvertised [("n1", 16)])).toList = [("n1", ⟨"R2", 16⟩)] := by
  have hlist : (merge (readTable []) (readAdvertised [("n1", 16)]))["n1"]? = some ⟨"R2", 16⟩ := by
    decide +kernel
  refine ⟨?_, by decide +kernel⟩
  rintro ⟨-, hnone⟩
  have hlt := hnone "n1" _ hlist (by decide +kernel)
  exact absurd hlt (by decide)

end CampusNet.Rip
