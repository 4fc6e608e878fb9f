import CampusNet.Lab5.TicketValidity
import CampusNet.Lib.SlotPool

/-!
# The licence server is a pool of three slots

What the server is for, without its texts, counter and search: a pool of `MAX_USERS` slots, in which
a process holds a slot.

* `Ask`, `parse` — what a datagram asks for; `none` is a text too short for its `substr`.
* `Server.pool` — the pool that the ticket table stands for.
* `serve_pool` — the server answers every datagram as the pool does.
* `serverLoop_refines` — every run of the loop is a run of the pool, reply by reply.
* `serverLoop_accounts` — the tickets granted are those thanked for, those reclaimed and the count.
-/

namespace CampusNet.Licence

open Runs SlotPool

abbrev LicencePool := Pool (Fin MAX_USERS) Int

/-- The ticket id of a slot. -/
def slotId (i : Fin MAX_USERS) : Int := i + 1

/-- The slot of a ticket id. -/
def slotOf (ticketId : Int) : Option (Fin MAX_USERS) :=
  if h : 1 ≤ ticketId ∧ ticketId ≤ MAX_USERS then some ⟨(ticketId - 1).toNat, by omega⟩ else none

def Server.pool (s : Server) : LicencePool := fun i => owner s.tickets (slotId i)

/-! ## Requests -/

inductive Ask where
  | skipped
  | unknown
  | op (o : Op (Fin MAX_USERS) Int)

/-- The pid and the id read from `pid.id` in the VALID branch. -/
def parsedTicket (ticketStr : Text) : Option (Int × Int) :=
  (find ticketStr '.').bind fun dotPos =>
    (substrFrom ticketStr (dotPos + 1)).map fun rest => (atoi (ticketStr.take dotPos), atoi rest)

/-- What a GBYE with this id asks for. -/
def releaseOp (ticketId : Option Int) : Op (Fin MAX_USERS) Int :=
  match ticketId.bind slotOf with
  | none => .nothing
  | some i => .release i

/-- What a VALID with this ticket asks for. -/
def checkOp (ticket : Option (Int × Int)) : Op (Fin MAX_USERS) Int :=
  match ticket with
  | none => .nothing
  | some (pid, ticketId) =>
    match slotOf ticketId with
    | none => .nothing
    | some i => .check i pid

def parse (d : Text) : Option Ask :=
  if d.length = 0 ∨ 511 < d.length then some .skipped
  else
    let request := cString d
    if request.take 4 = "HELO".toList then
      (substrFrom request 5).map fun rest => .op (.acquire (atoi rest))
    else if request.take 4 = "GBYE".toList then
      (substrFrom request 5).map fun ticketStr => .op (releaseOp (parsedId ticketStr))
    else if request.take 5 = "VALID".toList then
      (substrFrom request 6).map fun ticketStr => .op (checkOp (parsedTicket ticketStr))
    else some .unknown

def resultText : Result (Fin MAX_USERS) Int → Text
  | .granted pid i => tickText pid (slotId i)
  | .full => "FAIL no tickets".toList
  | .released => "THNX bye".toList
  | .confirmed => "GOOD valid".toList
  | .refused => "FAIL invalid".toList
  | .done => []

/-- The reply and the pool afterwards. -/
def Ask.run (p : LicencePool) : Ask → Option Text × LicencePool
  | .skipped => (none, p)
  | .unknown => (some "FAIL unknown".toList, p)
  | .op o => (some (resultText (p.step o).1), (p.step o).2)

/-! ## Slots and ids -/

theorem slotId_range (i : Fin MAX_USERS) : 1 ≤ slotId i ∧ slotId i ≤ MAX_USERS := by
  unfold slotId
  omega

theorem slotOf_slotId (i : Fin MAX_USERS) : slotOf (slotId i) = some i := by
  rw [slotOf, dif_pos (slotId_range i)]
  congr 1
  apply Fin.ext
  show (slotId i - 1).toNat = i
  unfold slotId
  omega

theorem slotOf_eq_some {t : Int} {i : Fin MAX_USERS} : slotOf t = some i ↔ t = slotId i := by
  constructor
  · intro h
    unfold slotOf at h
    split at h
    · cases h
      show t = ((t - 1).toNat : Int) + 1
      omega
    · cases h
  · rintro rfl
    exact slotOf_slotId i

theorem slotOf_eq_none {t : Int} : slotOf t = none ↔ ¬(1 ≤ t ∧ t ≤ MAX_USERS) := by
  unfold slotOf
  split
  · rename_i h
    simp [h]
  · rename_i h
    simp [h]

theorem slotId_injective {i j : Fin MAX_USERS} (h : slotId i = slotId j) : i = j := by
  have hslot := slotOf_slotId i
  rw [h, slotOf_slotId] at hslot
  exact (Option.some.inj hslot).symm

section

variable {s : Server}

theorem pool_eq_none {i : Fin MAX_USERS} : s.pool i = none ↔ slotId i ∉ s.tickets :=
  AList.lookup_eq_none

/-- An id outside the slots has no entry. -/
theorem Sound.owner_none (hs : Sound s) {t : Int} (ht : slotOf t = none) :
    owner s.tickets t = none := by
  rw [slotOf_eq_none] at ht
  apply AList.lookup_eq_none.mpr
  exact fun hmem => ht (hs.ids t hmem)

theorem pool_insert (i : Fin MAX_USERS) (pid n : Int) :
    Server.pool ⟨s.tickets.insert (slotId i) pid, n⟩ = Function.update s.pool i (some pid) := by
  funext j
  show owner (s.tickets.insert (slotId i) pid) (slotId j) = _
  rw [owner_insert]
  by_cases hj : j = i
  · rw [hj, if_pos rfl, Function.update_self]
  · rw [if_neg fun h => hj (slotId_injective h), Function.update_of_ne hj]
    rfl

theorem pool_remove (i : Fin MAX_USERS) :
    (s.remove (slotId i)).pool = Function.update s.pool i none := by
  funext j
  show owner (s.tickets.erase (slotId i)) (slotId j) = _
  rw [owner_erase]
  by_cases hj : j = i
  · rw [hj, if_pos rfl, Function.update_self]
  · rw [if_neg fun h => hj (slotId_injective h), Function.update_of_ne hj]
    rfl

/-- **The counter** is the number of slots held. -/
theorem Sound.pool_count (hs : Sound s) : (s.pool.count : Int) = s.ticketCount := by
  have hkeys : s.pool.held.map ⟨slotId, fun _ _ => slotId_injective⟩ = s.tickets.keys.toFinset := by
    ext t
    simp only [Finset.mem_map, Pool.mem_held, List.mem_toFinset]
    constructor
    · rintro ⟨i, hi, rfl⟩
      by_contra hout
      exact hi (pool_eq_none.mpr hout)
    · intro ht
      have ht' : t ∈ s.tickets := ht
      cases hslot : slotOf t with
      | none => exact absurd (hs.ids t ht') (slotOf_eq_none.mp hslot)
      | some i =>
        obtain rfl := slotOf_eq_some.mp hslot
        exact ⟨i, fun hnone => pool_eq_none.mp hnone ht', rfl⟩
  have hcard := congrArg Finset.card hkeys
  rw [Finset.card_map, List.toFinset_card_of_nodup s.tickets.keys_nodup] at hcard
  rw [Pool.count, hcard, hs.count]
  simp [AList.keys, List.keys]

/-! ## The branches -/

/-- The branch answers as the pool does on `o`, and the table stands for the pool afterwards. -/
def PoolStep (s : Server) (o : Op (Fin MAX_USERS) Int) (out : Option (Text × Server)) : Prop :=
  ∃ s', out = some (resultText (s.pool.step o).1, s') ∧ s'.pool = (s.pool.step o).2

theorem helo_pool (hs : Sound s) (pid : Int) : PoolStep s (.acquire pid) (helo s pid) := by
  have hcount := hs.pool_count
  unfold PoolStep helo
  by_cases hfull : s.ticketCount ≥ MAX_USERS
  · have hle : s.pool.count ≤ Fintype.card (Fin MAX_USERS) := s.pool.count_le
    have hall : s.pool.count = Fintype.card (Fin MAX_USERS) := by
      rw [Fintype.card_fin] at hle ⊢
      omega
    rw [if_pos hfull, s.pool.acquire_full pid hall]
    exact ⟨s, rfl, rfl⟩
  · obtain ⟨t, ht, hfree, h1, hle, hleast⟩ := searchId_spec s.tickets (le_refl _)
    have hcount' := hs.count
    obtain ⟨i, rfl⟩ : ∃ i, t = slotId i := by
      cases hslot : slotOf t with
      | none => exact absurd ⟨h1, by omega⟩ (slotOf_eq_none.mp hslot)
      | some i => exact ⟨i, slotOf_eq_some.mp hslot⟩
    have hstep : s.pool.step (.acquire pid) =
        (.granted pid i, Function.update s.pool i (some pid)) := by
      refine Pool.acquire_least (pool_eq_none.mpr hfree) (fun j hj hnone => ?_) pid
      refine pool_eq_none.mp hnone (hleast _ (slotId_range j).1 ?_)
      unfold slotId
      have hj' : j.val < i.val := hj
      omega
    rw [if_neg hfull, ht, hstep]
    exact ⟨_, rfl, pool_insert i pid _⟩

theorem substrFrom_after {x : Text} {c : Char} {pos : Nat} (h : find x c = some pos) :
    substrFrom x (pos + 1) = some (x.drop (pos + 1)) := by
  obtain ⟨hlt, -⟩ := List.findIdx?_eq_some_iff_getElem.mp h
  exact if_pos hlt

/-- A refusal leaves everything as it is. -/
theorem nothing_pool : PoolStep s .nothing (some ("FAIL invalid".toList, s)) := ⟨s, rfl, rfl⟩

theorem gbye_pool (hs : Sound s) (ticketStr : Text) :
    PoolStep s (releaseOp (parsedId ticketStr)) (gbye s ticketStr) := by
  unfold gbye parsedId
  cases hdot : find ticketStr '.' with
  | none => exact nothing_pool
  | some dotPos =>
    have hsub := substrFrom_after hdot
    simp only [Option.bind_some, hsub, Option.map_some, Option.bind_eq_bind, releaseOp]
    generalize atoi (ticketStr.drop (dotPos + 1)) = t
    cases hslot : slotOf t with
    | none =>
      have hnot : t ∉ s.tickets := AList.lookup_eq_none.mp (hs.owner_none hslot)
      rw [if_neg hnot]
      exact nothing_pool
    | some i =>
      obtain rfl := slotOf_eq_some.mp hslot
      unfold PoolStep
      by_cases hmem : slotId i ∈ s.tickets
      · have hheld : ¬s.pool i = none := fun hnone => pool_eq_none.mp hnone hmem
        have hstep : s.pool.step (.release i) = (.released, Function.update s.pool i none) :=
          if_neg hheld
        rw [if_pos hmem, hstep]
        exact ⟨_, rfl, pool_remove i⟩
      · have hstep : s.pool.step (.release i) = (.refused, s.pool) :=
          if_pos (pool_eq_none.mpr hmem)
        rw [if_neg hmem, hstep]
        exact ⟨s, rfl, rfl⟩

theorem valid_pool (hs : Sound s) (ticketStr : Text) :
    PoolStep s (checkOp (parsedTicket ticketStr)) (valid s ticketStr) := by
  unfold valid parsedTicket
  cases hdot : find ticketStr '.' with
  | none => exact nothing_pool
  | some dotPos =>
    have hsub := substrFrom_after hdot
    simp only [Option.bind_some, hsub, Option.map_some, Option.bind_eq_bind, checkOp]
    generalize atoi (ticketStr.drop (dotPos + 1)) = t
    generalize atoi (ticketStr.take dotPos) = pid
    cases hslot : slotOf t with
    | none =>
      have hother : ¬owner s.tickets t = some pid := by
        rw [hs.owner_none hslot]
        exact fun h => by cases h
      rw [if_neg hother]
      exact nothing_pool
    | some i =>
      obtain rfl := slotOf_eq_some.mp hslot
      unfold PoolStep
      by_cases howner : owner s.tickets (slotId i) = some pid
      · have hstep : s.pool.step (.check i pid) = (.confirmed, s.pool) := by
          rw [Pool.step, if_pos (show s.pool i = some pid from howner)]
        rw [if_pos howner, hstep]
        exact ⟨s, rfl, rfl⟩
      · have hstep : s.pool.step (.check i pid) = (.refused, s.pool) := by
          rw [Pool.step, if_neg (show ¬s.pool i = some pid from howner)]
        rw [if_neg howner, hstep]
        exact ⟨s, rfl, rfl⟩

/-- **One datagram**: the server throws exactly where the parse does, and answers all others as the
pool does. -/
theorem serve_pool (hs : Sound s) (d : Text) :
    match parse d with
    | none => serve s d = none
    | some request => ∃ s', serve s d = some ((request.run s.pool).1, s') ∧
        s'.pool = (request.run s.pool).2 := by
  unfold parse serve
  by_cases hlength : d.length = 0 ∨ 511 < d.length
  · rw [if_pos hlength, if_pos hlength]
    exact ⟨s, rfl, rfl⟩
  rw [if_neg hlength, if_neg hlength]
  unfold handle
  have hbranch : ∀ {o : Op (Fin MAX_USERS) Int} {out : Option (Text × Server)},
      PoolStep s o out → ∃ s', out.map (fun r => (some r.1, r.2)) =
        some (((Ask.op o).run s.pool).1, s') ∧ s'.pool = ((Ask.op o).run s.pool).2 := by
    rintro o out ⟨s', rfl, hpool⟩
    exact ⟨s', rfl, hpool⟩
  dsimp only
  by_cases hhelo : (cString d).take 4 = "HELO".toList
  · rw [if_pos hhelo, if_pos hhelo]
    cases hrest : substrFrom (cString d) 5 with
    | none => rfl
    | some rest => exact hbranch (helo_pool hs (atoi rest))
  rw [if_neg hhelo, if_neg hhelo]
  by_cases hgbye : (cString d).take 4 = "GBYE".toList
  · rw [if_pos hgbye, if_pos hgbye]
    cases hrest : substrFrom (cString d) 5 with
    | none => rfl
    | some ticketStr => exact hbranch (gbye_pool hs ticketStr)
  rw [if_neg hgbye, if_neg hgbye]
  by_cases hvalid : (cString d).take 5 = "VALID".toList
  · rw [if_pos hvalid, if_pos hvalid]
    cases hrest : substrFrom (cString d) 6 with
    | none => rfl
    | some ticketStr => exact hbranch (valid_pool hs ticketStr)
  rw [if_neg hvalid, if_neg hvalid]
  exact ⟨s, rfl, rfl⟩

/-- A reclaim round sweeps the pool. -/
theorem reclaim_pool (isProcessAlive : Int → Int → Bool) :
    (reclaimTickets isProcessAlive s).pool =
      fun i => (s.pool i).filter (isProcessAlive (slotId i)) := by
  funext i
  exact reclaimTickets_owner isProcessAlive s (slotId i)

end

/-! ## Runs -/

theorem parse_ne_sweep {d : Text} {o : Op (Fin MAX_USERS) Int} (h : parse d = some (.op o))
    (keep : Fin MAX_USERS → Int → Bool) : o ≠ .sweep keep := by
  rintro rfl
  unfold parse at h
  dsimp only at h
  split at h
  · cases h
  split at h
  · obtain ⟨rest, -, h⟩ := Option.map_eq_some_iff.mp h
    cases h
  split at h
  · obtain ⟨ticketStr, -, h⟩ := Option.map_eq_some_iff.mp h
    unfold releaseOp at h
    split at h <;> cases h
  split at h
  · obtain ⟨ticketStr, -, h⟩ := Option.map_eq_some_iff.mp h
    unfold checkOp at h
    split at h
    · cases h
    · split at h <;> cases h
  · cases h

def Ask.toOp : Ask → Op (Fin MAX_USERS) Int
  | .op o => o
  | _ => .nothing

/-- What a step of the server does to the pool. -/
def actionOp : ServerAction → Op (Fin MAX_USERS) Int
  | .datagram d => ((parse d).map Ask.toOp).getD .nothing
  | .reclaim isProcessAlive => .sweep fun i => isProcessAlive (slotId i)

theorem actionOp_of_none {d : Text} (h : parse d = none) : actionOp (.datagram d) = .nothing := by
  rw [actionOp, h]
  rfl

theorem actionOp_of_some {d : Text} {request : Ask} (h : parse d = some request) :
    actionOp (.datagram d) = request.toOp := by
  rw [actionOp, h]
  rfl

theorem step_pool {s s' : Server} {a : ServerAction} (hs : Sound s)
    (h : serverStep s a = some s') : s'.pool = (s.pool.step (actionOp a)).2 := by
  cases a with
  | datagram d =>
    obtain ⟨⟨r, t⟩, hserve, rfl⟩ := Option.map_eq_some_iff.mp h
    have hpool := serve_pool hs d
    cases hparse : parse d with
    | none =>
      rw [hparse] at hpool
      rw [hpool] at hserve
      cases hserve
    | some request =>
      rw [hparse] at hpool
      obtain ⟨t', hserve', hpool⟩ := hpool
      rw [hserve'] at hserve
      cases hserve
      rw [hpool, actionOp_of_some hparse]
      cases request with
      | skipped => rfl
      | unknown => rfl
      | op o => rfl
  | reclaim isProcessAlive =>
    cases h
    exact reclaim_pool isProcessAlive

theorem run_pool {h : List (Server × ServerAction)} {s : Server} (hr : Run serverLoop h s) :
    Run (SlotPool.pool (Fin MAX_USERS) Int) (h.map fun q => (q.1.pool, actionOp q.2)) s.pool := by
  refine Run.map (f := Server.pool) (g := actionOp) rfl (fun s a s' hs hstep => ?_) hr
  rw [step_pool (serverLoop_sound hs) hstep]
  rfl

/-- **The server is a pool**: every run of the loop, with any datagrams and reclaim rounds, is a run
of the pool, and behind it the server throws exactly on the texts that do not parse and answers all
others as the pool does. -/
theorem serverLoop_refines {h : List (Server × ServerAction)} {s : Server}
    (hr : Run serverLoop h s) :
    Run (SlotPool.pool (Fin MAX_USERS) Int) (h.map fun q => (q.1.pool, actionOp q.2)) s.pool ∧
      ∀ d, match parse d with
        | none => serve s d = none
        | some request => ∃ s', serve s d = some ((request.run s.pool).1, s') ∧
            s'.pool = (request.run s.pool).2 := by
  exact ⟨run_pool hr, serve_pool (serverLoop_sound hr.reachable)⟩

/-- A grant, a refused release and a release by another process's text. -/
theorem serverLoop_refines_release : ∃ h s, Run serverLoop h s ∧
    h.map Prod.snd = [.datagram "GBYE 9.1".toList, .datagram "GBYE 7.4".toList,
      .datagram "HELO 7".toList] ∧
    Run (SlotPool.pool (Fin MAX_USERS) Int) (h.map fun q => (q.1.pool, actionOp q.2)) s.pool := by
  have h1 : Run serverLoop [] serverLoop.init := .nil
  have h2 := h1.snoc (a := .datagram "HELO 7".toList) rfl
  have h3 := h2.snoc (a := .datagram "GBYE 7.4".toList) rfl
  have h4 := h3.snoc (a := .datagram "GBYE 9.1".toList) rfl
  exact ⟨_, _, h4, rfl, (serverLoop_refines h4).1⟩

/-! ## Accounts -/

/-- The reply that a step sends. -/
def reply : Server × ServerAction → Option Text
  | (s, .datagram d) => (serve s d).bind (·.1)
  | (_, .reclaim _) => none

/-- The replies that begin as a grant does. -/
def grants (h : List (Server × ServerAction)) : Nat :=
  h.countP fun q => (reply q).any fun r => r.take 4 == "TICK".toList

def thanks (h : List (Server × ServerAction)) : Nat :=
  h.countP fun q => reply q == some "THNX bye".toList

/-- The entries removed by a reclaim round. -/
def removed : Server × ServerAction → Nat
  | (_, .datagram _) => 0
  | (s, .reclaim isProcessAlive) => (toRemove isProcessAlive s.tickets).length

def reclaimed (h : List (Server × ServerAction)) : Nat := (h.map removed).sum

theorem isGranted_text (r : Result (Fin MAX_USERS) Int) :
    r.isGranted = ((resultText r).take 4 == "TICK".toList) := by
  cases r with
  | granted pid i => rfl
  | _ => decide

theorem isReleased_text (r : Result (Fin MAX_USERS) Int) :
    r.isReleased = (some (resultText r) == some "THNX bye".toList) := by
  cases r with
  | granted pid i => rfl
  | _ => decide

/-- **The reply tells** what the pool did. -/
theorem reply_pool {q : Server × ServerAction} (hs : Sound q.1) :
    (q.1.pool.step (actionOp q.2)).1.isGranted =
        (reply q).any (fun r => r.take 4 == "TICK".toList) ∧
      (q.1.pool.step (actionOp q.2)).1.isReleased = (reply q == some "THNX bye".toList) := by
  obtain ⟨s, a⟩ := q
  cases a with
  | datagram d =>
    have hpool := serve_pool hs d
    show (s.pool.step (actionOp (.datagram d))).1.isGranted =
        ((serve s d).bind (·.1)).any _ ∧ _ = ((serve s d).bind (·.1) == _)
    cases hparse : parse d with
    | none =>
      rw [hparse] at hpool
      rw [show serve s d = none from hpool, actionOp_of_none hparse]
      exact ⟨rfl, rfl⟩
    | some request =>
      rw [hparse] at hpool
      obtain ⟨s', hserve, -⟩ := hpool
      rw [show serve s d = _ from hserve, actionOp_of_some hparse]
      cases request with
      | skipped => exact ⟨rfl, rfl⟩
      | unknown => exact ⟨rfl, rfl⟩
      | op o => exact ⟨isGranted_text _, isReleased_text _⟩
  | reclaim isProcessAlive => exact ⟨rfl, rfl⟩

theorem removed_pool {q : Server × ServerAction} (hs : Sound q.1) :
    q.1.pool.swept (actionOp q.2) = removed q := by
  obtain ⟨s, a⟩ := q
  cases a with
  | datagram d =>
    show s.pool.swept (actionOp (.datagram d)) = 0
    cases hparse : parse d with
    | none =>
      rw [actionOp_of_none hparse]
      rfl
    | some request =>
      rw [actionOp_of_some hparse]
      cases request with
      | skipped => rfl
      | unknown => rfl
      | op o =>
        cases o with
        | sweep keep => exact absurd rfl (parse_ne_sweep hparse keep)
        | _ => rfl
  | reclaim isProcessAlive =>
    have hsound : Sound s := hs
    have hbefore := hsound.pool_count
    have hafter := (hsound.reclaim isProcessAlive).pool_count
    have hcount : (reclaimTickets isProcessAlive s).ticketCount =
        s.ticketCount - (toRemove isProcessAlive s.tickets).length :=
      (eraseLoop_spec _ s (toRemove_nodup isProcessAlive s.tickets) fun _ => toRemove_mem).1
    rw [reclaim_pool] at hafter
    show s.pool.count - Pool.count (fun i => (s.pool i).filter (isProcessAlive (slotId i))) = _
    simp only [removed]
    omega

/-- **The accounts of the server**: over any run, the grants sent are the releases thanked for, the
tickets reclaimed and the count. -/
theorem serverLoop_accounts {h : List (Server × ServerAction)} {s : Server}
    (hr : Run serverLoop h s) :
    (grants h : Int) = thanks h + reclaimed h + s.ticketCount := by
  have hok : ∀ q ∈ h, Function.const Server (fun _ : ServerAction => True) q.1 q.2 :=
    fun _ _ => trivial
  have hsound : Throughout Sound h s :=
    hr.always Sound.start (fun _ _ _ hs _ hstep => hs.step hstep) hok
  have hgrants : SlotPool.granted (h.map fun q => (q.1.pool, actionOp q.2)) = grants h := by
    rw [SlotPool.granted, List.countP_map, grants]
    exact List.countP_congr fun q hq => by rw [Function.comp, (reply_pool (hsound.1 q hq)).1]
  have hthanks : SlotPool.released (h.map fun q => (q.1.pool, actionOp q.2)) = thanks h := by
    rw [SlotPool.released, List.countP_map, thanks]
    exact List.countP_congr fun q hq => by rw [Function.comp, (reply_pool (hsound.1 q hq)).2]
  have hreclaimed : SlotPool.swept (h.map fun q => (q.1.pool, actionOp q.2)) = reclaimed h := by
    rw [SlotPool.swept, List.map_map, reclaimed]
    exact congrArg List.sum (List.map_congr_left fun q hq => removed_pool (hsound.1 q hq))
  have haccounts := pool_accounts (run_pool hr)
  rw [hgrants, hthanks, hreclaimed] at haccounts
  rw [← hsound.2.pool_count]
  omega

/-- Two grants, a release and a reclaim round in which every process is dead. -/
theorem serverLoop_accounts_emptied : ∃ h s, Run serverLoop h s ∧
    (grants h, thanks h, reclaimed h, s.ticketCount) = (2, 1, 1, 0) ∧
    (grants h : Int) = thanks h + reclaimed h + s.ticketCount := by
  have h1 : Run serverLoop [] serverLoop.init := .nil
  have h2 := h1.snoc (a := .datagram "HELO 7".toList) rfl
  have h3 := h2.snoc (a := .datagram "HELO 8".toList) rfl
  have h4 := h3.snoc (a := .datagram "GBYE 7.1".toList) rfl
  have h5 := h4.snoc (a := .reclaim fun _ _ => false) rfl
  exact ⟨_, _, h5, by decide +kernel, serverLoop_accounts h5⟩

end CampusNet.Licence
