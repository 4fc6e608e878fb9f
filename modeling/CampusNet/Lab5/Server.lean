import CampusNet.Lib.CText
import CampusNet.Lib.Runs
import Mathlib.Data.List.AList
import Mathlib.Data.Int.Interval
import Mathlib.Data.Finset.Card

/-!
# The licence server

Model of `lab5/server.cpp`: the ticket table, one definition per request branch of the main
loop, and `ReclaimTickets`.

* `handle` — one request; `none` is an uncaught `out_of_range` of `substr`, which ends the loop.
* `serve` — one received datagram: an empty one, or one that does not fit the 511 bytes passed to
  `recvfrom` (an error return on this platform), is skipped.
* `reclaimTickets` — the liveness query is asked once for each entry; its answers are a parameter.
* `serverLoop` — datagrams and reclaim rounds in any order.

Principal results: `Effect` / `handle_effect` (all a request can do to the table), `Sound` and
`serverLoop_sound` (the count is the number of entries and every id lies in `1 … MAX_USERS`),
`searchId_spec` (the id search stops at the lowest free id), `reclaimTickets_owner`.
-/

namespace CampusNet.Licence

open Runs

def MAX_USERS : Nat := 3

/-- `map<int, int> g_tickets`: ticket id to pid. -/
abbrev Tickets := AList (fun _ : Int => Int)

/-- The pid a ticket id is mapped to. -/
def owner (tickets : Tickets) (ticketId : Int) : Option Int := tickets.lookup ticketId

structure Server where
  tickets : Tickets
  ticketCount : Int

def Server.start : Server := ⟨∅, 0⟩

/-- `while (g_tickets.find(ticketId) != g_tickets.end()) ticketId++`, with fuel. -/
def searchId (tickets : Tickets) : Nat → Int → Option Int
  | 0, _ => none
  | fuel + 1, ticketId =>
    if ticketId ∈ tickets then searchId tickets fuel (ticketId + 1) else some ticketId

/-- Enough rounds for the search: one for each entry and one more. -/
def searchFuel (tickets : Tickets) : Nat := tickets.entries.length + 1

def tickText (pid ticketId : Int) : Text :=
  "TICK ".toList ++ (decimal pid ++ '.' :: decimal ticketId)

/-- `g_tickets.erase(id); g_ticketCount--`. -/
def Server.remove (s : Server) (id : Int) : Server := ⟨s.tickets.erase id, s.ticketCount - 1⟩

/-- HELO branch. -/
def helo (s : Server) (pid : Int) : Option (Text × Server) :=
  if s.ticketCount ≥ MAX_USERS then some ("FAIL no tickets".toList, s)
  else do
    let ticketId ← searchId s.tickets (searchFuel s.tickets) 1
    some (tickText pid ticketId, ⟨s.tickets.insert ticketId pid, s.ticketCount + 1⟩)

/-- GBYE branch; only the id after the dot is looked at. -/
def gbye (s : Server) (ticketStr : Text) : Option (Text × Server) :=
  match find ticketStr '.' with
  | none => some ("FAIL invalid".toList, s)
  | some dotPos => do
    let ticketId := atoi (← substrFrom ticketStr (dotPos + 1))
    if ticketId ∈ s.tickets then some ("THNX bye".toList, s.remove ticketId)
    else some ("FAIL invalid".toList, s)

/-- VALID branch. -/
def valid (s : Server) (ticketStr : Text) : Option (Text × Server) :=
  match find ticketStr '.' with
  | none => some ("FAIL invalid".toList, s)
  | some dotPos => do
    let pid := atoi (ticketStr.take dotPos)
    let ticketId := atoi (← substrFrom ticketStr (dotPos + 1))
    if owner s.tickets ticketId = some pid then some ("GOOD valid".toList, s)
    else some ("FAIL invalid".toList, s)

def handle (s : Server) (request : Text) : Option (Text × Server) :=
  if request.take 4 = "HELO".toList then do helo s (atoi (← substrFrom request 5))
  else if request.take 4 = "GBYE".toList then do gbye s (← substrFrom request 5)
  else if request.take 5 = "VALID".toList then do valid s (← substrFrom request 6)
  else some ("FAIL unknown".toList, s)

/-- One turn of the loop: the response sent, if any, and the new state. -/
def serve (s : Server) (datagram : Text) : Option (Option Text × Server) :=
  if datagram.length = 0 ∨ 511 < datagram.length then some (none, s)
  else (handle s (cString datagram)).map fun r => (some r.1, r.2)

/-- `vector<int> toRemove`; `isProcessAlive ticketId pid` is the answer for that entry. -/
def toRemove (isProcessAlive : Int → Int → Bool) (tickets : Tickets) : List Int :=
  (tickets.entries.filter fun e => !isProcessAlive e.1 e.2).map (·.1)

def reclaimTickets (isProcessAlive : Int → Int → Bool) (s : Server) : Server :=
  (toRemove isProcessAlive s.tickets).foldl Server.remove s

inductive ServerAction where
  | datagram (d : Text)
  | reclaim (isProcessAlive : Int → Int → Bool)

def serverStep (s : Server) : ServerAction → Option Server
  | .datagram d => (serve s d).map (·.2)
  | .reclaim isProcessAlive => some (reclaimTickets isProcessAlive s)

/-- The main loop and the reclaim thread. -/
def serverLoop : Machine Server ServerAction := ⟨Server.start, serverStep⟩

/-! ## The id search -/

theorem searchId_some {tickets : Tickets} :
    ∀ {fuel : Nat} {i t : Int}, searchId tickets fuel i = some t →
      i ≤ t ∧ t ∉ tickets ∧ ∀ j, i ≤ j → j < t → j ∈ tickets
  | 0, _, _, h => by cases h
  | fuel + 1, i, t, h => by
    unfold searchId at h
    split at h
    · rename_i hi
      obtain ⟨h1, h2, h3⟩ := searchId_some h
      refine ⟨by omega, h2, fun j hj hjt => ?_⟩
      by_cases hji : j = i
      · rw [hji]; exact hi
      · exact h3 j (by omega) hjt
    · rename_i hi
      cases h
      exact ⟨le_refl _, hi, fun j hj hjt => by omega⟩

theorem searchId_none {tickets : Tickets} :
    ∀ {fuel : Nat} {i : Int}, searchId tickets fuel i = none →
      ∀ j, i ≤ j → j < i + fuel → j ∈ tickets
  | 0, _, _ => fun j hj hjt => by omega
  | fuel + 1, i, h => by
    unfold searchId at h
    split at h
    · rename_i hi
      intro j hj hjt
      by_cases hji : j = i
      · rw [hji]; exact hi
      · exact searchId_none h j (by omega) (by push_cast at hjt ⊢; omega)
    · cases h

/-- Pigeonhole: a table holds at most as many consecutive ids as it has entries. -/
theorem occupied_le_length {tickets : Tickets} {n : Nat} {i : Int}
    (h : ∀ j, i ≤ j → j < i + n → j ∈ tickets) : n ≤ tickets.entries.length := by
  have hsub : Finset.Ico i (i + n) ⊆ tickets.keys.toFinset := by
    intro j hj
    rw [Finset.mem_Ico] at hj
    exact List.mem_toFinset.mpr (h j hj.1 hj.2)
  have hcard := Finset.card_le_card hsub
  have hkeys : tickets.keys.toFinset.card ≤ tickets.keys.length := List.toFinset_card_le _
  simp only [Int.card_Ico, add_sub_cancel_left, Int.toNat_natCast] at hcard
  simp only [AList.keys, List.keys, List.length_map] at hkeys
  simp only [AList.keys, List.keys] at hcard
  omega

/-- **The search stops at the lowest free id**, no further than one past the number of entries. -/
theorem searchId_spec (tickets : Tickets) {fuel : Nat} (hf : searchFuel tickets ≤ fuel) :
    ∃ t, searchId tickets fuel 1 = some t ∧ t ∉ tickets ∧ 1 ≤ t ∧
      t ≤ tickets.entries.length + 1 ∧ ∀ j, 1 ≤ j → j < t → j ∈ tickets := by
  cases h : searchId tickets fuel 1 with
  | none =>
    have := occupied_le_length (searchId_none h)
    unfold searchFuel at hf; omega
  | some t =>
    obtain ⟨h1, h2, h3⟩ := searchId_some h
    have := occupied_le_length (n := (t - 1).toNat) (i := 1)
      (fun j hj hjt => h3 j hj (by omega))
    exact ⟨t, rfl, h2, h1, by omega, h3⟩

/-! ## What a request can do -/

/-- The table after one request: unchanged, one more entry at the lowest free id, or one fewer. -/
inductive Effect (s : Server) : Server → Prop
  | same : Effect s s
  | grant (pid t : Int) : s.ticketCount < MAX_USERS → t ∉ s.tickets → 1 ≤ t →
      t ≤ s.tickets.entries.length + 1 →
      Effect s ⟨s.tickets.insert t pid, s.ticketCount + 1⟩
  | release (t : Int) : t ∈ s.tickets → Effect s (s.remove t)

/-- HELO: refused at the limit, otherwise granted the lowest free id. -/
theorem helo_cases (s : Server) (pid : Int) :
    (MAX_USERS ≤ s.ticketCount ∧ helo s pid = some ("FAIL no tickets".toList, s)) ∨
    (s.ticketCount < MAX_USERS ∧ ∃ t, t ∉ s.tickets ∧ 1 ≤ t ∧ t ≤ s.tickets.entries.length + 1 ∧
      helo s pid = some (tickText pid t, ⟨s.tickets.insert t pid, s.ticketCount + 1⟩)) := by
  unfold helo
  by_cases hc : s.ticketCount ≥ MAX_USERS
  · exact Or.inl ⟨hc, if_pos hc⟩
  · obtain ⟨t, ht, hfree, h1, hle, _⟩ := searchId_spec s.tickets (le_refl _)
    refine Or.inr ⟨by omega, t, hfree, h1, hle, ?_⟩
    rw [if_neg hc, ht]; rfl

theorem gbye_cases {s s' : Server} {ticketStr r : Text} (h : gbye s ticketStr = some (r, s')) :
    (s' = s ∧ r = "FAIL invalid".toList) ∨
    (∃ t ∈ s.tickets, s' = s.remove t ∧ r = "THNX bye".toList) := by
  unfold gbye at h
  split at h
  · cases h; exact Or.inl ⟨rfl, rfl⟩
  · obtain ⟨rest, _, h⟩ := Option.bind_eq_some_iff.mp h
    simp only at h
    split at h
    · rename_i hmem
      cases h; exact Or.inr ⟨_, hmem, rfl, rfl⟩
    · cases h; exact Or.inl ⟨rfl, rfl⟩

/-- VALID never changes the table. -/
theorem valid_cases {s s' : Server} {ticketStr r : Text} (h : valid s ticketStr = some (r, s')) :
    s' = s ∧ (r = "FAIL invalid".toList ∨ r = "GOOD valid".toList) := by
  unfold valid at h
  split at h
  · cases h; exact ⟨rfl, Or.inl rfl⟩
  · obtain ⟨rest, _, h⟩ := Option.bind_eq_some_iff.mp h
    simp only at h
    split at h
    · cases h; exact ⟨rfl, Or.inr rfl⟩
    · cases h; exact ⟨rfl, Or.inl rfl⟩

/-- **Every handled request has one of the three effects.** -/
theorem handle_effect {s s' : Server} {request r : Text} (h : handle s request = some (r, s')) :
    Effect s s' := by
  unfold handle at h
  split at h
  · obtain ⟨rest, _, h⟩ := Option.bind_eq_some_iff.mp h
    rcases helo_cases s (atoi rest) with ⟨_, he⟩ | ⟨hc, t, hfree, h1, hle, he⟩
    · rw [he] at h; cases h; exact .same
    · rw [he] at h; cases h; exact .grant _ t hc hfree h1 hle
  split at h
  · obtain ⟨rest, _, h⟩ := Option.bind_eq_some_iff.mp h
    rcases gbye_cases h with ⟨rfl, _⟩ | ⟨t, ht, rfl, _⟩
    · exact .same
    · exact .release t ht
  split at h
  · obtain ⟨rest, _, h⟩ := Option.bind_eq_some_iff.mp h
    rw [(valid_cases h).1]; exact .same
  · cases h; exact .same

theorem serve_effect {s s' : Server} {d : Text} {r : Option Text}
    (h : serve s d = some (r, s')) : Effect s s' := by
  unfold serve at h
  split at h
  · cases h; exact .same
  · obtain ⟨p, hp, he⟩ := Option.map_eq_some_iff.mp h
    cases he; exact handle_effect hp

/-! ## The table -/

theorem owner_insert (tickets : Tickets) (t pid j : Int) :
    owner (tickets.insert t pid) j = if j = t then some pid else owner tickets j := by
  unfold owner
  by_cases h : j = t
  · subst h; simp [AList.lookup_insert]
  · simp [h, AList.lookup_insert_ne h]

theorem owner_erase (tickets : Tickets) (t j : Int) :
    owner (tickets.erase t) j = if j = t then none else owner tickets j := by
  unfold owner
  by_cases h : j = t
  · subst h; simp [AList.lookup_erase]
  · simp [h, AList.lookup_erase_ne h]

theorem mem_of_owner {tickets : Tickets} {t pid : Int} (h : owner tickets t = some pid) :
    t ∈ tickets :=
  AList.lookup_isSome.mp (by rw [← owner, h]; rfl)

theorem owner_of_mem {tickets : Tickets} {t : Int} (h : t ∈ tickets) :
    ∃ pid, owner tickets t = some pid :=
  Option.isSome_iff_exists.mp (AList.lookup_isSome.mpr h)

theorem length_insert {tickets : Tickets} {t pid : Int} (h : t ∉ tickets) :
    (tickets.insert t pid).entries.length = tickets.entries.length + 1 := by
  rw [AList.insert_of_notMem h]; rfl

theorem length_erase {tickets : Tickets} {t : Int} (h : t ∈ tickets) :
    (tickets.erase t).entries.length = tickets.entries.length - 1 := by
  have hk : (tickets.erase t).keys.length = tickets.keys.length - 1 := by
    rw [AList.keys_erase]; exact List.length_erase_of_mem h
  simpa [AList.keys, List.keys] using hk

theorem length_pos_of_mem {tickets : Tickets} {t : Int} (h : t ∈ tickets) :
    0 < tickets.entries.length := by
  have : 0 < tickets.keys.length := List.length_pos_of_mem h
  simpa [AList.keys, List.keys] using this

/-! ## Reclaiming -/

/-- The erase loop of `ReclaimTickets`. -/
theorem eraseLoop_spec : ∀ (ids : List Int) (s : Server), ids.Nodup → (∀ t ∈ ids, t ∈ s.tickets) →
    (ids.foldl Server.remove s).ticketCount = s.ticketCount - ids.length ∧
      (ids.foldl Server.remove s).tickets.entries.length + ids.length =
        s.tickets.entries.length ∧
      ∀ t, owner (ids.foldl Server.remove s).tickets t =
        if t ∈ ids then none else owner s.tickets t
  | [], s, _, _ => by simp
  | id :: ids, s, hnd, hmem => by
    rw [List.nodup_cons] at hnd
    have hid : id ∈ s.tickets := hmem id List.mem_cons_self
    have hrest : ∀ t ∈ ids, t ∈ (s.remove id).tickets := by
      intro t ht
      rw [Server.remove, AList.mem_erase]
      exact ⟨fun he => hnd.1 (he ▸ ht), hmem t (List.mem_cons_of_mem _ ht)⟩
    obtain ⟨h1, h2, h3⟩ := eraseLoop_spec ids (s.remove id) hnd.2 hrest
    have hlen := length_erase hid
    have hpos := length_pos_of_mem hid
    simp only [Server.remove] at h1 h2 h3
    simp only [List.foldl_cons, List.length_cons, Server.remove]
    refine ⟨by rw [h1]; push_cast; omega, by omega, fun t => ?_⟩
    rw [h3]
    by_cases hti : t = id <;> simp [hti, owner_erase]

theorem mem_toRemove {isProcessAlive : Int → Int → Bool} {tickets : Tickets} {t : Int} :
    t ∈ toRemove isProcessAlive tickets ↔
      ∃ pid, owner tickets t = some pid ∧ isProcessAlive t pid = false := by
  simp only [toRemove, List.mem_map, List.mem_filter, Bool.not_eq_true']
  constructor
  · rintro ⟨⟨k, pid⟩, ⟨hm, ha⟩, rfl⟩
    exact ⟨pid, AList.mem_lookup_iff.mpr hm, ha⟩
  · rintro ⟨pid, hl, ha⟩
    exact ⟨⟨t, pid⟩, ⟨AList.mem_lookup_iff.mp hl, ha⟩, rfl⟩

theorem toRemove_nodup (isProcessAlive : Int → Int → Bool) (tickets : Tickets) :
    (toRemove isProcessAlive tickets).Nodup :=
  (List.filter_sublist.map _).nodup tickets.keys_nodup

theorem toRemove_mem {isProcessAlive : Int → Int → Bool} {tickets : Tickets} {t : Int}
    (h : t ∈ toRemove isProcessAlive tickets) : t ∈ tickets := by
  obtain ⟨pid, hl, _⟩ := mem_toRemove.mp h
  exact mem_of_owner hl

/-- **A reclaim round removes exactly the entries answered dead.** -/
theorem reclaimTickets_owner (isProcessAlive : Int → Int → Bool) (s : Server) (t : Int) :
    owner (reclaimTickets isProcessAlive s).tickets t =
      (owner s.tickets t).filter (isProcessAlive t) := by
  have h := (eraseLoop_spec _ s (toRemove_nodup isProcessAlive s.tickets)
    (fun _ => toRemove_mem)).2.2 t
  rw [reclaimTickets, h]
  cases hl : owner s.tickets t with
  | none => simp
  | some pid =>
    cases ha : isProcessAlive t pid with
    | false => simp [mem_toRemove, hl, ha, Option.filter]
    | true => simp [mem_toRemove, hl, ha, Option.filter]

theorem reclaimTickets_size (isProcessAlive : Int → Int → Bool) (s : Server) :
    (reclaimTickets isProcessAlive s).ticketCount - s.ticketCount =
      (reclaimTickets isProcessAlive s).tickets.entries.length - s.tickets.entries.length := by
  obtain ⟨h1, h2, _⟩ := eraseLoop_spec _ s (toRemove_nodup isProcessAlive s.tickets)
    (fun _ => toRemove_mem)
  rw [reclaimTickets, h1]
  omega

theorem reclaimTickets_mem {isProcessAlive : Int → Int → Bool} {s : Server} {t : Int}
    (h : t ∈ (reclaimTickets isProcessAlive s).tickets) : t ∈ s.tickets := by
  obtain ⟨pid, hp⟩ := owner_of_mem h
  rw [reclaimTickets_owner] at hp
  cases hl : owner s.tickets t with
  | none => rw [hl] at hp; cases hp
  | some q => exact mem_of_owner hl

/-! ## The invariant -/

/-- The count is the number of entries and the ids lie in `1 … MAX_USERS`. -/
structure Sound (s : Server) : Prop where
  count : s.ticketCount = s.tickets.entries.length
  ids : ∀ t ∈ s.tickets, 1 ≤ t ∧ t ≤ MAX_USERS

theorem Sound.start : Sound Server.start :=
  ⟨rfl, fun t h => absurd h (AList.notMem_empty t)⟩

theorem Sound.effect {s s' : Server} (hs : Sound s) (h : Effect s s') : Sound s' := by
  cases h with
  | same => exact hs
  | grant pid t hc hfree h1 hle =>
    refine ⟨?_, fun j hj => ?_⟩
    · rw [hs.count, length_insert hfree]; rfl
    · rw [AList.mem_insert] at hj
      rcases hj with rfl | hj
      · have := hs.count; exact ⟨h1, by omega⟩
      · exact hs.ids j hj
  | release t ht =>
    refine ⟨?_, fun j hj => ?_⟩
    · have := length_pos_of_mem ht
      simp only [Server.remove, hs.count, length_erase ht]; omega
    · exact hs.ids j (AList.mem_erase.mp hj).2

theorem Sound.reclaim {s : Server} (hs : Sound s) (isProcessAlive : Int → Int → Bool) :
    Sound (reclaimTickets isProcessAlive s) := by
  refine ⟨?_, fun j hj => hs.ids j (reclaimTickets_mem hj)⟩
  have := reclaimTickets_size isProcessAlive s
  have := hs.count
  omega

theorem Sound.step {s s' : Server} {a : ServerAction} (hs : Sound s)
    (h : serverStep s a = some s') : Sound s' := by
  cases a with
  | datagram d =>
    obtain ⟨⟨r, t⟩, hserve, he⟩ := Option.map_eq_some_iff.mp h
    simp only at he
    rw [← he]
    exact hs.effect (serve_effect hserve)
  | reclaim isProcessAlive =>
    cases h; exact hs.reclaim isProcessAlive

theorem serverLoop_sound {s : Server} (h : Reachable serverLoop s) : Sound s :=
  h.induct Sound.start fun _ _ _ hs hstep => hs.step hstep

theorem Sound.length_le {s : Server} (hs : Sound s) : s.tickets.entries.length ≤ MAX_USERS := by
  have hsub : s.tickets.keys.toFinset ⊆ Finset.Icc 1 (MAX_USERS : Int) := by
    intro t ht
    rw [List.mem_toFinset] at ht
    exact Finset.mem_Icc.mpr (hs.ids t ht)
  have hcard := Finset.card_le_card hsub
  rw [List.toFinset_card_of_nodup s.tickets.keys_nodup, Int.card_Icc] at hcard
  simp only [AList.keys, List.keys, List.length_map] at hcard
  omega

/-- **A HELO is refused exactly when `MAX_USERS` tickets are outstanding**; otherwise it is given
an id that is free and at most `MAX_USERS`. -/
theorem Sound.helo {s : Server} (hs : Sound s) (pid : Int) :
    (s.tickets.entries.length = MAX_USERS ∧
      helo s pid = some ("FAIL no tickets".toList, s)) ∨
    (s.tickets.entries.length < MAX_USERS ∧ ∃ t, t ∉ s.tickets ∧ 1 ≤ t ∧ t ≤ MAX_USERS ∧
      helo s pid = some (tickText pid t, ⟨s.tickets.insert t pid, s.ticketCount + 1⟩)) := by
  have hcount := hs.count
  have hle := hs.length_le
  rcases helo_cases s pid with ⟨hc, he⟩ | ⟨hc, t, hfree, h1, ht, he⟩
  · exact Or.inl ⟨by omega, he⟩
  · exact Or.inr ⟨by omega, t, hfree, h1, by omega, he⟩

theorem tickText_ne_fail (pid t : Int) : tickText pid t ≠ "FAIL no tickets".toList := by
  intro h
  have hhead : some 'T' = some 'F' := congrArg List.head? h
  apply absurd hhead
  decide

/-- **The licence server's state invariant**, for any datagrams and reclaim rounds in any order. -/
theorem serverLoop_invariant {s : Server} (h : Reachable serverLoop s) :
    s.ticketCount = s.tickets.entries.length ∧ 0 ≤ s.ticketCount ∧ s.ticketCount ≤ MAX_USERS ∧
    (∀ t ∈ s.tickets, 1 ≤ t ∧ t ≤ MAX_USERS) ∧
    (∀ request r s', request.take 4 = "HELO".toList → handle s request = some (r, s') →
      (r = "FAIL no tickets".toList ↔ s.tickets.entries.length = MAX_USERS) ∧
      (s.tickets.entries.length = MAX_USERS → s' = s) ∧
      (s.tickets.entries.length ≠ MAX_USERS → ∃ pid t, t ∉ s.tickets ∧ 1 ≤ t ∧ t ≤ MAX_USERS ∧
        r = tickText pid t ∧ s' = ⟨s.tickets.insert t pid, s.ticketCount + 1⟩)) ∧
    (s.ticketCount < MAX_USERS → ∀ fuel, searchFuel s.tickets ≤ fuel →
      ∃ t, searchId s.tickets fuel 1 = some t ∧ t ∉ s.tickets ∧ t ≤ MAX_USERS) ∧
    (∀ isProcessAlive t, owner (reclaimTickets isProcessAlive s).tickets t =
      (owner s.tickets t).filter (isProcessAlive t)) := by
  have hs := serverLoop_sound h
  have hcount := hs.count
  have hle := hs.length_le
  refine ⟨hcount, by omega, by omega, hs.ids, ?_, ?_, fun isProcessAlive t =>
    reclaimTickets_owner isProcessAlive s t⟩
  · intro request r s' hreq hh
    unfold handle at hh
    rw [if_pos hreq] at hh
    obtain ⟨rest, _, hh⟩ := Option.bind_eq_some_iff.mp hh
    rcases hs.helo (atoi rest) with ⟨hfull, he⟩ | ⟨hroom, t, hfree, h1, ht, he⟩
    · rw [he] at hh; cases hh
      exact ⟨by simp [hfull], fun _ => rfl, fun hne => absurd hfull hne⟩
    · rw [he] at hh; cases hh
      refine ⟨⟨fun hr => absurd hr (tickText_ne_fail _ _), fun hr => by omega⟩,
        fun hr => by omega, fun _ => ⟨_, t, hfree, h1, ht, rfl, rfl⟩⟩
  · intro hroom fuel hf
    obtain ⟨t, he, hfree, _, ht, _⟩ := searchId_spec s.tickets hf
    exact ⟨t, he, hfree, by omega⟩

/-- Two grants and a release. -/
def oneHolder : Server := ⟨AList.erase 1 (AList.insert 2 8 (AList.insert 1 7 ∅)), 1⟩

theorem oneHolder_reachable : Reachable serverLoop oneHolder :=
  exec_reachable [.datagram "HELO 7".toList, .datagram "HELO 8".toList,
    .datagram "GBYE 7.1".toList] rfl

theorem serverLoop_invariant_oneHolder :
    (∃ t, searchId oneHolder.tickets 2 1 = some t ∧ t ∉ oneHolder.tickets ∧ t ≤ MAX_USERS) ∧
      owner (reclaimTickets (fun _ pid => pid != 8) oneHolder).tickets 2 = none := by
  obtain ⟨_, _, _, _, _, hsearch, hreclaim⟩ := serverLoop_invariant oneHolder_reachable
  exact ⟨hsearch (by decide) 2 (by decide), by rw [hreclaim]; decide⟩

end CampusNet.Licence
