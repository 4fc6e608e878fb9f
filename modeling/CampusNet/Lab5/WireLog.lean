import CampusNet.Lab5.LicencePool

/-!
# The ticket table, read off the wire

Whoever writes down the datagrams and the replies of the licence server, its reclaim rounds and its
restarts knows at any time who holds which ticket.  A restart, which `client.cpp` is written to
survive, makes the server forget every ticket.

* `serverLife` — the server loop, ended and started again at any time.
* `heard`, `holder` — what the log says of a ticket: the last grant, if nothing has ended it.
* `serve_heard` — one datagram does to the table what its reply says.
* `wireLog_decides` — the table is what the log says, and so is the answer to every VALID that names
  a ticket.
-/

namespace CampusNet.Licence

open Runs

inductive LifeAction where
  | loop (a : ServerAction)
  | restart

def lifeStep (s : Server) : LifeAction → Option Server
  | .loop a => serverStep s a
  | .restart => some Server.start

/-- The server process after process, any number of times. -/
def serverLife : Machine Server LifeAction := ⟨Server.start, lifeStep⟩

/-- The pid and the id of a grant, as its text gives them. -/
def ticketOf (r : Text) : Option (Int × Int) :=
  if r.take 4 = "TICK".toList then (substrFrom r 5).bind parsedTicket else none

/-- What is known of the ticket `t` after a datagram and its reply. -/
def heard (t : Int) (d : Text) (r : Option Text) (known : Option Int) : Option Int :=
  match r.bind ticketOf with
  | some (pid, ticketId) => if t = ticketId then some pid else known
  | none => if r = some "THNX bye".toList ∧ gbyeId d = some t then none else known

/-- The holder of the ticket `t`, by the log. -/
def holder (t : Int) : List (Server × LifeAction) → Option Int
  | [] => none
  | (_, .restart) :: _ => none
  | (_, .loop (.reclaim isProcessAlive)) :: h => (holder t h).filter (isProcessAlive t)
  | (s, .loop (.datagram d)) :: h => heard t d (reply (s, .datagram d)) (holder t h)

/-- The ticket that a VALID asks after. -/
def asked (d : Text) : Option (Int × Int) :=
  if d.length = 0 ∨ 511 < d.length then none
  else if (cString d).take 5 = "VALID".toList then (substrFrom (cString d) 6).bind parsedTicket
  else none

/-! ## Replies -/

theorem parsedTicket_ticketText {pid t : Int} (hpid : FitsInt pid) (ht : FitsInt t) :
    parsedTicket (ticketText pid t) = some (pid, t) := by
  have htake : (ticketText pid t).take (decimal pid).length = decimal pid := by simp [ticketText]
  rw [parsedTicket, find_ticketText, Option.bind_some, substrFrom_ticketText, Option.map_some,
    htake, atoi_decimal hpid, atoi_decimal ht]

/-- A grant can be read back. -/
theorem ticketOf_tickText {pid t : Int} (hpid : FitsInt pid) (ht : FitsInt t) :
    ticketOf (tickText pid t) = some (pid, t) := by
  have htick : (tickText pid t).take 4 = "TICK".toList := rfl
  rw [ticketOf, if_pos htick, substrFrom_tickText, Option.bind_some,
    parsedTicket_ticketText hpid ht]

section

variable {t : Int} {d : Text} {known : Option Int}

theorem heard_granted {pid ticketId : Int} (hpid : FitsInt pid) (hid : FitsInt ticketId) :
    heard t d (some (tickText pid ticketId)) known = if t = ticketId then some pid else known := by
  rw [heard, Option.bind_some, ticketOf_tickText hpid hid]

theorem heard_thanked : heard t d (some "THNX bye".toList) known =
    if gbyeId d = some t then none else known := by
  have hother : ticketOf "THNX bye".toList = none := by decide
  rw [heard, Option.bind_some, hother]
  simp only [true_and]

/-- Every other reply says nothing. -/
theorem heard_other {r : Text} (htick : r.take 4 ≠ "TICK".toList)
    (hthanks : r ≠ "THNX bye".toList) :
    heard t d (some r) known = known := by
  have hother : ticketOf r = none := if_neg htick
  rw [heard, Option.bind_some, hother]
  exact if_neg fun h => hthanks (Option.some.inj h.1)

end

variable {s s' : Server}

/-- A GBYE is refused, or thanked for by removing the id it names. -/
theorem gbye_heard {d ticketStr r : Text} (hid : gbyeId d = parsedId ticketStr)
    (h : gbye s ticketStr = some (r, s')) (t : Int) :
    owner s'.tickets t = heard t d (some r) (owner s.tickets t) := by
  unfold gbye at h
  split at h
  · cases h
    exact (heard_other (by decide) (by decide)).symm
  · rename_i dotPos hdot
    obtain ⟨rest, hrest, h⟩ := Option.bind_eq_some_iff.mp h
    simp only at h
    split at h
    · cases h
      rw [parsedId, hdot, Option.bind_some, hrest, Option.map_some] at hid
      rw [heard_thanked, hid, Server.remove, owner_erase]
      exact if_congr (by rw [Option.some.injEq, eq_comm]) rfl rfl
    · cases h
      exact (heard_other (by decide) (by decide)).symm

theorem handle_heard (hs : Sound s) {d request r : Text}
    (hid : request.take 4 = "GBYE".toList → gbyeId d = (substrFrom request 5).bind parsedId)
    (h : handle s request = some (r, s')) (t : Int) :
    owner s'.tickets t = heard t d (some r) (owner s.tickets t) := by
  unfold handle at h
  split at h
  · obtain ⟨rest, -, h⟩ := Option.bind_eq_some_iff.mp h
    have hcount := hs.count
    rcases helo_cases s (atoi rest) with ⟨-, hhelo⟩ | ⟨hroom, ticketId, -, h1, hle, hhelo⟩
    · rw [hhelo] at h
      cases h
      exact (heard_other (by decide) (by decide)).symm
    · rw [hhelo] at h
      cases h
      have hid : FitsInt ticketId := fitsInt_of_id h1 (by omega)
      rw [heard_granted (atoi_fits rest) hid, owner_insert]
  split at h
  · rename_i hgbye
    obtain ⟨ticketStr, hsub, h⟩ := Option.bind_eq_some_iff.mp h
    refine gbye_heard ?_ h t
    rw [hid hgbye, hsub, Option.bind_some]
  split at h
  · obtain ⟨ticketStr, -, h⟩ := Option.bind_eq_some_iff.mp h
    obtain ⟨rfl, rfl | rfl⟩ := valid_cases h
    · exact (heard_other (by decide) (by decide)).symm
    · exact (heard_other (by decide) (by decide)).symm
  · cases h
    exact (heard_other (by decide) (by decide)).symm

/-- **The reply tells** what the datagram did to each ticket. -/
theorem serve_heard (hs : Sound s) {d : Text} {r : Option Text} (h : serve s d = some (r, s'))
    (t : Int) : owner s'.tickets t = heard t d r (owner s.tickets t) := by
  unfold serve at h
  split at h
  · cases h
    simp [heard]
  · rename_i hlength
    obtain ⟨⟨answer, s1⟩, hp, he⟩ := Option.map_eq_some_iff.mp h
    cases he
    refine handle_heard hs (fun hgbye => ?_) hp t
    rw [gbyeId, if_neg hlength, if_pos hgbye]

/-- A VALID is answered from the table alone. -/
theorem serve_asked {d : Text} {pid t : Int} (h : asked d = some (pid, t)) :
    serve s d = some (some (if owner s.tickets t = some pid then "GOOD valid".toList
      else "FAIL invalid".toList), s) := by
  unfold asked at h
  split at h
  · cases h
  rename_i hlength
  split at h
  · rename_i hvalid
    obtain ⟨ticketStr, hsub, h⟩ := Option.bind_eq_some_iff.mp h
    obtain ⟨dotPos, hdot, h⟩ := Option.bind_eq_some_iff.mp h
    obtain ⟨rest, hrest, h⟩ := Option.map_eq_some_iff.mp h
    obtain ⟨rfl, rfl⟩ := Prod.mk.inj h
    have hhead : (cString d).take 4 = "VALI".toList := by
      have htake := congrArg (List.take 4) hvalid
      rwa [List.take_take] at htake
    have hhelo : ¬(cString d).take 4 = "HELO".toList := by rw [hhead]; decide
    have hgbye : ¬(cString d).take 4 = "GBYE".toList := by rw [hhead]; decide
    rw [serve, if_neg hlength, handle, if_neg hhelo, if_neg hgbye, if_pos hvalid, hsub]
    simp only [Option.bind_eq_bind, Option.bind_some, valid, hdot, hrest]
    split
    · rfl
    · rfl
  · cases h

/-! ## The log -/

theorem serverLife_sound {s : Server} (hs : Reachable serverLife s) : Sound s := by
  refine hs.induct Sound.start fun s a s' hsound hstep => ?_
  cases a with
  | loop a => exact hsound.step hstep
  | restart =>
    cases hstep
    exact Sound.start

theorem owner_eq_holder {h : List (Server × LifeAction)} {s : Server} (hr : Run serverLife h s)
    (t : Int) : owner s.tickets t = holder t h := by
  induction hr with
  | nil => rfl
  | @snoc h s s' a hr hstep ih =>
    cases a with
    | restart =>
      cases hstep
      rfl
    | loop a =>
      cases a with
      | datagram d =>
        obtain ⟨⟨r, s1⟩, hserve, rfl⟩ := Option.map_eq_some_iff.mp hstep
        have hreply : reply (s, .datagram d) = r := by rw [reply, hserve, Option.bind_some]
        rw [serve_heard (serverLife_sound hr.reachable) hserve, holder, hreply, ih]
      | reclaim isProcessAlive =>
        cases hstep
        rw [reclaimTickets_owner, holder, ih]

/-- **The log decides**: after any datagrams, reclaim rounds and restarts, the server has a ticket
for a process exactly when the log says so: when the last grant of the ticket, since the last
restart, was to that process and neither a release that was thanked for nor a reclaim round has
ended it.  A VALID that names a ticket is answered accordingly, whoever sends it. -/
theorem wireLog_decides {h : List (Server × LifeAction)} {s : Server} (hr : Run serverLife h s) :
    (∀ t, owner s.tickets t = holder t h) ∧
    ∀ d pid t, asked d = some (pid, t) →
      serve s d = some (some (if holder t h = some pid then "GOOD valid".toList
        else "FAIL invalid".toList), s) := by
  refine ⟨owner_eq_holder hr, fun d pid t hd => ?_⟩
  rw [← owner_eq_holder hr]
  exact serve_asked hd

/-- The ticket 1 is granted to process 7 and, after a restart, to process 8: the old ticket is no
longer valid, although its number is in use. -/
theorem wireLog_decides_restart : ∃ h s, Run serverLife h s ∧
    h.map Prod.snd = [.loop (.datagram "HELO 8".toList), .restart,
      .loop (.datagram "HELO 7".toList)] ∧
    (serve s "VALID 7.1".toList).map Prod.fst = some (some "FAIL invalid".toList) ∧
    (serve s "VALID 8.1".toList).map Prod.fst = some (some "GOOD valid".toList) := by
  have h1 : Run serverLife [] serverLife.init := .nil
  have h2 := h1.snoc (a := .loop (.datagram "HELO 7".toList)) rfl
  have h3 := h2.snoc (a := .restart) rfl
  have h4 := h3.snoc (a := .loop (.datagram "HELO 8".toList)) rfl
  have hanswer := (wireLog_decides h4).2
  refine ⟨_, _, h4, rfl, ?_, ?_⟩
  · rw [hanswer _ 7 1 (by decide)]
    decide +kernel
  · rw [hanswer _ 8 1 (by decide)]
    decide +kernel

end CampusNet.Licence
