import CampusNet.Lab5.Client

/-!
# A ticket between its grant and its release

Runs of the server loop that start where a request has just been answered, for any traffic of any
senders and any reclaim rounds.

* `serve_cases` — the table changes by a grant that the answer names, or by the GBYE whose parsed
  id is removed.
* `Keeps` / `granted_after` — the entry of a ticket stays until a GBYE of its id or a reclaim
  round that finds its process dead.
* `NotGranted` / `released_after` — a released ticket stays invalid until it is granted again.
* `ticket_validity` — what VALID is answered on the two sides.
-/

namespace CampusNet.Licence

open Runs

/-- The id read from `pid.id` in the GBYE branch. -/
def parsedId (ticketStr : Text) : Option Int :=
  (find ticketStr '.').bind fun dotPos => (substrFrom ticketStr (dotPos + 1)).map atoi

/-- The parsed id of a datagram that is a GBYE. -/
def gbyeId (d : Text) : Option Int :=
  if d.length = 0 ∨ 511 < d.length then none
  else if (cString d).take 4 = "GBYE".toList then (substrFrom (cString d) 5).bind parsedId
  else none

/-- The server loop, started in a given state. -/
def serverLoopFrom (s : Server) : Machine Server ServerAction := ⟨s, serverStep⟩

/-! ## How the table changes -/

theorem gbye_removes {s s' : Server} {ticketStr r : Text} (h : gbye s ticketStr = some (r, s')) :
    s' = s ∨ ∃ t, parsedId ticketStr = some t ∧ s' = s.remove t := by
  unfold gbye at h
  split at h
  · cases h
    exact Or.inl rfl
  · rename_i dotPos hdot
    obtain ⟨rest, hrest, h⟩ := Option.bind_eq_some_iff.mp h
    simp only at h
    split at h
    · cases h
      refine Or.inr ⟨atoi rest, ?_, rfl⟩
      rw [parsedId, hdot, Option.bind_some, hrest]
      rfl
    · cases h
      exact Or.inl rfl

/-- **The table after one datagram**: as before, with one more entry, which the answer names, or
without the entry of the id that a GBYE gives. -/
theorem serve_cases {s s' : Server} {d : Text} {r : Option Text}
    (h : serve s d = some (r, s')) :
    s' = s ∨
    (∃ pid t, t ∉ s.tickets ∧ r = some (tickText pid t) ∧
      s' = ⟨s.tickets.insert t pid, s.ticketCount + 1⟩) ∨
    (∃ t, gbyeId d = some t ∧ s' = s.remove t) := by
  unfold serve at h
  split at h
  · cases h
    exact Or.inl rfl
  · rename_i hlength
    obtain ⟨⟨answer, t⟩, hp, he⟩ := Option.map_eq_some_iff.mp h
    cases he
    unfold handle at hp
    split at hp
    · obtain ⟨rest, -, hp⟩ := Option.bind_eq_some_iff.mp hp
      rcases helo_cases s (atoi rest) with ⟨-, hhelo⟩ | ⟨-, t, hfree, -, -, hhelo⟩
      · rw [hhelo] at hp
        cases hp
        exact Or.inl rfl
      · rw [hhelo] at hp
        cases hp
        exact Or.inr (Or.inl ⟨atoi rest, t, hfree, rfl, rfl⟩)
    split at hp
    · rename_i hgbye
      obtain ⟨rest, hrest, hp⟩ := Option.bind_eq_some_iff.mp hp
      rcases gbye_removes hp with rfl | ⟨t, ht, rfl⟩
      · exact Or.inl rfl
      · refine Or.inr (Or.inr ⟨t, ?_, rfl⟩)
        rw [gbyeId, if_neg hlength, if_pos hgbye, hrest, Option.bind_some, ht]
    split at hp
    · obtain ⟨rest, -, hp⟩ := Option.bind_eq_some_iff.mp hp
      exact Or.inl (valid_cases hp).1
    · cases hp
      exact Or.inl rfl

/-! ## The two sides -/

/-- The step is not a GBYE of the id, and not a reclaim round that finds the process dead. -/
def Keeps (p t : Int) : ServerAction → Prop
  | .datagram d => gbyeId d ≠ some t
  | .reclaim isProcessAlive => isProcessAlive t p = true

/-- The step is not a request answered with the ticket. -/
def NotGranted (p t : Int) (s : Server) : ServerAction → Prop
  | .datagram d => ∀ s', serve s d ≠ some (some (tickText p t), s')
  | .reclaim _ => True

theorem owner_kept {p t : Int} {s s' : Server} {a : ServerAction}
    (h : owner s.tickets t = some p) (ha : Keeps p t a) (hstep : serverStep s a = some s') :
    owner s'.tickets t = some p := by
  cases a with
  | datagram d =>
    obtain ⟨⟨r, s1⟩, hserve, rfl⟩ := Option.map_eq_some_iff.mp hstep
    rcases serve_cases hserve with rfl | ⟨q, j, hfree, -, rfl⟩ | ⟨j, hid, rfl⟩
    · exact h
    · have hne : t ≠ j := by
        rintro rfl
        exact hfree (mem_of_owner h)
      rw [owner_insert, if_neg hne, h]
    · have hne : t ≠ j := by
        rintro rfl
        exact ha hid
      rw [Server.remove, owner_erase, if_neg hne, h]
  | reclaim isProcessAlive =>
    cases hstep
    have halive : isProcessAlive t p = true := ha
    rw [reclaimTickets_owner, h, Option.filter_some, if_pos halive]

theorem owner_other {p t : Int} {s s' : Server} {a : ServerAction}
    (h : owner s.tickets t ≠ some p) (ha : NotGranted p t s a)
    (hstep : serverStep s a = some s') : owner s'.tickets t ≠ some p := by
  cases a with
  | datagram d =>
    obtain ⟨⟨r, s1⟩, hserve, rfl⟩ := Option.map_eq_some_iff.mp hstep
    rcases serve_cases hserve with rfl | ⟨q, j, hfree, rfl, rfl⟩ | ⟨j, hid, rfl⟩
    · exact h
    · rw [owner_insert]
      split
      · rename_i hj
        rintro hq
        cases hq
        rw [hj] at ha
        exact ha _ hserve
      · exact h
    · rw [Server.remove, owner_erase]
      split
      · intro hnone
        cases hnone
      · exact h
  | reclaim isProcessAlive =>
    cases hstep
    rw [reclaimTickets_owner]
    intro hfilter
    exact h (Option.filter_eq_some_iff.mp hfilter).1

/-- **After a grant** the ticket's entry stays. -/
theorem granted_after {p t : Int} {s s' : Server} {h : List (Server × ServerAction)}
    (h0 : owner s.tickets t = some p) (hr : Run (serverLoopFrom s) h s')
    (hok : ∀ q ∈ h, Keeps p t q.2) : owner s'.tickets t = some p := by
  have hok' : ∀ q ∈ h, Function.const Server (Keeps p t) q.1 q.2 := hok
  have hall : Throughout (fun s => owner s.tickets t = some p) h s' := by
    refine hr.always h0 ?_ hok'
    intro s a s' hI ha hstep
    exact owner_kept hI ha hstep
  exact hall.2

/-- **After a release** the ticket's pid does not get the entry back unasked. -/
theorem released_after {p t : Int} {s s' : Server} {h : List (Server × ServerAction)}
    (h0 : owner s.tickets t ≠ some p) (hr : Run (serverLoopFrom s) h s')
    (hok : ∀ q ∈ h, NotGranted p t q.1 q.2) : owner s'.tickets t ≠ some p := by
  have hall : Throughout (fun s => owner s.tickets t ≠ some p) h s' := by
    refine hr.always h0 ?_ hok
    intro s a s' hI ha hstep
    exact owner_other hI ha hstep
  exact hall.2

/-! ## What VALID is answered -/

theorem serve_helo_granted {p t : Int} {s s' : Server} (hp : FitsInt p)
    (hs : Reachable serverLoop s)
    (h : serve s (heloText p) = some (some (tickText p t), s')) :
    FitsInt t ∧ owner s'.tickets t = some p := by
  rw [serve_helo hp] at h
  rcases (serverLoop_sound hs).helo p with ⟨-, he⟩ | ⟨-, j, -, h1, h2, he⟩
  · rw [he] at h
    have hfail : "FAIL no tickets".toList = tickText p t :=
      Option.some.inj (Prod.mk.inj (Option.some.inj h)).1
    exact absurd hfail.symm (tickText_ne_fail p t)
  · rw [he] at h
    obtain ⟨hanswer, rfl⟩ := Prod.mk.inj (Option.some.inj h)
    obtain ⟨-, rfl⟩ := tickText_injective (Option.some.inj hanswer)
    refine ⟨fitsInt_of_id h1 h2, ?_⟩
    rw [owner_insert, if_pos rfl]

theorem serve_gbye_thanked {p t : Int} {s s' : Server} (hp : FitsInt p) (ht : FitsInt t)
    (h : serve s (gbyeText (ticketText p t)) = some (some "THNX bye".toList, s')) :
    owner s'.tickets t = none := by
  rw [serve_gbye hp ht] at h
  split at h
  · obtain ⟨-, rfl⟩ := Prod.mk.inj (Option.some.inj h)
    rw [Server.remove, owner_erase, if_pos rfl]
  · obtain ⟨hanswer, -⟩ := Prod.mk.inj (Option.some.inj h)
    exact absurd hanswer (by decide)

/-- **Ticket text and validity**: the VALID that a client forms from its grant is answered GOOD as
long as no GBYE gives the ticket's id and no reclaim round finds the process dead; after a GBYE of
the ticket has been thanked for, VALID is answered FAIL as long as the ticket is not granted
again. -/
theorem ticket_validity {p : Int} (hp : FitsInt p) :
    (∀ t s s1 h s2, Reachable serverLoop s →
      serve s (heloText p) = some (some (tickText p t), s1) →
      Run (serverLoopFrom s1) h s2 → (∀ q ∈ h, Keeps p t q.2) →
      ∃ ticket, substrFrom (cString (tickText p t)) 5 = some ticket ∧
        serve s2 (validText ticket) = some (some "GOOD valid".toList, s2)) ∧
    (∀ t s s1 h s2, FitsInt t → Reachable serverLoop s →
      serve s (gbyeText (ticketText p t)) = some (some "THNX bye".toList, s1) →
      Run (serverLoopFrom s1) h s2 → (∀ q ∈ h, NotGranted p t q.1 q.2) →
      serve s2 (validText (ticketText p t)) = some (some "FAIL invalid".toList, s2)) := by
  constructor
  · intro t s s1 h s2 hs hgrant hr hok
    obtain ⟨ht, hown⟩ := serve_helo_granted hp hs hgrant
    refine ⟨ticketText p t, ?_, ?_⟩
    · rw [cString_tick, substrFrom_tickText]
    · rw [serve_valid hp ht, if_pos (granted_after hown hr hok)]
  · intro t s s1 h s2 ht _ hthanks hr hok
    have hnone := serve_gbye_thanked hp ht hthanks
    have hother : owner s1.tickets t ≠ some p := by rw [hnone]; exact nofun
    rw [serve_valid hp ht, if_neg (released_after hother hr hok)]

/-- A ticket of a negative pid: valid after the HELO of another process, invalid after its GBYE. -/
theorem ticket_validity_negative : ∃ s s1 s2,
    serve Server.start (heloText (-5)) = some (some (tickText (-5) 1), s) ∧
    serverStep s (.datagram "HELO 8".toList) = some s1 ∧
    serve s1 (validText (ticketText (-5) 1)) = some (some "GOOD valid".toList, s1) ∧
    serve s1 (gbyeText (ticketText (-5) 1)) = some (some "THNX bye".toList, s2) ∧
    serve s2 (validText (ticketText (-5) 1)) = some (some "FAIL invalid".toList, s2) := by
  have hp : FitsInt (-5) := by decide
  obtain ⟨hgood, hfail⟩ := ticket_validity hp
  have hgrant : serve Server.start (heloText (-5)) =
      some (some (tickText (-5) 1), ⟨AList.insert 1 (-5) ∅, 1⟩) := rfl
  have hother : serverStep ⟨AList.insert 1 (-5) ∅, 1⟩ (.datagram "HELO 8".toList) =
      some ⟨AList.insert 2 8 (AList.insert 1 (-5) ∅), 2⟩ := rfl
  have hthanks : serve ⟨AList.insert 2 8 (AList.insert 1 (-5) ∅), 2⟩ (gbyeText (ticketText (-5) 1))
      = some (some "THNX bye".toList, _) := rfl
  have hs1 : Reachable serverLoop ⟨AList.insert 2 8 (AList.insert 1 (-5) ∅), 2⟩ :=
    exec_reachable [.datagram (heloText (-5)), .datagram "HELO 8".toList] rfl
  refine ⟨_, _, _, hgrant, hother, ?_, hthanks, hfail 1 _ _ _ _ (by decide) hs1 hthanks .nil nofun⟩
  have hrun : Run (serverLoopFrom ⟨AList.insert 1 (-5) ∅, 1⟩)
      [(⟨AList.insert 1 (-5) ∅, 1⟩, .datagram "HELO 8".toList)]
      ⟨AList.insert 2 8 (AList.insert 1 (-5) ∅), 2⟩ := .snoc .nil hother
  have hkeeps : Keeps (-5) 1 (.datagram "HELO 8".toList) := by
    show gbyeId "HELO 8".toList ≠ some 1
    decide
  obtain ⟨ticket, hticket, hvalid⟩ :=
    hgood 1 _ _ _ _ .init hgrant hrun (List.forall_mem_singleton.mpr hkeeps)
  rw [cString_tick, substrFrom_tickText] at hticket
  cases hticket
  exact hvalid

end CampusNet.Licence
