import CampusNet.Lab5.Network

/-!
# Agreement between the clients and the licence server

What a live client believes (`Sys.holding`) against what the server's map says.

* `Agreement` — every live client that holds a ticket text holds `p.t` with its own pid `p`, and
  the map gives `t` to `p`; `Agreement.cap` — hence at most `MAX_USERS` live clients hold one.
* `GbyeOwned` — the side condition: the server handles no `GBYE p.t` while its map gives `t` to a
  pid other than `p`.
* `Tokens` — the invariant of one live client.  For each id `t` there is at most one of: a
  `TICK p.t` on its way, the belief in `p.t`; a `GBYE p.t` on its way excludes both.
* `licence_agreement` — agreement in every state of every run that meets the condition.
* `staleGbye` — a run that breaks it: a GBYE overtaken by its sender's death and a reclaim
  removes the next holder's entry, since the GBYE branch does not compare the pid as VALID does.
-/

namespace CampusNet.Licence

open Runs Mail

/-- Every belief of a live client is what the server's map says. -/
def Agreement (s : Sys) : Prop :=
  ∀ pid x, s.holding pid = some x →
    ∃ t, x = ticketText pid t ∧ owner s.server.tickets t = some pid

/-- At most `MAX_USERS` live clients hold a ticket. -/
def Cap (s : Sys) : Prop :=
  ∀ S : Finset Int, (∀ pid ∈ S, (s.holding pid).isSome = true) → S.card ≤ MAX_USERS

/-- A handled `GBYE p.t` finds `t` free or mapped to `p`. -/
def GbyeOwned (s : Sys) : Action → Prop
  | .serve i => ∀ addr p t q, FitsInt p → FitsInt t →
      s.requests[i]? = some (addr, gbyeText (ticketText p t)) →
      owner s.server.tickets t = some q → q = p
  | _ => True

/-- Distinct holders have distinct ids, and the ids lie in `1 … MAX_USERS`. -/
theorem Agreement.cap {s : Sys} (h : Agreement s) (hs : Sound s.server) : Cap s := by
  intro S hS
  have hid : ∀ pid ∈ S, ∃ t, owner s.server.tickets t = some pid := by
    intro pid hpid
    obtain ⟨x, hx⟩ := Option.isSome_iff_exists.mp (hS pid hpid)
    obtain ⟨t, _, ht⟩ := h pid x hx
    exact ⟨t, ht⟩
  choose! id hid using hid
  have hmaps : ∀ pid ∈ S, id pid ∈ Finset.Icc 1 (MAX_USERS : Int) := fun pid hpid =>
    Finset.mem_Icc.mpr (hs.ids _ (mem_of_owner (hid pid hpid)))
  have hinj : Set.InjOn id S := by
    intro p hp q hq he
    have hp' := hid p hp
    rw [he, hid q hq] at hp'
    exact (Option.some.inj hp').symm
  have hcard := Finset.card_le_card_of_injOn id hmaps hinj
  simpa using hcard

/-! ## One client -/

def IsGbye (d : Text) : Prop := d.take 4 = "GBYE".toList

instance (d : Text) : Decidable (IsGbye d) := inferInstanceAs (Decidable (_ = _))

/-- Invariant of the live client `pid`: `out` are its requests on their way, `inn` the replies on
their way to it. -/
structure Tokens (tickets : Tickets) (out inn : List Text) (pid : Int) (c : Client) : Prop
    extends Formed out inn pid c where
  believes : ¬ c.Released → c.hasTicket = true → c.held = some c.ticket
  held : ∀ x, c.held = some x →
    x = c.ticket ∧ ∃ t, FitsInt t ∧ x = ticketText pid t ∧ owner tickets t = some pid
  tick : ∀ t, FitsInt t → tickText pid t ∈ inn → owner tickets t = some pid
  once : ∀ t, FitsInt t →
    inn.count (tickText pid t) + (if c.held = some (ticketText pid t) then 1 else 0) ≤ 1
  gbye : ∀ t, FitsInt t → gbyeText (ticketText pid t) ∈ out →
    owner tickets t = some pid ∧ tickText pid t ∉ inn ∧ c.held ≠ some (ticketText pid t)
  gbyeSent : (∃ d ∈ out, IsGbye d) → c.Released
  gbyeOnce : out.countP (fun d => IsGbye d) ≤ 1

section

variable {tickets tickets' : Tickets} {out inn out' inn' : List Text} {pid : Int} {c c' : Client}

theorem isGbye_gbyeText (x : Text) : IsGbye (gbyeText x) := rfl

theorem not_isGbye_helo (p : Int) : ¬ IsGbye (heloText p) := by
  show ¬ "HELO".toList = "GBYE".toList; decide

theorem not_isGbye_valid (x : Text) : ¬ IsGbye (validText x) := by
  show ¬ "VALI".toList = "GBYE".toList; decide

theorem Tokens.start (hp : FitsInt pid) : Tokens tickets [] [] pid (Client.start pid) where
  toFormed := Formed.start hp
  believes := fun _ h => by cases h
  held := fun _ h => by cases h
  tick := fun _ _ h => by cases h
  once := fun t _ => by simp [Client.start]
  gbye := fun _ _ h => by cases h
  gbyeSent := fun ⟨_, h, _⟩ => by cases h
  gbyeOnce := by simp

/-- Losing messages and changing other pids' entries keeps the invariant. -/
theorem Tokens.mono (h : Tokens tickets out inn pid c)
    (ht : ∀ t, owner tickets t = some pid → owner tickets' t = some pid)
    (ho : out'.Sublist out) (hi : inn'.Sublist inn) : Tokens tickets' out' inn' pid c where
  toFormed := h.toFormed.mono ho hi
  believes := h.believes
  held := fun x hx => by
    obtain ⟨h1, t, h2, h3, h4⟩ := h.held x hx
    exact ⟨h1, t, h2, h3, ht t h4⟩
  tick := fun t hf hd => ht t (h.tick t hf (hi.subset hd))
  once := fun t hf => by
    have := h.once t hf
    have := hi.count_le (tickText pid t)
    omega
  gbye := fun t hf hg => by
    obtain ⟨h1, h2, h3⟩ := h.gbye t hf (ho.subset hg)
    exact ⟨ht t h1, fun hm => h2 (hi.subset hm), h3⟩
  gbyeSent := fun ⟨d, hd, hg⟩ => h.gbyeSent ⟨d, ho.subset hd, hg⟩
  gbyeOnce := le_trans (ho.countP_le) h.gbyeOnce

/-- A step that moves the threads on and at most gives up the ticket flag. -/
theorem Tokens.moves (h : Tokens tickets out inn pid c) (hm : c.Moves c') :
    Tokens tickets out inn pid c' where
  toFormed := h.toFormed.moves hm
  believes := fun hr hf => by
    rw [hm.ticket, hm.held]
    exact h.believes (fun hc => hr (hm.released hc)) (hm.hasTicket hf)
  held := fun x hx => by rw [hm.ticket]; exact h.held x (hm.held ▸ hx)
  tick := h.tick
  once := by rw [hm.held]; exact h.once
  gbye := by rw [hm.held]; exact h.gbye
  gbyeSent := fun hg => hm.released (h.gbyeSent hg)
  gbyeOnce := h.gbyeOnce

/-- Sending a HELO or a VALID. -/
theorem Tokens.send {d : Text} (h : Tokens tickets out inn pid c) (hr : ClientRequest pid d)
    (hd : ¬ IsGbye d) : Tokens tickets (out ++ [d]) inn pid c where
  toFormed := h.toFormed.send hr
  believes := h.believes
  held := h.held
  tick := h.tick
  once := h.once
  gbye := fun t hf hg => by
    rcases List.mem_append.mp hg with hg | hg
    · exact h.gbye t hf hg
    · rw [List.mem_singleton] at hg
      exact absurd (isGbye_gbyeText _) (hg ▸ hd)
  gbyeSent := by
    rintro ⟨e, he, hg⟩
    rcases List.mem_append.mp he with he | he
    · exact h.gbyeSent ⟨e, he, hg⟩
    · rw [List.mem_singleton] at he
      exact absurd hg (he ▸ hd)
  gbyeOnce := by simpa [List.countP_append, List.countP_cons, hd] using h.gbyeOnce

/-- `ReleaseTicket` sends its GBYE and gives up the belief. -/
theorem Tokens.sendGbye (h : Tokens tickets out inn pid c) (hflag : c.hasTicket = true)
    (hr : ¬ c.Released)
    (hformed : Formed (out ++ [gbyeText c.ticket]) inn pid c.gbyeSent) :
    Tokens tickets (out ++ [gbyeText c.ticket]) inn pid c.gbyeSent := by
  have hheld := h.believes hr hflag
  have hnone : c.gbyeSent.held = none := if_pos hheld
  have hno : ∀ d ∈ out, ¬ IsGbye d := fun d hd hg => hr (h.gbyeSent ⟨d, hd, hg⟩)
  obtain ⟨_, t, ht, hx, hown⟩ := h.held _ hheld
  refine ⟨hformed, fun hr' => absurd (Or.inl rfl) hr', fun x hx' => ?_, h.tick,
    fun j hj => ?_, fun j hj hg => ?_, fun _ => Or.inl rfl, ?_⟩
  · rw [hnone] at hx'; cases hx'
  · have := h.once j hj
    rw [hnone]
    simp only [reduceCtorEq, if_false]; omega
  · have hj' : gbyeText (ticketText pid j) = gbyeText c.ticket := by
      rcases List.mem_append.mp hg with hg | hg
      · exact absurd (isGbye_gbyeText _) (hno _ hg)
      · exact List.mem_singleton.mp hg
    rw [hx] at hj'
    obtain ⟨_, rfl⟩ := ticketText_injective (List.append_cancel_left hj')
    refine ⟨hown, fun hm => ?_, by rw [hnone]; simp⟩
    have honce := h.once j hj
    have hpos := List.count_pos_iff.mpr hm
    rw [if_pos (by rw [hheld, hx])] at honce
    omega
  · have hzero : out.countP (fun d => IsGbye d) = 0 := by
      rw [List.countP_eq_zero]; simpa using hno
    simp [List.countP_append, hzero, isGbye_gbyeText]

theorem Tokens.advance {thread : Thread} {d : Option Text} (h : Tokens tickets out inn pid c)
    (ha : c.advance thread = some (c', d)) : Tokens tickets (out ++ d.toList) inn pid c' := by
  have hformed := h.toFormed.advance ha
  rcases advance_cases ha with ⟨hm, rfl | rfl | ⟨hflag, rfl⟩⟩ | ⟨hpc, hflag, rfl, rfl⟩
  · simpa using h.moves hm
  · refine (h.moves hm).send ?_ (not_isGbye_helo _)
    apply hformed.requests _
    simp
  · refine (h.moves hm).send ?_ (not_isGbye_valid _)
    apply hformed.requests _
    simp
  · exact h.sendGbye hflag (by simp [Client.Released, hpc]) hformed

/-- `GetTicket` takes a grant out of the socket. -/
theorem Tokens.receive {p q : List Text} {t : Int} (ht : FitsInt t)
    (h : Tokens tickets out (p ++ tickText pid t :: q) pid c)
    (ho : c.Obtains c' (ticketText pid t)) : Tokens tickets out (p ++ q) pid c' := by
  have hown := h.tick t ht (by simp)
  have hsub : (p ++ q).Sublist (p ++ tickText pid t :: q) :=
    List.Sublist.append_left (List.sublist_cons_self _ _) p
  have hne : ∀ j, FitsInt j → ticketText pid t = ticketText pid j → t = j := fun j hj he =>
    (ticketText_injective he).2
  have hformed : Formed out (p ++ q) pid c' :=
    ⟨ho.pid.trans h.pid_eq, h.fits, fun _ => ⟨t, ht, ho.ticket⟩, h.requests,
      fun d hd => h.ticks d (hsub.subset hd)⟩
  refine ⟨hformed, fun _ _ => by rw [ho.held, ho.ticket], fun x hx => ?_,
    fun j hj hm => h.tick j hj (hsub.subset hm), fun j hj => ?_, fun j hj hg => ?_,
    fun hg => ho.released (h.gbyeSent hg), h.gbyeOnce⟩
  · rw [ho.held] at hx; cases hx
    exact ⟨ho.ticket.symm, t, ht, rfl, hown⟩
  · have honce := h.once j hj
    have hle := hsub.count_le (tickText pid j)
    rw [ho.held]
    by_cases hj' : ticketText pid t = ticketText pid j
    · obtain rfl := hne j hj hj'
      rw [List.count_append, List.count_cons_self] at honce
      rw [if_pos rfl, List.count_append]
      omega
    · rw [if_neg (fun he => hj' (Option.some.inj he))]
      omega
  · obtain ⟨h1, h2, _⟩ := h.gbye j hj hg
    refine ⟨h1, fun hm => h2 (hsub.subset hm), fun he => ?_⟩
    rw [ho.held] at he
    obtain rfl := hne j hj (Option.some.inj he)
    apply h2
    simp

/-- A reply that is no grant joins the replies on their way. -/
theorem Tokens.reply {r : Text} (h : Tokens tickets out inn pid c) (hr : ¬ IsTick r) :
    Tokens tickets out (inn ++ [r]) pid c := by
  have hne : ∀ t, tickText pid t ≠ r := fun t he => hr (he ▸ isTick_tickText pid t)
  refine ⟨h.toFormed.reply (fun hk => absurd hk hr), h.believes, h.held, fun t ht hm => ?_,
    fun t ht => ?_, fun t ht hg => ?_, h.gbyeSent, h.gbyeOnce⟩
  · rcases List.mem_append.mp hm with hm | hm
    · exact h.tick t ht hm
    · exact absurd (List.mem_singleton.mp hm) (hne t)
  · have hzero : [r].count (tickText pid t) = 0 := by
      rw [List.count_eq_zero, List.mem_singleton]; exact hne t
    rw [List.count_append, hzero]
    exact h.once t ht
  · obtain ⟨h1, h2, h3⟩ := h.gbye t ht hg
    refine ⟨h1, fun hm => ?_, h3⟩
    rcases List.mem_append.mp hm with hm | hm
    · exact h2 hm
    · exact hne t (List.mem_singleton.mp hm)

theorem owner_insert_keep {t q j : Int} (hfree : t ∉ tickets)
    (h : owner tickets j = some pid) : owner (tickets.insert t q) j = some pid := by
  rw [owner_insert]
  split
  · rename_i he
    subst he
    exact absurd (mem_of_owner h) hfree
  · exact h

/-- The server grants a free id. -/
theorem Tokens.grant {t : Int} (h : Tokens tickets out inn pid c) (hfree : t ∉ tickets)
    (ht : FitsInt t) : Tokens (tickets.insert t pid) out (inn ++ [tickText pid t]) pid c := by
  have hnone : owner tickets t ≠ some pid := fun he => hfree (mem_of_owner he)
  have hm := h.mono (fun _ hj => owner_insert_keep (q := pid) hfree hj) (List.Sublist.refl _)
    (List.Sublist.refl _)
  have hnotick : tickText pid t ∉ inn := fun hin => hnone (h.tick t ht hin)
  refine ⟨hm.toFormed.reply (fun _ => ⟨t, ht, rfl⟩), hm.believes, hm.held, fun j hj hd => ?_,
    fun j hj => ?_, fun j hj hg => ?_, hm.gbyeSent, hm.gbyeOnce⟩
  · rcases List.mem_append.mp hd with hd | hd
    · exact hm.tick j hj hd
    · obtain ⟨_, rfl⟩ := tickText_injective (List.mem_singleton.mp hd)
      rw [owner_insert, if_pos rfl]
  · by_cases hjt : j = t
    · subst hjt
      have hheld : c.held ≠ some (ticketText pid j) := fun he => by
        obtain ⟨_, i, hi, hx, hown⟩ := h.held _ he
        obtain ⟨_, rfl⟩ := ticketText_injective hx
        exact hnone hown
      rw [List.count_append, List.count_eq_zero.mpr hnotick, if_neg hheld]
      simp
    · have hzero : [tickText pid t].count (tickText pid j) = 0 := by
        rw [List.count_eq_zero, List.mem_singleton]
        exact fun he => hjt (tickText_injective he).2
      rw [List.count_append, hzero]
      exact h.once j hj
  · obtain ⟨h1, h2, h3⟩ := h.gbye j hj hg
    refine ⟨owner_insert_keep hfree h1, fun hmem => ?_, h3⟩
    rcases List.mem_append.mp hmem with hmem | hmem
    · exact h2 hmem
    · have hjt := (tickText_injective (List.mem_singleton.mp hmem)).2
      exact hnone (hjt ▸ h1)

/-- The server handles the client's own GBYE. -/
theorem Tokens.released {p q : List Text} {t : Int} (ht : FitsInt t)
    (h : Tokens tickets (p ++ gbyeText (ticketText pid t) :: q) inn pid c) :
    Tokens (tickets.erase t) (p ++ q) inn pid c := by
  obtain ⟨_, hnotick, hheld⟩ := h.gbye t ht (by simp)
  have hsub : (p ++ q).Sublist (p ++ gbyeText (ticketText pid t) :: q) :=
    List.Sublist.append_left (List.sublist_cons_self _ _) p
  have hno : ∀ d ∈ p ++ q, ¬ IsGbye d := by
    have honce := h.gbyeOnce
    have hself : IsGbye (gbyeText (ticketText pid t)) := isGbye_gbyeText _
    rw [List.countP_append, List.countP_cons_of_pos (by simpa using hself)] at honce
    have hzero : (p ++ q).countP (fun d => IsGbye d) = 0 := by
      rw [List.countP_append]; omega
    rw [List.countP_eq_zero] at hzero
    intro d hd hg
    apply hzero d hd
    simpa using hg
  have hkeep : ∀ j, j ≠ t → owner tickets j = some pid →
      owner (tickets.erase t) j = some pid := fun j hj ho => by
    rw [owner_erase, if_neg hj]; exact ho
  refine ⟨h.toFormed.mono hsub (List.Sublist.refl _), h.believes, fun x hx => ?_,
    fun j hj hm => hkeep j (fun he => hnotick (he ▸ hm)) (h.tick j hj hm), h.once,
    fun j hj hg => absurd (isGbye_gbyeText _) (hno _ hg),
    fun ⟨d, hd, hg⟩ => absurd hg (hno d hd), le_trans hsub.countP_le h.gbyeOnce⟩
  obtain ⟨h1, j, h2, h3, h4⟩ := h.held x hx
  exact ⟨h1, j, h2, h3, hkeep j (fun he => hheld (by rw [hx, h3, he])) h4⟩

end

/-! ## All clients -/

/-- The invariant of the live clients. -/
def LiveTokens (tickets : Tickets) (out inn : List Text) (pid : Int) (c : Client) : Prop :=
  c.alive = true → Tokens tickets out inn pid c

theorem LiveTokens.resume {tickets : Tickets} {out p q : List Text} {d : Text} {pid : Int}
    {c c' : Client} {thread : Thread} (h : Tokens tickets out (p ++ d :: q) pid c)
    (ha : c.resume (cString d) thread = some c') : LiveTokens tickets out (p ++ q) pid c' := by
  intro halive
  have hsub : (p ++ q).Sublist (p ++ d :: q) :=
    List.Sublist.append_left (List.sublist_cons_self _ _) p
  rcases resume_cases ha with rfl | hm | ⟨ticket, hk, hsubstr, ho⟩
  · cases halive
  · exact (h.mono (fun _ => id) (List.Sublist.refl _) hsub).moves hm
  · obtain ⟨t, ht, rfl⟩ := h.ticks d (by simp) (isTick_of_cString hk)
    rw [cString_tick, substrFrom_tickText] at hsubstr
    cases hsubstr
    exact h.receive ht ho

theorem LiveTokens.timeout {tickets : Tickets} {out inn : List Text} {pid : Int}
    {c c' : Client} {thread : Thread} (h : Tokens tickets out inn pid c)
    (ha : c.resume [] thread = some c') : LiveTokens tickets out inn pid c' := by
  intro halive
  rcases resume_cases ha with rfl | hm | ⟨_, hk, _⟩
  · cases halive
  · exact h.moves hm
  · cases hk

/-- What the served request of another client does to the entries of `pid`. -/
theorem Wire.serve_keeps {s : Sys} (hw : Wire s) {i : Nat} (hok : GbyeOwned s (.serve i))
    {addr pid t : Int} {d : Text} {r : Option Text} {server : Server}
    (hm : s.requests[i]? = some (addr, d)) (hserve : serve s.server d = some (r, server))
    (hne : addr ≠ pid) (hown : owner s.server.tickets t = some pid) :
    owner server.tickets t = some pid := by
  have hmem := List.mem_of_getElem? hm
  obtain ⟨c, hc⟩ := Option.ne_none_iff_exists'.mp (hw.known.requests _ hmem)
  have hf := hw.formed addr c hc
  obtain ⟨_, _, hcases⟩ :=
    serve_clientRequest hw.sound hf.fits (hf.requests d (mem_mailOf.mpr hmem)) hserve
  rcases hcases with ⟨rfl, _⟩ | ⟨j, _, _, _, hfree, _, rfl⟩ | ⟨j, rfl, hj, _, _, rfl⟩
  · exact hown
  · exact owner_insert_keep hfree hown
  · have hjt : t ≠ j := by
      rintro rfl
      exact hne (hok addr addr t pid hf.fits hj hm hown).symm
    simp only [Server.remove, owner_erase, if_neg hjt]
    exact hown

theorem liveTokens_rules {s : Sys} {a : Action} (hw : Wire s) (hok : GbyeOwned s a) :
    ClientRules LiveTokens s a where
  start := fun hp _ => Tokens.start hp
  advance := fun h halive ha _ => (h halive).advance ha
  receive := fun h halive ha => LiveTokens.resume (h halive) ha
  timeout := fun h halive ha => LiveTokens.timeout (h halive) ha
  die := fun _ h => by cases h
  lose := fun h ho hi halive => (h halive).mono (fun _ => id) ho hi
  served := fun {i d r server p q inn pid c} _ _ hserve h halive => by
    have h' := h halive
    have hsub : (p ++ q).Sublist (p ++ d :: q) :=
      List.Sublist.append_left (List.sublist_cons_self _ _) p
    have hlost := h'.mono (fun _ => id) hsub (List.Sublist.refl _)
    obtain ⟨response, rfl, hcases⟩ :=
      serve_clientRequest hw.sound h'.fits (h'.requests d (by simp)) hserve
    rcases hcases with ⟨rfl, hno, _⟩ | ⟨t, _, _, ht, hfree, rfl, rfl⟩ | ⟨t, rfl, ht, _, hno, rfl⟩
    · exact hlost.reply hno
    · exact hlost.grant hfree ht
    · exact (h'.released ht).reply hno
  servedOther := fun {i addr d r server out inn pid c} ha hm hserve hne h halive => by
    subst ha
    exact (h halive).mono (fun _ => hw.serve_keeps hok hm hserve hne) (List.Sublist.refl _)
      (List.Sublist.refl _)
  reclaim := fun {out inn pid c} _ hc h halive => by
    have hlive : s.isProcessAlive pid = true := by
      rw [Sys.isProcessAlive, live_eq_some.mpr ⟨hc, halive⟩]; rfl
    refine (h halive).mono (fun t ht => ?_) (List.Sublist.refl _) (List.Sublist.refl _)
    rw [reclaimTickets_owner, ht, Option.filter_some, if_pos hlive]

theorem agreement_of_tokens {s : Sys} (h : s.All LiveTokens) : Agreement s := by
  intro pid x hx
  obtain ⟨c, hc, hheld⟩ := Option.bind_eq_some_iff.mp hx
  obtain ⟨hclient, halive⟩ := live_eq_some.mp hc
  obtain ⟨_, t, _, ht, hown⟩ := (h pid c hclient halive).held x hheld
  exact ⟨t, ht, hown⟩

/-- **Agreement and cap** throughout every run in which no GBYE is handled while its id belongs
to another pid. -/
theorem licence_agreement {h : List (Sys × Action)} {s : Sys} (hr : Run system h s)
    (hok : ∀ p ∈ h, GbyeOwned p.1 p.2) : Throughout (fun s => Agreement s ∧ Cap s) h s := by
  have hinv : Throughout (fun s => Wire s ∧ s.All LiveTokens) h s := by
    refine hr.always ⟨wire_start, fun _ _ hc => by cases hc⟩ ?_ hok
    rintro s a s' ⟨hw, ht⟩ (hok : GbyeOwned s a) hstep
    exact ⟨hw.step hstep, (liveTokens_rules hw hok).step hw.known ht hstep⟩
  have hconclude : ∀ s, Wire s ∧ s.All LiveTokens → Agreement s ∧ Cap s := fun s ⟨hw, ht⟩ =>
    ⟨agreement_of_tokens ht, (agreement_of_tokens ht).cap hw.sound⟩
  exact ⟨fun p hp => hconclude _ (hinv.1 p hp), hconclude _ hinv.2⟩

/-- A process starts, asks and is granted: its HELO is at position `i` of the requests, the reply
at position `j` of the replies. -/
def granted (pid : Int) (i j : Nat) : List Action :=
  [.start pid, .advance pid .main, .serve i, .receive pid .main j]

/-- A HELO meets the condition. -/
theorem gbyeOwned_helo {s : Sys} {i : Nat} {addr p : Int}
    (h : s.requests[i]? = some (addr, heloText p)) : GbyeOwned s (.serve i) := by
  intro a q t r _ _ hreq
  obtain ⟨-, htext⟩ := Prod.mk.inj (Option.some.inj (h.symm.trans hreq))
  exact absurd htext.symm (gbyeText_ne_heloText _ _)

/-- A GBYE of the ticket's own process meets it. -/
theorem gbyeOwned_own {s : Sys} {i : Nat} {addr p t : Int}
    (h : s.requests[i]? = some (addr, gbyeText (ticketText p t)))
    (hown : owner s.server.tickets t = some p) : GbyeOwned s (.serve i) := by
  intro a q u r _ _ hreq howner
  obtain ⟨-, htext⟩ := Prod.mk.inj (Option.some.inj (h.symm.trans hreq))
  obtain ⟨rfl, rfl⟩ := ticketText_injective (List.append_cancel_left htext)
  exact Option.some.inj (howner.symm.trans hown)

/-- Processes 7 and 8 are granted 7.1 and 8.2, and process 7 releases its ticket. -/
def released : List Action :=
  granted 7 0 0 ++ granted 8 0 0 ++ [.advance 7 .main, .advance 7 .main, .serve 0]

/-- The GBYE of process 7 is handled, and the belief of process 8 stays right. -/
theorem licence_agreement_released : ∃ h s, Run system h s ∧ h.map Prod.snd = released.reverse ∧
    owner s.server.tickets 1 = none ∧ s.holding 8 = some "8.2".toList ∧ Agreement s := by
  have h1 : Run system [] system.init := .nil
  have h2 := h1.snoc (a := .start 7) rfl
  have h3 := h2.snoc (a := .advance 7 .main) rfl
  have h4 := h3.snoc (a := .serve 0) rfl
  have h5 := h4.snoc (a := .receive 7 .main 0) rfl
  have h6 := h5.snoc (a := .start 8) rfl
  have h7 := h6.snoc (a := .advance 8 .main) rfl
  have h8 := h7.snoc (a := .serve 0) rfl
  have h9 := h8.snoc (a := .receive 8 .main 0) rfl
  have h10 := h9.snoc (a := .advance 7 .main) rfl
  have h11 := h10.snoc (a := .advance 7 .main) rfl
  have h12 := h11.snoc (a := .serve 0) rfl
  refine ⟨_, _, h12, rfl, rfl, rfl, (licence_agreement h12 ?_).2.1⟩
  simp only [List.forall_mem_cons]
  exact ⟨gbyeOwned_own (p := 7) (t := 1) rfl rfl, trivial, trivial, trivial,
    gbyeOwned_helo (p := 8) rfl, trivial, trivial, trivial, gbyeOwned_helo (p := 7) rfl, trivial,
    trivial, nofun⟩

/-- Process 1 is granted 1.1, sends `GBYE 1.1` and is killed; reclaim frees id 1 and process 2 is
granted 2.1; then the old GBYE arrives, and processes 3, 4, 5 are granted the three free ids. -/
def staleGbye : List Action :=
  granted 1 0 0 ++ [.advance 1 .main, .advance 1 .main, .die 1, .reclaim] ++
    granted 2 1 0 ++ [.serve 0] ++ granted 3 0 1 ++ granted 4 0 1 ++ granted 5 0 1

theorem staleGbye_breaks_agreement :
    ∃ s, Reachable system s ∧ ¬ Agreement s ∧ ¬ Cap s := by
  obtain ⟨s, hs, hp⟩ := exists_reachable_of_exec (M := system) staleGbye
    (p := fun s => [2, 3, 4, 5].all fun pid => (s.holding pid).isSome) (by decide)
  have hfour : ∀ pid ∈ ([2, 3, 4, 5] : List Int).toFinset, (s.holding pid).isSome = true := by
    intro pid hpid
    exact List.all_eq_true.mp hp pid (List.mem_toFinset.mp hpid)
  have hcap : ¬ Cap s := fun hcap => absurd (hcap _ hfour) (by decide)
  exact ⟨s, hs, fun hagree => hcap (hagree.cap (wire hs).sound), hcap⟩

end CampusNet.Licence
