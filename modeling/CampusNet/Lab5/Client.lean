import CampusNet.Lab5.Server

/-!
# The licence client

Model of `lab5/client.cpp`: the globals of one process and where its two threads stand.

* `Client.advance` — the next local step of a thread, with the datagram it sends.
* `Client.resume` — a thread goes on after `SendRequest` returned; the empty text is the 2 second
  timeout.
* `serve_helo`, `serve_gbye`, `serve_valid`, `serve_clientRequest` — the server's answers to the
  requests a client builds.
* `Formed` — what the texts to and from one client look like.

`held` is a ghost field: the ticket text last received and not since sent in a GBYE.
-/

namespace CampusNet.Licence

inductive Thread where
  | main
  | heartbeat
  deriving DecidableEq, Repr

/-- Where `main` stands. -/
inductive MainPc where
  | getTicket
  | awaitTicket
  | programRunning
  | releaseTicket
  | awaitRelease
  | exited
  deriving DecidableEq, Repr

/-- Where `HeartbeatThreadFunc` stands. -/
inductive HeartbeatPc where
  | notStarted
  | loopTop
  | asleep
  | validateTicket
  | awaitValid
  | getTicket
  | awaitTicket
  | ended
  deriving DecidableEq, Repr

structure Client where
  pid : Int
  ticket : Text
  hasTicket : Bool
  running : Bool
  main : MainPc
  heartbeat : HeartbeatPc
  alive : Bool
  held : Option Text
  deriving DecidableEq

def Client.start (pid : Int) : Client :=
  ⟨pid, [], false, true, .getTicket, .notStarted, true, none⟩

def heloText (pid : Int) : Text := "HELO ".toList ++ decimal pid
def gbyeText (ticket : Text) : Text := "GBYE ".toList ++ ticket
def validText (ticket : Text) : Text := "VALID ".toList ++ ticket

/-- What follows `TICK ` in a grant of `ticketId` to `pid`. -/
def ticketText (pid ticketId : Int) : Text := decimal pid ++ '.' :: decimal ticketId

/-- `ReleaseTicket` after its `sendto`. -/
def Client.gbyeSent (c : Client) : Client :=
  { c with main := .awaitRelease, held := if c.held = some c.ticket then none else c.held }

/-- The next step of a thread that is not waiting for a reply. -/
def Client.advance (c : Client) : Thread → Option (Client × Option Text)
  | .main =>
    match c.main with
    | .getTicket => some ({ c with main := .awaitTicket }, some (heloText c.pid))
    | .programRunning => some ({ c with running := false, main := .releaseTicket }, none)
    | .releaseTicket =>
      if c.hasTicket then some (c.gbyeSent, some (gbyeText c.ticket))
      else some ({ c with main := .exited }, none)
    | _ => none
  | .heartbeat =>
    match c.heartbeat with
    | .loopTop => some ({ c with heartbeat := if c.running then .asleep else .ended }, none)
    | .asleep =>
      some ({ c with heartbeat := if c.hasTicket then .validateTicket else .loopTop }, none)
    | .validateTicket =>
      if c.hasTicket then some ({ c with heartbeat := .awaitValid }, some (validText c.ticket))
      else some ({ c with hasTicket := false, heartbeat := .getTicket }, none)
    | .getTicket => some ({ c with heartbeat := .awaitTicket }, some (heloText c.pid))
    | _ => none

/-- `GetTicket` once `SendRequest` returned `response`; `none` is the throw of `substr`. -/
def Client.getTicketReturn (c : Client) (response : Text) : Option (Client × Bool) :=
  if response = [] then some (c, false)
  else if response.take 4 = "TICK".toList then do
    let ticket ← substrFrom response 5
    some ({ c with ticket := ticket, hasTicket := true, held := some ticket }, true)
  else some (c, false)

/-- A thread goes on after `SendRequest` returned `response`; an exception ends the process. -/
def Client.resume (c : Client) (response : Text) : Thread → Option Client
  | .main =>
    match c.main with
    | .awaitTicket =>
      match c.getTicketReturn response with
      | none => some { c with alive := false }
      | some (c', true) => some { c' with main := .programRunning, heartbeat := .loopTop }
      | some (c', false) => some { c' with main := .getTicket }
    | .awaitRelease => some { c with hasTicket := false, main := .exited }
    | _ => none
  | .heartbeat =>
    match c.heartbeat with
    | .awaitValid =>
      if response.take 4 = "GOOD".toList then some { c with heartbeat := .loopTop }
      else some { c with hasTicket := false, heartbeat := .getTicket }
    | .awaitTicket =>
      match c.getTicketReturn response with
      | none => some { c with alive := false }
      | some (c', true) => some { c' with heartbeat := .loopTop }
      | some (c', false) => some { c' with heartbeat := .getTicket }
    | _ => none

/-! ## The server's answers to the clients' requests -/

theorem cString_ticketText (p t : Int) : cString (ticketText p t) = ticketText p t :=
  cString_append (cString_decimal p)
    (cString_append (p := ['.']) (by decide) (cString_decimal t))

theorem length_ticketText_le {p t : Int} (hp : FitsInt p) (ht : FitsInt t) :
    (ticketText p t).length ≤ 23 := by
  have := length_decimal_le hp
  have := length_decimal_le ht
  simp only [ticketText, List.length_append, List.length_cons]; omega

theorem cString_helo (p : Int) : cString (heloText p) = heloText p :=
  cString_append (by decide) (cString_decimal p)

theorem cString_gbye (p t : Int) :
    cString (gbyeText (ticketText p t)) = gbyeText (ticketText p t) :=
  cString_append (by decide) (cString_ticketText p t)

theorem cString_valid (p t : Int) :
    cString (validText (ticketText p t)) = validText (ticketText p t) :=
  cString_append (by decide) (cString_ticketText p t)

theorem cString_tick (p t : Int) : cString (tickText p t) = tickText p t :=
  cString_append (by decide) (cString_ticketText p t)

theorem length_heloText (p : Int) : (heloText p).length = 5 + (decimal p).length :=
  List.length_append

theorem length_gbyeText (ticket : Text) : (gbyeText ticket).length = 5 + ticket.length :=
  List.length_append

theorem length_validText (ticket : Text) : (validText ticket).length = 6 + ticket.length :=
  List.length_append

/-- A datagram of 1 to 511 bytes without a NUL is handled as it is. -/
theorem serve_of_handle {s : Server} {d : Text} (h0 : 0 < d.length) (hl : d.length ≤ 511)
    (hc : cString d = d) : serve s d = (handle s d).map fun r => (some r.1, r.2) := by
  rw [serve, if_neg (by omega), hc]

theorem serve_helo {s : Server} {p : Int} (hp : FitsInt p) :
    serve s (heloText p) = (helo s p).map fun r => (some r.1, r.2) := by
  have hlen := length_decimal_le hp
  have hlength := length_heloText p
  rw [serve_of_handle (by omega) (by omega) (cString_helo p)]
  have hsub : substrFrom (heloText p) 5 = some (decimal p) := substrFrom_append rfl
  have hhead : (heloText p).take 4 = "HELO".toList := rfl
  rw [handle, if_pos hhead, hsub]
  simp [atoi_decimal hp]

theorem find_ticketText (p t : Int) : find (ticketText p t) '.' = some (decimal p).length :=
  find_append (dot_notMem_decimal p)

theorem substrFrom_ticketText (p t : Int) :
    substrFrom (ticketText p t) ((decimal p).length + 1) = some (decimal t) := by
  have : ticketText p t = (decimal p ++ ['.']) ++ decimal t := by simp [ticketText]
  rw [this]
  apply substrFrom_append
  simp

theorem serve_gbye {s : Server} {p t : Int} (hp : FitsInt p) (ht : FitsInt t) :
    serve s (gbyeText (ticketText p t)) =
      if t ∈ s.tickets then some (some "THNX bye".toList, s.remove t)
      else some (some "FAIL invalid".toList, s) := by
  have hlen := length_ticketText_le hp ht
  have hlength := length_gbyeText (ticketText p t)
  rw [serve_of_handle (by omega) (by omega) (cString_gbye p t)]
  have hsub : substrFrom (gbyeText (ticketText p t)) 5 = some (ticketText p t) :=
    substrFrom_append rfl
  have hne : (gbyeText (ticketText p t)).take 4 ≠ "HELO".toList := by
    show "GBYE".toList ≠ _; decide
  have hhead : (gbyeText (ticketText p t)).take 4 = "GBYE".toList := rfl
  rw [handle, if_neg hne, if_pos hhead, hsub]
  simp only [Option.bind_eq_bind, Option.bind_some, gbye, find_ticketText, substrFrom_ticketText,
    atoi_decimal ht]
  split <;> rfl

theorem serve_valid {s : Server} {p t : Int} (hp : FitsInt p) (ht : FitsInt t) :
    serve s (validText (ticketText p t)) =
      if owner s.tickets t = some p then some (some "GOOD valid".toList, s)
      else some (some "FAIL invalid".toList, s) := by
  have hlen := length_ticketText_le hp ht
  have hlength := length_validText (ticketText p t)
  rw [serve_of_handle (by omega) (by omega) (cString_valid p t)]
  have hsub : substrFrom (validText (ticketText p t)) 6 = some (ticketText p t) :=
    substrFrom_append rfl
  have hne : (validText (ticketText p t)).take 4 ≠ "HELO".toList := by
    show "VALI".toList ≠ _; decide
  have hne' : (validText (ticketText p t)).take 4 ≠ "GBYE".toList := by
    show "VALI".toList ≠ _; decide
  have hhead : (validText (ticketText p t)).take 5 = "VALID".toList := rfl
  have htake : (ticketText p t).take (decimal p).length = decimal p := by simp [ticketText]
  rw [handle, if_neg hne, if_neg hne', if_pos hhead, hsub]
  simp only [Option.bind_eq_bind, Option.bind_some, valid, find_ticketText, substrFrom_ticketText,
    atoi_decimal ht, htake, atoi_decimal hp]
  split <;> rfl

theorem ticketText_injective {p t p' t' : Int} (h : ticketText p t = ticketText p' t') :
    p = p' ∧ t = t' := by
  have hf := congrArg (find · '.') h
  simp only [find_ticketText, Option.some.injEq] at hf
  obtain ⟨h1, h2⟩ := List.append_inj h hf
  simp only [List.cons.injEq, true_and] at h2
  exact ⟨decimal_injective h1, decimal_injective h2⟩

theorem tickText_eq (p t : Int) : tickText p t = "TICK ".toList ++ ticketText p t := rfl

theorem tickText_injective {p t p' t' : Int} (h : tickText p t = tickText p' t') :
    p = p' ∧ t = t' := by
  rw [tickText_eq, tickText_eq] at h
  exact ticketText_injective (List.append_cancel_left h)

theorem substrFrom_tickText (p t : Int) : substrFrom (tickText p t) 5 = some (ticketText p t) :=
  substrFrom_append rfl

/-- A grant, by its first four characters. -/
def IsTick (d : Text) : Prop := d.take 4 = "TICK".toList

instance (d : Text) : Decidable (IsTick d) := inferInstanceAs (Decidable (_ = _))

theorem isTick_tickText (p t : Int) : IsTick (tickText p t) := rfl

theorem gbyeText_ne_heloText (x : Text) (p : Int) : gbyeText x ≠ heloText p := by
  intro h
  have hhead : some 'G' = some 'H' := congrArg List.head? h
  apply absurd hhead
  decide

theorem validText_ne_heloText (x : Text) (p : Int) : validText x ≠ heloText p := by
  intro h
  have hhead : some 'V' = some 'H' := congrArg List.head? h
  apply absurd hhead
  decide

/-- A request that the client `pid` builds. -/
def ClientRequest (pid : Int) (d : Text) : Prop :=
  d = heloText pid ∨
    ∃ t, FitsInt t ∧ (d = gbyeText (ticketText pid t) ∨ d = validText (ticketText pid t))

theorem fitsInt_of_id {t : Int} (h1 : 1 ≤ t) (h2 : t ≤ MAX_USERS) : FitsInt t := by
  unfold MAX_USERS at h2
  unfold FitsInt INT_MIN INT_MAX
  omega

/-- **The server's answer to a client**: a grant of a free id to that client, the release of the
id named by a GBYE, or no change. -/
theorem serve_clientRequest {s s' : Server} {pid : Int} {d : Text} {r : Option Text}
    (hs : Sound s) (hp : FitsInt pid) (hd : ClientRequest pid d) (h : serve s d = some (r, s')) :
    ∃ response, r = some response ∧
      ((s' = s ∧ ¬ IsTick response ∧ (d = heloText pid → MAX_USERS ≤ s.ticketCount)) ∨
       (∃ t, d = heloText pid ∧ s.ticketCount < MAX_USERS ∧ FitsInt t ∧ t ∉ s.tickets ∧
          response = tickText pid t ∧ s' = ⟨s.tickets.insert t pid, s.ticketCount + 1⟩) ∨
       (∃ t, d = gbyeText (ticketText pid t) ∧ FitsInt t ∧ t ∈ s.tickets ∧ ¬ IsTick response ∧
          s' = s.remove t)) := by
  rcases hd with rfl | ⟨t, ht, rfl | rfl⟩
  · rw [serve_helo hp] at h
    have hcount := hs.count
    rcases hs.helo pid with ⟨hfull, he⟩ | ⟨hroom, t, hfree, h1, h2, he⟩
    · rw [he] at h; cases h
      have hfail : ¬ IsTick "FAIL no tickets".toList := by decide
      exact ⟨_, rfl, Or.inl ⟨rfl, hfail, fun _ => by omega⟩⟩
    · rw [he] at h; cases h
      exact ⟨_, rfl, Or.inr (Or.inl ⟨t, rfl, by omega, fitsInt_of_id h1 h2, hfree, rfl, rfl⟩)⟩
  · rw [serve_gbye hp ht] at h
    split at h
    · rename_i hmem
      cases h
      exact ⟨_, rfl, Or.inr (Or.inr ⟨t, rfl, ht, hmem, by decide, rfl⟩)⟩
    · cases h
      exact ⟨_, rfl, Or.inl ⟨rfl, by decide, fun he => absurd he (gbyeText_ne_heloText _ _)⟩⟩
  · rw [serve_valid hp ht] at h
    have hother := validText_ne_heloText (ticketText pid t) pid
    split at h
    · cases h
      exact ⟨_, rfl, Or.inl ⟨rfl, by decide, fun he => absurd he hother⟩⟩
    · cases h
      exact ⟨_, rfl, Or.inl ⟨rfl, by decide, fun he => absurd he hother⟩⟩

/-! ## What a thread's step can do -/

/-- `main` is past the GBYE of `ReleaseTicket`. -/
def Client.Released (c : Client) : Prop := c.main = .awaitRelease ∨ c.main = .exited

/-- What `GetTicket` makes of a response. -/
theorem getTicketReturn_cases (c : Client) (response : Text) :
    (IsTick response ∧ c.getTicketReturn response = none) ∨
    (∃ ticket, IsTick response ∧ substrFrom response 5 = some ticket ∧
      c.getTicketReturn response =
        some ({ c with ticket := ticket, hasTicket := true, held := some ticket }, true)) ∨
    c.getTicketReturn response = some (c, false) := by
  unfold Client.getTicketReturn
  split
  · exact Or.inr (Or.inr rfl)
  split
  · rename_i htick
    cases hsub : substrFrom response 5 with
    | none => exact Or.inl ⟨htick, rfl⟩
    | some ticket => exact Or.inr (Or.inl ⟨ticket, htick, rfl, rfl⟩)
  · exact Or.inr (Or.inr rfl)

/-- The client goes on with the same ticket, at most giving up the flag. -/
structure Client.Moves (c c' : Client) : Prop where
  pid : c'.pid = c.pid
  alive : c'.alive = c.alive
  ticket : c'.ticket = c.ticket
  held : c'.held = c.held
  hasTicket : c'.hasTicket = true → c.hasTicket = true
  released : c.Released → c'.Released

/-- The client goes on with a new ticket. -/
structure Client.Obtains (c c' : Client) (granted : Text) : Prop where
  pid : c'.pid = c.pid
  alive : c'.alive = c.alive
  ticket : c'.ticket = granted
  held : c'.held = some granted
  released : c.Released → c'.Released

/-- **A local step** sends nothing, a HELO, a VALID of the ticket, or the GBYE of the ticket. -/
theorem advance_cases {c c' : Client} {thread : Thread} {d : Option Text}
    (h : c.advance thread = some (c', d)) :
    (c.Moves c' ∧ (d = none ∨ d = some (heloText c.pid) ∨
      (c.hasTicket = true ∧ d = some (validText c.ticket)))) ∨
    (c.main = .releaseTicket ∧ c.hasTicket = true ∧ d = some (gbyeText c.ticket) ∧
      c' = c.gbyeSent) := by
  cases thread with
  | main =>
    simp only [Client.advance] at h
    split at h
    · rename_i hpc
      cases h
      exact Or.inl ⟨⟨rfl, rfl, rfl, rfl, id, by simp [Client.Released, hpc]⟩, Or.inr (Or.inl rfl)⟩
    · rename_i hpc
      cases h
      exact Or.inl ⟨⟨rfl, rfl, rfl, rfl, id, by simp [Client.Released, hpc]⟩, Or.inl rfl⟩
    · rename_i hpc
      split at h
      · rename_i hflag
        cases h
        exact Or.inr ⟨hpc, hflag, rfl, rfl⟩
      · cases h
        exact Or.inl ⟨⟨rfl, rfl, rfl, rfl, id, by simp [Client.Released]⟩, Or.inl rfl⟩
    · cases h
  | heartbeat =>
    simp only [Client.advance] at h
    split at h
    · cases h
      exact Or.inl ⟨⟨rfl, rfl, rfl, rfl, id, id⟩, Or.inl rfl⟩
    · cases h
      exact Or.inl ⟨⟨rfl, rfl, rfl, rfl, id, id⟩, Or.inl rfl⟩
    · split at h
      · rename_i hflag
        cases h
        exact Or.inl ⟨⟨rfl, rfl, rfl, rfl, id, id⟩, Or.inr (Or.inr ⟨hflag, rfl⟩)⟩
      · cases h
        exact Or.inl ⟨⟨rfl, rfl, rfl, rfl, fun hf => by simp at hf, id⟩, Or.inl rfl⟩
    · cases h
      exact Or.inl ⟨⟨rfl, rfl, rfl, rfl, id, id⟩, Or.inr (Or.inl rfl)⟩
    · cases h

/-- **Going on with a response**: the process dies of an exception, keeps its ticket, or takes the
one that a grant carries. -/
theorem resume_cases {c c' : Client} {thread : Thread} {response : Text}
    (h : c.resume response thread = some c') :
    c' = { c with alive := false } ∨ c.Moves c' ∨
      ∃ ticket, IsTick response ∧ substrFrom response 5 = some ticket ∧
        c.Obtains c' ticket := by
  cases thread with
  | main =>
    simp only [Client.resume] at h
    split at h
    · rename_i hpc
      rcases getTicketReturn_cases c response with ⟨_, he⟩ | ⟨ticket, hk, hsub, he⟩ | he
      · rw [he] at h; cases h
        exact Or.inl rfl
      · rw [he] at h; cases h
        exact Or.inr (Or.inr ⟨ticket, hk, hsub, rfl, rfl, rfl, rfl, by simp [Client.Released, hpc]⟩)
      · rw [he] at h; cases h
        exact Or.inr (Or.inl ⟨rfl, rfl, rfl, rfl, id, by simp [Client.Released, hpc]⟩)
    · cases h
      exact Or.inr (Or.inl ⟨rfl, rfl, rfl, rfl, fun hf => by simp at hf,
        by simp [Client.Released]⟩)
    · cases h
  | heartbeat =>
    simp only [Client.resume] at h
    split at h
    · split at h
      · cases h
        exact Or.inr (Or.inl ⟨rfl, rfl, rfl, rfl, id, id⟩)
      · cases h
        exact Or.inr (Or.inl ⟨rfl, rfl, rfl, rfl, fun hf => by simp at hf, id⟩)
    · rcases getTicketReturn_cases c response with ⟨_, he⟩ | ⟨ticket, hk, hsub, he⟩ | he
      · rw [he] at h; cases h
        exact Or.inl rfl
      · rw [he] at h; cases h
        exact Or.inr (Or.inr ⟨ticket, hk, hsub, rfl, rfl, rfl, rfl, id⟩)
      · rw [he] at h; cases h
        exact Or.inr (Or.inl ⟨rfl, rfl, rfl, rfl, id, id⟩)
    · cases h

/-! ## One client's texts -/

/-- The texts of client `pid`: `out` its requests on their way, `inn` the replies on their way. -/
structure Formed (out inn : List Text) (pid : Int) (c : Client) : Prop where
  pid_eq : c.pid = pid
  fits : FitsInt pid
  ticket : c.hasTicket = true → ∃ t, FitsInt t ∧ c.ticket = ticketText pid t
  requests : ∀ d ∈ out, ClientRequest pid d
  ticks : ∀ d ∈ inn, IsTick d → ∃ t, FitsInt t ∧ d = tickText pid t

section

variable {out inn out' inn' : List Text} {pid : Int} {c c' : Client}

theorem Formed.start (hp : FitsInt pid) : Formed [] [] pid (Client.start pid) where
  pid_eq := rfl
  fits := hp
  ticket := fun h => by cases h
  requests := fun _ h => by cases h
  ticks := fun _ h => by cases h

theorem Formed.mono (h : Formed out inn pid c) (ho : out'.Sublist out) (hi : inn'.Sublist inn) :
    Formed out' inn' pid c :=
  ⟨h.pid_eq, h.fits, h.ticket, fun d hd => h.requests d (ho.subset hd),
    fun d hd => h.ticks d (hi.subset hd)⟩

theorem Formed.moves (h : Formed out inn pid c) (hm : c.Moves c') : Formed out inn pid c' :=
  ⟨hm.pid.trans h.pid_eq, h.fits, fun hf => by rw [hm.ticket]; exact h.ticket (hm.hasTicket hf),
    h.requests, h.ticks⟩

theorem Formed.send {d : Text} (h : Formed out inn pid c) (hd : ClientRequest pid d) :
    Formed (out ++ [d]) inn pid c := by
  refine ⟨h.pid_eq, h.fits, h.ticket, fun e he => ?_, h.ticks⟩
  rcases List.mem_append.mp he with he | he
  · exact h.requests e he
  · rw [List.mem_singleton.mp he]; exact hd

theorem Formed.reply {r : Text} (h : Formed out inn pid c)
    (hr : IsTick r → ∃ t, FitsInt t ∧ r = tickText pid t) : Formed out (inn ++ [r]) pid c := by
  refine ⟨h.pid_eq, h.fits, h.ticket, h.requests, fun e he hk => ?_⟩
  rcases List.mem_append.mp he with he | he
  · exact h.ticks e he hk
  · rw [List.mem_singleton] at he
    subst he; exact hr hk

theorem Formed.advance {thread : Thread} {d : Option Text} (h : Formed out inn pid c)
    (ha : c.advance thread = some (c', d)) : Formed (out ++ d.toList) inn pid c' := by
  rcases advance_cases ha with ⟨hm, rfl | rfl | ⟨hflag, rfl⟩⟩ | ⟨_, hflag, rfl, rfl⟩
  · simpa using h.moves hm
  · exact (h.moves hm).send (Or.inl (by rw [h.pid_eq]))
  · obtain ⟨t, ht, hticket⟩ := h.ticket hflag
    exact (h.moves hm).send (Or.inr ⟨t, ht, Or.inr (by rw [hticket])⟩)
  · obtain ⟨t, ht, hticket⟩ := h.ticket hflag
    have h' : Formed out inn pid c.gbyeSent := ⟨h.pid_eq, h.fits, h.ticket, h.requests, h.ticks⟩
    exact h'.send (Or.inr ⟨t, ht, Or.inl (by rw [hticket])⟩)

/-- Going on with a response; a grant is one of this client's own. -/
theorem Formed.resume {thread : Thread} {response : Text} (h : Formed out inn pid c)
    (hr : IsTick response → ∃ t, FitsInt t ∧ response = tickText pid t)
    (ha : c.resume response thread = some c') : Formed out inn pid c' := by
  rcases resume_cases ha with rfl | hm | ⟨ticket, hk, hsub, ho⟩
  · exact ⟨h.pid_eq, h.fits, h.ticket, h.requests, h.ticks⟩
  · exact h.moves hm
  · obtain ⟨t, ht, rfl⟩ := hr hk
    rw [substrFrom_tickText] at hsub
    exact ⟨ho.pid.trans h.pid_eq, h.fits,
      fun _ => ⟨t, ht, ho.ticket.trans (Option.some.inj hsub).symm⟩, h.requests, h.ticks⟩

end

end CampusNet.Licence
