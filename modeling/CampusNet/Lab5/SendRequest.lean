import CampusNet.Lab5.Client

/-!
# The calls of one client thread

One thread calls `GetTicket`, `ValidateTicket` and `ReleaseTicket` any number of times, in any
order.  Its requests and the server's replies each keep their order and may be lost; a reply waits
in the socket until some `recvfrom` takes it, and `recvfrom` gives up only while the socket is
empty.  Other traffic may change the server at any time.

Every request carries the number of its call, and every reply the request it answers; the program
reads neither.

* `Session`, `sendRequest` — the thread, the two directions of traffic, the socket, the server.
* `session_change` — the one inversion lemma for the steps.
* `numbered_answers` — in every reachable state the numbers in flight increase, and every reply is
  the server's answer to the request it carries.
-/

namespace CampusNet.Licence

open Runs

inductive Call where
  | getTicket
  | releaseTicket
  | validateTicket
  deriving DecidableEq, Repr

/-- What a call ends with. -/
inductive Outcome where
  | noResponse
  | acquired
  | denied
  | released
  | good
  | invalid
  deriving DecidableEq, Repr

/-- A request, with the number of its call. -/
structure Request where
  number : Nat
  call : Call
  text : Text
  deriving DecidableEq

structure Reply where
  request : Request
  text : Text
  deriving DecidableEq

/-- A call that has ended, with the datagram its `recvfrom` took. -/
structure Returned where
  request : Request
  reply : Option Reply
  outcome : Outcome
  deriving DecidableEq

structure Session where
  server : Server
  ticket : Text
  hasTicket : Bool
  calls : Nat
  waiting : Option Request
  requests : List Request
  replies : List Reply
  socket : List Reply
  returned : List Returned

def Session.start : Session := ⟨Server.start, [], false, 0, none, [], [], [], []⟩

/-- The request of a call; without a ticket two of the calls return at once. -/
def Session.requestText (pid : Int) (s : Session) : Call → Option Text
  | .getTicket => some (heloText pid)
  | .releaseTicket => if s.hasTicket then some (gbyeText s.ticket) else none
  | .validateTicket => if s.hasTicket then some (validText s.ticket) else none

/-- `recvfrom` into 511 bytes and `string(buffer)`; the empty text is an error return. -/
def received (datagram : Text) : Text :=
  if datagram.length = 0 ∨ 511 < datagram.length then [] else cString datagram

def outcome : Call → Text → Outcome
  | .releaseTicket, _ => .released
  | .getTicket, response =>
    if response = [] then .noResponse
    else if response.take 4 = "TICK".toList then .acquired else .denied
  | .validateTicket, response =>
    if response = [] then .noResponse
    else if response.take 4 = "GOOD".toList then .good else .invalid

/-- `g_ticket` and `g_hasTicket` after a call; `none` is the throw of `substr`.  A ticket that does
not validate is given up by the heartbeat. -/
def Session.ticketAfter (s : Session) (call : Call) (response : Text) : Option (Text × Bool) :=
  match call, outcome call response with
  | .getTicket, .acquired => (substrFrom response 5).map fun ticket => (ticket, true)
  | .getTicket, _ => some (s.ticket, s.hasTicket)
  | .releaseTicket, _ => some (s.ticket, false)
  | .validateTicket, .good => some (s.ticket, s.hasTicket)
  | .validateTicket, _ => some (s.ticket, false)

/-- The text a `SendRequest` that took `reply` returns. -/
def responseOf (reply : Option Reply) : Text := (reply.map fun m => received m.text).getD []

/-- The call `r` ends with what `recvfrom` took. -/
def Session.finish (s : Session) (r : Request) (reply : Option Reply) : Option Session :=
  (s.ticketAfter r.call (responseOf reply)).map fun p =>
    { s with
      ticket := p.1, hasTicket := p.2, waiting := none,
      returned := s.returned ++ [⟨r, reply, outcome r.call (responseOf reply)⟩] }

inductive SessionAction where
  | call (c : Call)
  | receive
  | timeout
  | serve
  | loseRequest (i : Nat)
  | loseReply (i : Nat)
  | deliver
  | other (a : ServerAction)

def sessionStep (pid : Int) (s : Session) : SessionAction → Option Session
  | .call c =>
    match s.waiting, s.requestText pid c with
    | some _, _ => none
    | none, none => some s
    | none, some text =>
      some { s with
        calls := s.calls + 1, waiting := some ⟨s.calls + 1, c, text⟩,
        requests := s.requests ++ [⟨s.calls + 1, c, text⟩] }
  | .receive =>
    match s.waiting, s.socket with
    | some r, m :: rest => { s with socket := rest }.finish r (some m)
    | _, _ => none
  | .timeout =>
    match s.waiting, s.socket with
    | some r, [] => s.finish r none
    | _, _ => none
  | .serve =>
    match s.requests with
    | r :: rest =>
      (serve s.server r.text).map fun p =>
        { s with
          server := p.2, requests := rest,
          replies := s.replies ++ p.1.toList.map fun text => ⟨r, text⟩ }
    | [] => none
  | .loseRequest i => some { s with requests := s.requests.eraseIdx i }
  | .loseReply i => some { s with replies := s.replies.eraseIdx i }
  | .deliver =>
    match s.replies with
    | m :: rest => some { s with replies := rest, socket := s.socket ++ [m] }
    | [] => none
  | .other a => (serverStep s.server a).map fun server => { s with server := server }

def sendRequest (pid : Int) : Machine Session SessionAction := ⟨Session.start, sessionStep pid⟩

/-! ## What a step can do -/

/-- The requests in flight, or answered by a reply that is: oldest first. -/
def Session.inFlight (s : Session) : List Request :=
  s.socket.map (·.request) ++ (s.replies.map (·.request) ++ s.requests)

/-- The steps of the session, each with what enables it. -/
inductive SessionChange (pid : Int) (s : Session) : SessionAction → Session → Prop
  | skip (c : Call) : SessionChange pid s (.call c) s
  | call {c : Call} {text : Text} : s.waiting = none → s.requestText pid c = some text →
      SessionChange pid s (.call c) { s with
        calls := s.calls + 1, waiting := some ⟨s.calls + 1, c, text⟩,
        requests := s.requests ++ [⟨s.calls + 1, c, text⟩] }
  | receive {r : Request} {m : Reply} {rest : List Reply} (ticket : Text) (hasTicket : Bool) :
      s.waiting = some r → s.socket = m :: rest → SessionChange pid s .receive { s with
        ticket := ticket, hasTicket := hasTicket, waiting := none, socket := rest,
        returned := s.returned ++ [⟨r, some m, outcome r.call (received m.text)⟩] }
  | timeout {r : Request} (ticket : Text) (hasTicket : Bool) : s.waiting = some r →
      s.socket = [] → SessionChange pid s .timeout { s with
        ticket := ticket, hasTicket := hasTicket, waiting := none,
        returned := s.returned ++ [⟨r, none, outcome r.call []⟩] }
  | serve {r : Request} {rest : List Request} {answer : Option Text} {server : Server} :
      s.requests = r :: rest → serve s.server r.text = some (answer, server) →
      SessionChange pid s .serve { s with
        server := server, requests := rest,
        replies := s.replies ++ answer.toList.map fun text => ⟨r, text⟩ }
  | loseRequest (i : Nat) :
      SessionChange pid s (.loseRequest i) { s with requests := s.requests.eraseIdx i }
  | loseReply (i : Nat) :
      SessionChange pid s (.loseReply i) { s with replies := s.replies.eraseIdx i }
  | deliver {m : Reply} {rest : List Reply} : s.replies = m :: rest →
      SessionChange pid s .deliver { s with replies := rest, socket := s.socket ++ [m] }
  | other {a : ServerAction} {server : Server} : serverStep s.server a = some server →
      SessionChange pid s (.other a) { s with server := server }

theorem session_change {pid : Int} {s s' : Session} {a : SessionAction}
    (h : sessionStep pid s a = some s') : SessionChange pid s a s' := by
  cases a with
  | call c =>
    simp only [sessionStep] at h
    split at h
    · cases h
    · cases h
      exact .skip c
    · rename_i hidle htext
      cases h
      exact .call hidle htext
  | receive =>
    simp only [sessionStep] at h
    split at h
    · rename_i r m rest hwaiting hsocket
      obtain ⟨⟨ticket, hasTicket⟩, -, rfl⟩ := Option.map_eq_some_iff.mp h
      exact .receive ticket hasTicket hwaiting hsocket
    · cases h
  | timeout =>
    simp only [sessionStep] at h
    split at h
    · rename_i r hwaiting hsocket
      obtain ⟨⟨ticket, hasTicket⟩, -, rfl⟩ := Option.map_eq_some_iff.mp h
      exact .timeout ticket hasTicket hwaiting hsocket
    · cases h
  | serve =>
    simp only [sessionStep] at h
    split at h
    · rename_i r rest hrequests
      obtain ⟨⟨answer, server⟩, hserve, rfl⟩ := Option.map_eq_some_iff.mp h
      exact .serve hrequests hserve
    · cases h
  | loseRequest i => cases h; exact .loseRequest i
  | loseReply i => cases h; exact .loseReply i
  | deliver =>
    simp only [sessionStep] at h
    split at h
    · rename_i m rest hreplies
      cases h
      exact .deliver hreplies
    · cases h
  | other a =>
    obtain ⟨server, hserver, rfl⟩ := Option.map_eq_some_iff.mp h
    exact .other hserver

/-! ## Numbers in flight -/

/-- The numbers in flight increase up to the number of calls, and the one of the current call
belongs to its request. -/
structure Numbered (s : Session) : Prop where
  increasing : s.inFlight.Pairwise fun r r' => r.number < r'.number
  started : ∀ r ∈ s.inFlight, r.number ≤ s.calls
  current : ∀ r, s.waiting = some r →
    r.number = s.calls ∧ ∀ r' ∈ s.inFlight, r'.number = s.calls → r' = r

/-- A step takes from the requests in flight, or starts a call and puts its request behind them. -/
theorem SessionChange.inFlight {pid : Int} {s s' : Session} {a : SessionAction}
    (h : SessionChange pid s a s') :
    (s'.calls = s.calls ∧ (s'.waiting = s.waiting ∨ s'.waiting = none) ∧
      s'.inFlight.Sublist s.inFlight) ∨
    (∃ r, r.number = s.calls + 1 ∧ s'.calls = s.calls + 1 ∧ s'.waiting = some r ∧
      s'.inFlight = s.inFlight ++ [r]) := by
  cases h with
  | skip | other => exact Or.inl ⟨rfl, Or.inl rfl, List.Sublist.refl _⟩
  | @call c text hidle htext =>
    refine Or.inr ⟨⟨s.calls + 1, c, text⟩, rfl, rfl, rfl, ?_⟩
    simp [Session.inFlight]
  | receive ticket hasTicket hwaiting hsocket =>
    refine Or.inl ⟨rfl, Or.inr rfl, ?_⟩
    simp [Session.inFlight, hsocket]
  | timeout ticket hasTicket hwaiting hsocket =>
    exact Or.inl ⟨rfl, Or.inr rfl, List.Sublist.refl _⟩
  | @serve r rest answer server hrequests hserve =>
    refine Or.inl ⟨rfl, Or.inl rfl, ?_⟩
    have hanswer : (answer.toList.map fun text => (⟨r, text⟩ : Reply).request).Sublist [r] := by
      cases answer with
      | none => exact List.nil_sublist _
      | some text => exact List.Sublist.refl _
    simp only [Session.inFlight, hrequests, List.map_append, List.map_map, List.append_assoc]
    refine (List.Sublist.refl _).append ((List.Sublist.refl _).append ?_)
    exact hanswer.append (List.Sublist.refl rest)
  | loseRequest i =>
    refine Or.inl ⟨rfl, Or.inl rfl, ?_⟩
    exact (List.Sublist.refl _).append ((List.Sublist.refl _).append (List.eraseIdx_sublist ..))
  | loseReply i =>
    refine Or.inl ⟨rfl, Or.inl rfl, ?_⟩
    have hreplies := (List.eraseIdx_sublist s.replies i).map (·.request)
    exact (List.Sublist.refl _).append (hreplies.append (List.Sublist.refl _))
  | deliver hreplies =>
    refine Or.inl ⟨rfl, Or.inl rfl, ?_⟩
    simp [Session.inFlight, hreplies]

theorem Numbered.change {pid : Int} {s s' : Session} {a : SessionAction} (hs : Numbered s)
    (h : SessionChange pid s a s') : Numbered s' := by
  rcases h.inFlight with ⟨hcalls, hwaiting, hsub⟩ | ⟨r, hr, hcalls, hwaiting, hflight⟩
  · refine ⟨hs.increasing.sublist hsub, fun r hr => ?_, fun r hr => ?_⟩
    · rw [hcalls]
      exact hs.started r (hsub.subset hr)
    · rcases hwaiting with hsame | hnone
      · obtain ⟨hnumber, hown⟩ := hs.current r (hsame ▸ hr)
        rw [hcalls]
        exact ⟨hnumber, fun r' hr' => hown r' (hsub.subset hr')⟩
      · rw [hnone] at hr
        cases hr
  · refine ⟨?_, fun r' hr' => ?_, fun r' hr' => ?_⟩
    · rw [hflight, List.pairwise_append]
      refine ⟨hs.increasing, List.pairwise_singleton .., fun r' hr' x hx => ?_⟩
      have hle := hs.started r' hr'
      rw [List.mem_singleton] at hx
      rw [hx, hr]
      omega
    · rw [hflight, List.mem_append, List.mem_singleton] at hr'
      rcases hr' with hold | rfl
      · have hle := hs.started r' hold
        omega
      · omega
    · rw [hwaiting] at hr'
      cases hr'
      refine ⟨by omega, fun x hx hnumber => ?_⟩
      rw [hflight, List.mem_append, List.mem_singleton] at hx
      rcases hx with hold | rfl
      · have hle := hs.started x hold
        omega
      · rfl

/-! ## Answers -/

/-- The server sends `m.text` when it handles the request of `m`. -/
def IsAnswer (m : Reply) : Prop :=
  ∃ server server', Reachable serverLoop server ∧
    serve server m.request.text = some (some m.text, server')

/-- The text of a request is the one its call sends. -/
def Request.Formed (pid : Int) (r : Request) : Prop :=
  (r.call = .getTicket → r.text = heloText pid) ∧
  (r.call = .validateTicket → ∃ ticket, r.text = validText ticket)

structure Answers (pid : Int) (s : Session) : Prop where
  server : Reachable serverLoop s.server
  socket : ∀ m ∈ s.socket, IsAnswer m
  replies : ∀ m ∈ s.replies, IsAnswer m
  waiting : ∀ r, s.waiting = some r → r.Formed pid
  returned : ∀ e ∈ s.returned, e.request.Formed pid ∧ ∀ m, e.reply = some m →
    IsAnswer m ∧ e.outcome = outcome e.request.call (received m.text)

theorem formed_requestText {pid : Int} {s : Session} {c : Call} {text : Text} {n : Nat}
    (h : s.requestText pid c = some text) : Request.Formed pid ⟨n, c, text⟩ := by
  cases c with
  | getTicket => cases h; exact ⟨fun _ => rfl, nofun⟩
  | releaseTicket => exact ⟨nofun, nofun⟩
  | validateTicket =>
    refine ⟨nofun, fun _ => ⟨s.ticket, ?_⟩⟩
    simp only [Session.requestText] at h
    split at h
    · exact (Option.some.inj h).symm
    · cases h

theorem Answers.change {pid : Int} {s s' : Session} {a : SessionAction} (hs : Answers pid s)
    (h : SessionChange pid s a s') : Answers pid s' := by
  cases h with
  | skip c => exact hs
  | call hidle htext =>
    exact { hs with waiting := fun r hr => Option.some.inj hr ▸ formed_requestText htext }
  | @receive r m rest ticket hasTicket hwaiting hsocket =>
    have hsock := hs.socket
    rw [hsocket, List.forall_mem_cons] at hsock
    refine { hs with socket := hsock.2, waiting := nofun, returned := ?_ }
    rw [List.forall_mem_append, List.forall_mem_singleton]
    refine ⟨hs.returned, hs.waiting r hwaiting, fun m' hm' => ?_⟩
    cases hm'
    exact ⟨hsock.1, rfl⟩
  | @timeout r ticket hasTicket hwaiting hsocket =>
    refine { hs with waiting := nofun, returned := ?_ }
    rw [List.forall_mem_append, List.forall_mem_singleton]
    exact ⟨hs.returned, hs.waiting r hwaiting, nofun⟩
  | @serve r rest answer server hrequests hserve =>
    refine { hs with server := ?_, replies := ?_ }
    · apply hs.server.step (a := .datagram r.text)
      show (serve s.server r.text).map (·.2) = some server
      rw [hserve]
      rfl
    · rw [List.forall_mem_append]
      refine ⟨hs.replies, fun m hm => ?_⟩
      obtain ⟨text, htext, rfl⟩ := List.mem_map.mp hm
      rw [Option.mem_toList] at htext
      rw [htext] at hserve
      exact ⟨s.server, server, hs.server, hserve⟩
  | loseRequest i => exact { hs with }
  | loseReply i =>
    exact { hs with replies := fun m hm => hs.replies m (List.mem_of_mem_eraseIdx hm) }
  | deliver hreplies =>
    have hrep := hs.replies
    rw [hreplies, List.forall_mem_cons] at hrep
    refine { hs with replies := hrep.2, socket := ?_ }
    rw [List.forall_mem_append, List.forall_mem_singleton]
    exact ⟨hs.socket, hrep.1⟩
  | other hserver => exact { hs with server := hs.server.step hserver }

theorem numbered_answers {pid : Int} {s : Session} (h : Reachable (sendRequest pid) s) :
    Numbered s ∧ Answers pid s := by
  refine h.induct (I := fun s => Numbered s ∧ Answers pid s) ⟨?_, ?_⟩ ?_
  · exact ⟨List.Pairwise.nil, nofun, nofun⟩
  · exact ⟨.init, nofun, nofun, nofun, nofun⟩
  · intro s a s' hs hstep
    exact ⟨hs.1.change (session_change hstep), hs.2.change (session_change hstep)⟩

end CampusNet.Licence
