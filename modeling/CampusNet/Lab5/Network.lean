import CampusNet.Lab5.Client
import CampusNet.Lib.Mail
import Mathlib.Logic.Function.Basic

/-!
# The licence clients, the server and the network

Any number of processes of `lab5/client.cpp` talking to the server.

* `Sys` — the server, the processes by pid, and the datagrams in flight in both directions.  A
  datagram may wait for any time, be overtaken, or be dropped; it is never duplicated.
* `system` — the steps: a process starts under a pid never used before, a thread advances,
  receives a reply addressed to its process or times out, the server handles a waiting request,
  a process dies, `ReclaimTickets` runs with `IsProcessAlive` accurate.
* `ClientRules` / `ClientRules.step` — reasoning about one client at a time: a property of a
  client, its requests, its replies and the table is kept by every step if each kind of step
  keeps it.
* `wire` — what is always true of the texts in flight.
-/

namespace CampusNet.Licence

open Runs Mail

structure Sys where
  server : Server
  clients : Int → Option Client
  requests : List (Int × Text)
  replies : List (Int × Text)

def Sys.start : Sys := ⟨Server.start, fun _ => none, [], []⟩

/-- The live process with this pid. -/
def Sys.live (s : Sys) (pid : Int) : Option Client := (s.clients pid).filter (·.alive)

def Sys.setClient (s : Sys) (pid : Int) (c : Client) : Sys :=
  { s with clients := Function.update s.clients pid (some c) }

/-- `sendto` from the process `pid`. -/
def Sys.send (s : Sys) (pid : Int) : Option Text → Sys
  | none => s
  | some d => { s with requests := s.requests ++ [(pid, d)] }

inductive Action where
  | start (pid : Int)
  | advance (pid : Int) (thread : Thread)
  | receive (pid : Int) (thread : Thread) (i : Nat)
  | timeout (pid : Int) (thread : Thread)
  | serve (i : Nat)
  | dropRequest (i : Nat)
  | dropReply (i : Nat)
  | die (pid : Int)
  | reclaim
  deriving DecidableEq, Repr

/-- `IsProcessAlive`, accurate. -/
def Sys.isProcessAlive (s : Sys) (pid : Int) : Bool := (s.live pid).isSome

def step (s : Sys) : Action → Option Sys
  | .start pid =>
    if (s.clients pid).isNone ∧ FitsInt pid then some (s.setClient pid (Client.start pid))
    else none
  | .advance pid thread => do
    let c ← s.live pid
    let (c', d) ← c.advance thread
    some ((s.setClient pid c').send pid d)
  | .receive pid thread i => do
    let c ← s.live pid
    let (addr, d) ← s.replies[i]?
    if addr = pid then do
      let c' ← c.resume (cString d) thread
      some { s.setClient pid c' with replies := s.replies.eraseIdx i }
    else none
  | .timeout pid thread => do
    let c ← s.live pid
    let c' ← c.resume [] thread
    some (s.setClient pid c')
  | .serve i => do
    let (addr, d) ← s.requests[i]?
    let (response, server) ← serve s.server d
    some { s with server := server, requests := s.requests.eraseIdx i,
                  replies := s.replies ++ (response.toList.map fun r => (addr, r)) }
  | .dropRequest i => some { s with requests := s.requests.eraseIdx i }
  | .dropReply i => some { s with replies := s.replies.eraseIdx i }
  | .die pid => do
    let c ← s.live pid
    some (s.setClient pid { c with alive := false })
  | .reclaim =>
    some { s with server := reclaimTickets (fun _ pid => s.isProcessAlive pid) s.server }

def system : Machine Sys Action := ⟨Sys.start, step⟩

/-- The ticket the live process `pid` received as its current one and has not sent a GBYE for. -/
def Sys.holding (s : Sys) (pid : Int) : Option Text := (s.live pid).bind (·.held)

/-! ## One client at a time -/

theorem live_eq_some {s : Sys} {pid : Int} {c : Client} :
    s.live pid = some c ↔ s.clients pid = some c ∧ c.alive = true := by
  simp [Sys.live, Option.filter_eq_some_iff]

/-- What each action does. -/
inductive Change (s : Sys) : Action → Sys → Prop
  | start {pid : Int} : s.clients pid = none → FitsInt pid →
      Change s (.start pid) (s.setClient pid (Client.start pid))
  | advance {pid : Int} {thread : Thread} {c c' : Client} {d : Option Text} :
      s.clients pid = some c → c.alive = true → c.advance thread = some (c', d) →
      Change s (.advance pid thread) ((s.setClient pid c').send pid d)
  | receive {pid : Int} {thread : Thread} {i : Nat} {d : Text} {c c' : Client} :
      s.clients pid = some c → c.alive = true → s.replies[i]? = some (pid, d) →
      c.resume (cString d) thread = some c' →
      Change s (.receive pid thread i)
        { s.setClient pid c' with replies := s.replies.eraseIdx i }
  | timeout {pid : Int} {thread : Thread} {c c' : Client} :
      s.clients pid = some c → c.alive = true → c.resume [] thread = some c' →
      Change s (.timeout pid thread) (s.setClient pid c')
  | serve {i : Nat} {addr : Int} {d : Text} {response : Option Text} {server : Server} :
      s.requests[i]? = some (addr, d) → Licence.serve s.server d = some (response, server) →
      Change s (.serve i)
        { s with server := server, requests := s.requests.eraseIdx i,
                 replies := s.replies ++ (response.toList.map fun r => (addr, r)) }
  | dropRequest (i : Nat) :
      Change s (.dropRequest i) { s with requests := s.requests.eraseIdx i }
  | dropReply (i : Nat) : Change s (.dropReply i) { s with replies := s.replies.eraseIdx i }
  | die {pid : Int} {c : Client} : s.clients pid = some c →
      Change s (.die pid) (s.setClient pid { c with alive := false })
  | reclaim : Change s .reclaim
      { s with server := reclaimTickets (fun _ pid => s.isProcessAlive pid) s.server }

theorem step_change {s s' : Sys} {a : Action} (h : step s a = some s') : Change s a s' := by
  cases a with
  | start pid =>
    simp only [step] at h
    split at h
    · rename_i hcond
      cases h
      exact .start (Option.isNone_iff_eq_none.mp hcond.1) hcond.2
    · cases h
  | advance pid thread =>
    obtain ⟨c, hc, h⟩ := Option.bind_eq_some_iff.mp h
    obtain ⟨⟨c', d⟩, ha, h⟩ := Option.bind_eq_some_iff.mp h
    cases h
    obtain ⟨hclient, halive⟩ := live_eq_some.mp hc
    exact .advance hclient halive ha
  | receive pid thread i =>
    obtain ⟨c, hc, h⟩ := Option.bind_eq_some_iff.mp h
    obtain ⟨⟨addr, d⟩, hm, h⟩ := Option.bind_eq_some_iff.mp h
    simp only at h
    split at h
    · rename_i haddr
      subst haddr
      obtain ⟨c', ha, h⟩ := Option.bind_eq_some_iff.mp h
      cases h
      obtain ⟨hclient, halive⟩ := live_eq_some.mp hc
      exact .receive hclient halive hm ha
    · cases h
  | timeout pid thread =>
    obtain ⟨c, hc, h⟩ := Option.bind_eq_some_iff.mp h
    obtain ⟨c', ha, h⟩ := Option.bind_eq_some_iff.mp h
    cases h
    obtain ⟨hclient, halive⟩ := live_eq_some.mp hc
    exact .timeout hclient halive ha
  | serve i =>
    obtain ⟨⟨addr, d⟩, hm, h⟩ := Option.bind_eq_some_iff.mp h
    obtain ⟨⟨r, server⟩, hs, h⟩ := Option.bind_eq_some_iff.mp h
    cases h
    exact .serve hm hs
  | dropRequest i => cases h; exact .dropRequest i
  | dropReply i => cases h; exact .dropReply i
  | die pid =>
    obtain ⟨c, hc, h⟩ := Option.bind_eq_some_iff.mp h
    cases h
    exact .die (live_eq_some.mp hc).1
  | reclaim => cases h; exact .reclaim

/-- Every client, with the table and the mail from and to it. -/
def Sys.All (Q : Tickets → List Text → List Text → Int → Client → Prop) (s : Sys) : Prop :=
  ∀ pid c, s.clients pid = some c →
    Q s.server.tickets (mailOf pid s.requests) (mailOf pid s.replies) pid c

/-- Datagrams are from and to processes that have been started. -/
structure Known (s : Sys) : Prop where
  requests : ∀ m ∈ s.requests, s.clients m.1 ≠ none
  replies : ∀ m ∈ s.replies, s.clients m.1 ≠ none

/-- What each kind of step must keep, for a property of one client. -/
structure ClientRules (Q : Tickets → List Text → List Text → Int → Client → Prop) (s : Sys)
    (a : Action) : Prop where
  start : ∀ {pid}, FitsInt pid → Q s.server.tickets [] [] pid (Client.start pid)
  advance : ∀ {out inn pid c c' thread d}, Q s.server.tickets out inn pid c → c.alive = true →
    c.advance thread = some (c', d) → Q s.server.tickets (out ++ d.toList) inn pid c'
  receive : ∀ {out p q d pid c c' thread}, Q s.server.tickets out (p ++ d :: q) pid c →
    c.alive = true → c.resume (cString d) thread = some c' →
    Q s.server.tickets out (p ++ q) pid c'
  timeout : ∀ {out inn pid c c' thread}, Q s.server.tickets out inn pid c → c.alive = true →
    c.resume [] thread = some c' → Q s.server.tickets out inn pid c'
  die : ∀ {out inn pid c}, Q s.server.tickets out inn pid c →
    Q s.server.tickets out inn pid { c with alive := false }
  lose : ∀ {out inn out' inn' pid c}, Q s.server.tickets out inn pid c → out'.Sublist out →
    inn'.Sublist inn → Q s.server.tickets out' inn' pid c
  served : ∀ {i d r server p q inn pid c}, a = .serve i → s.requests[i]? = some (pid, d) →
    serve s.server d = some (r, server) → Q s.server.tickets (p ++ d :: q) inn pid c →
    Q server.tickets (p ++ q) (inn ++ r.toList) pid c
  servedOther : ∀ {i addr d r server out inn pid c}, a = .serve i →
    s.requests[i]? = some (addr, d) → serve s.server d = some (r, server) → addr ≠ pid →
    Q s.server.tickets out inn pid c → Q server.tickets out inn pid c
  reclaim : ∀ {out inn pid c}, a = .reclaim → s.clients pid = some c →
    Q s.server.tickets out inn pid c →
    Q (reclaimTickets (fun _ pid => s.isProcessAlive pid) s.server).tickets out inn pid c

theorem mailOf_none {s : Sys} {pid : Int} (hk : Known s) (h : s.clients pid = none) :
    mailOf pid s.requests = [] ∧ mailOf pid s.replies = [] := by
  constructor
  · rw [List.eq_nil_iff_forall_not_mem]
    exact fun d hd => hk.requests _ (mem_mailOf.mp hd) h
  · rw [List.eq_nil_iff_forall_not_mem]
    exact fun d hd => hk.replies _ (mem_mailOf.mp hd) h

/-- Replacing one client: the others see no new mail. -/
theorem Sys.All.setClient {Q : Tickets → List Text → List Text → Int → Client → Prop} {s s' : Sys}
    (h : s.All Q) (pid : Int) (c' : Client)
    (hlose : ∀ {out inn out' inn' q c}, Q s.server.tickets out inn q c → out'.Sublist out →
      inn'.Sublist inn → Q s.server.tickets out' inn' q c)
    (hserver : s'.server = s.server)
    (hclients : s'.clients = Function.update s.clients pid (some c'))
    (hout : ∀ q, q ≠ pid → (mailOf q s'.requests).Sublist (mailOf q s.requests))
    (hinn : ∀ q, q ≠ pid → (mailOf q s'.replies).Sublist (mailOf q s.replies))
    (hself : Q s.server.tickets (mailOf pid s'.requests) (mailOf pid s'.replies) pid c') :
    s'.All Q := by
  intro q c hc
  rw [hserver]
  rw [hclients] at hc
  by_cases hq : q = pid
  · subst hq
    rw [Function.update_self] at hc
    cases hc; exact hself
  · rw [Function.update_of_ne hq] at hc
    exact hlose (h q c hc) (hout q hq) (hinn q hq)

theorem mailOf_send_ne {s : Sys} {pid q : Int} {d : Option Text} (h : q ≠ pid) :
    mailOf q (s.send pid d).requests = mailOf q s.requests := by
  cases d with
  | none => rfl
  | some d => simp only [Sys.send]; rw [mailOf_append, if_neg (Ne.symm h)]

theorem mailOf_send_self (s : Sys) (pid : Int) (d : Option Text) :
    mailOf pid (s.send pid d).requests = mailOf pid s.requests ++ d.toList := by
  cases d with
  | none => simp [Sys.send]
  | some d => simp only [Sys.send]; rw [mailOf_append, if_pos rfl]; rfl

theorem send_server (s : Sys) (pid : Int) (d : Option Text) : (s.send pid d).server = s.server := by
  cases d <;> rfl

theorem send_clients (s : Sys) (pid : Int) (d : Option Text) :
    (s.send pid d).clients = s.clients := by
  cases d <;> rfl

theorem send_replies (s : Sys) (pid : Int) (d : Option Text) :
    (s.send pid d).replies = s.replies := by
  cases d <;> rfl

theorem mailOf_map_toList (q addr : Int) (l : List (Int × Text)) (r : Option Text) :
    mailOf q (l ++ (r.toList.map fun x => (addr, x))) =
      if addr = q then mailOf q l ++ r.toList else mailOf q l := by
  cases r with
  | none => simp
  | some r => simpa using mailOf_append q addr r l

/-- **One client at a time**: a property that each kind of step keeps is kept by the system. -/
theorem ClientRules.step {Q : Tickets → List Text → List Text → Int → Client → Prop} {s s' : Sys}
    {a : Action} (hr : ClientRules Q s a) (hk : Known s) (h : s.All Q)
    (hstep : Licence.step s a = some s') : s'.All Q := by
  cases step_change hstep with
  | @start pid hnone hfits =>
    obtain ⟨h1, h2⟩ := mailOf_none hk hnone
    refine h.setClient _ _ hr.lose rfl rfl (fun _ _ => List.Sublist.refl _)
      (fun _ _ => List.Sublist.refl _) ?_
    show Q _ (mailOf pid s.requests) (mailOf pid s.replies) pid _
    rw [h1, h2]
    exact hr.start hfits
  | @advance pid thread c c' d hclient halive ha =>
    refine h.setClient pid c' hr.lose (send_server _ _ _) (send_clients _ _ _)
      (fun q hq => ?_) (fun q _ => ?_) ?_
    · rw [mailOf_send_ne hq]; exact List.Sublist.refl _
    · rw [send_replies]; exact List.Sublist.refl _
    · rw [mailOf_send_self, send_replies]
      exact hr.advance (h pid c hclient) halive ha
  | @receive pid thread i d c c' hclient halive hm ha =>
    obtain ⟨p, q, h1, h2⟩ := mailOf_eraseIdx_self hm
    refine h.setClient pid c' hr.lose rfl rfl (fun _ _ => List.Sublist.refl _)
      (fun q _ => mailOf_eraseIdx_sublist q _ _) ?_
    show Q _ (mailOf pid s.requests) (mailOf pid (s.replies.eraseIdx i)) pid c'
    have hQ := h pid c hclient
    rw [h1] at hQ
    rw [h2]
    exact hr.receive hQ halive ha
  | @timeout pid thread c c' hclient halive ha =>
    exact h.setClient pid c' hr.lose rfl rfl (fun _ _ => List.Sublist.refl _)
      (fun _ _ => List.Sublist.refl _) (hr.timeout (h pid c hclient) halive ha)
  | @serve i addr d r server hm hs =>
    intro pid c hc
    have hQ := h pid c hc
    show Q server.tickets (mailOf pid (s.requests.eraseIdx i)) (mailOf pid (s.replies ++ _)) pid c
    rw [mailOf_map_toList]
    by_cases haddr : addr = pid
    · subst haddr
      obtain ⟨p, q, h1, h2⟩ := mailOf_eraseIdx_self hm
      rw [h1] at hQ
      rw [h2, if_pos rfl]
      exact hr.served rfl hm hs hQ
    · rw [mailOf_eraseIdx_ne hm haddr, if_neg haddr]
      exact hr.servedOther rfl hm hs haddr hQ
  | dropRequest i =>
    intro pid c hc
    exact hr.lose (h pid c hc) (mailOf_eraseIdx_sublist _ _ _) (List.Sublist.refl _)
  | dropReply i =>
    intro pid c hc
    exact hr.lose (h pid c hc) (List.Sublist.refl _) (mailOf_eraseIdx_sublist _ _ _)
  | @die pid c hclient =>
    exact h.setClient pid _ hr.lose rfl rfl (fun _ _ => List.Sublist.refl _)
      (fun _ _ => List.Sublist.refl _) (hr.die (h pid c hclient))
  | reclaim =>
    intro pid c hc
    exact hr.reclaim rfl hc (h pid c hc)

/-! ## The texts in flight -/

/-- A step only ever adds clients. -/
theorem step_clients {s s' : Sys} {a : Action} (h : Licence.step s a = some s') {pid : Int}
    (hp : s.clients pid ≠ none) : s'.clients pid ≠ none := by
  have hupd : ∀ q c, (s.setClient q c).clients pid ≠ none := by
    intro q c
    by_cases hq : pid = q
    · subst hq; simp [Sys.setClient]
    · simp only [Sys.setClient, Function.update_of_ne hq]; exact hp
  cases step_change h with
  | start => exact hupd _ _
  | advance => rw [send_clients]; exact hupd _ _
  | receive => exact hupd _ _
  | timeout => exact hupd _ _
  | serve => exact hp
  | dropRequest => exact hp
  | dropReply => exact hp
  | die => exact hupd _ _
  | reclaim => exact hp

/-- New requests come from the advancing client, new replies answer a waiting request. -/
theorem step_mail {s s' : Sys} {a : Action} (h : Licence.step s a = some s') :
    (∀ m ∈ s'.requests, m ∈ s.requests ∨ s.clients m.1 ≠ none) ∧
    (∀ m ∈ s'.replies, m ∈ s.replies ∨ ∃ d, (m.1, d) ∈ s.requests) := by
  have herase : ∀ {l : List (Int × Text)} {i m}, m ∈ l.eraseIdx i → m ∈ l :=
    fun hm => (List.eraseIdx_sublist _ _).subset hm
  cases step_change h with
  | start => exact ⟨fun _ => Or.inl, fun _ => Or.inl⟩
  | @advance pid thread c c' d hclient =>
    refine ⟨fun m hm => ?_, fun m hm => Or.inl (by rw [send_replies] at hm; exact hm)⟩
    cases d with
    | none => exact Or.inl hm
    | some d =>
      rcases List.mem_append.mp hm with hm | hm
      · exact Or.inl hm
      · rw [List.mem_singleton] at hm
        subst hm
        exact Or.inr (by rw [hclient]; simp)
  | receive => exact ⟨fun _ => Or.inl, fun _ hm => Or.inl (herase hm)⟩
  | timeout => exact ⟨fun _ => Or.inl, fun _ => Or.inl⟩
  | @serve i addr d r server hm =>
    refine ⟨fun _ hx => Or.inl (herase hx), fun m hx => ?_⟩
    rcases List.mem_append.mp hx with hx | hx
    · exact Or.inl hx
    · obtain ⟨y, _, rfl⟩ := List.mem_map.mp hx
      exact Or.inr ⟨d, List.mem_of_getElem? hm⟩
  | dropRequest => exact ⟨fun _ hm => Or.inl (herase hm), fun _ => Or.inl⟩
  | dropReply => exact ⟨fun _ => Or.inl, fun _ hm => Or.inl (herase hm)⟩
  | die => exact ⟨fun _ => Or.inl, fun _ => Or.inl⟩
  | reclaim => exact ⟨fun _ => Or.inl, fun _ => Or.inl⟩

theorem Known.step {s s' : Sys} {a : Action} (hk : Known s) (h : Licence.step s a = some s') :
    Known s' := by
  obtain ⟨hreq, hrep⟩ := step_mail h
  refine ⟨fun m hm => step_clients h ?_, fun m hm => step_clients h ?_⟩
  · rcases hreq m hm with hm | hm
    · exact hk.requests m hm
    · exact hm
  · rcases hrep m hm with hm | ⟨d, hd⟩
    · exact hk.replies m hm
    · exact hk.requests (m.1, d) hd

theorem step_server {s s' : Sys} {a : Action} (h : Licence.step s a = some s')
    (hs : Sound s.server) : Sound s'.server := by
  cases step_change h with
  | advance => rw [send_server]; exact hs
  | serve _ hserve => exact hs.effect (serve_effect hserve)
  | reclaim => exact hs.reclaim _
  | _ => exact hs

/-- A datagram read as a C string that begins as a grant does is one as received. -/
theorem isTick_of_cString {d : Text} (h : IsTick (cString d)) : IsTick d := by
  have hprefix : cString d <+: d := List.takeWhile_prefix _
  obtain ⟨rest, hrest⟩ := hprefix
  have hlen : 4 ≤ (cString d).length := by
    have := congrArg List.length h
    simp only [List.length_take] at this
    simp at this
    omega
  unfold IsTick
  rw [← hrest, List.take_append_of_le_length hlen]
  exact h

/-- The parts of a state that every run keeps in order. -/
structure Wire (s : Sys) : Prop where
  sound : Sound s.server
  known : Known s
  formed : s.All fun _ => Formed

theorem formed_rules {s : Sys} {a : Action} (hs : Sound s.server) :
    ClientRules (fun _ => Formed) s a where
  start := Formed.start
  advance := fun h _ ha => h.advance ha
  receive := fun {out p q d pid c c' thread} h _ ha => by
    have hsub : (p ++ q).Sublist (p ++ d :: q) :=
      List.Sublist.append_left (List.sublist_cons_self _ _) p
    refine (h.mono (List.Sublist.refl _) hsub).resume (fun hk => ?_) ha
    obtain ⟨t, ht, rfl⟩ := h.ticks d (by simp) (isTick_of_cString hk)
    exact ⟨t, ht, cString_tick pid t⟩
  timeout := fun h _ ha => h.resume (fun hk => by cases hk) ha
  die := fun h => ⟨h.pid_eq, h.fits, h.ticket, h.requests, h.ticks⟩
  lose := fun h ho hi => h.mono ho hi
  served := fun {i d r server p q inn pid c} _ _ hserve h => by
    have hsub : (p ++ q).Sublist (p ++ d :: q) :=
      List.Sublist.append_left (List.sublist_cons_self _ _) p
    have h' := h.mono hsub (List.Sublist.refl _)
    obtain ⟨response, rfl, hcases⟩ :=
      serve_clientRequest hs h.fits (h.requests d (by simp)) hserve
    refine h'.reply fun hk => ?_
    rcases hcases with ⟨_, hno, _⟩ | ⟨t, _, _, ht, _, he, _⟩ | ⟨t, _, _, _, hno, _⟩
    · exact absurd hk hno
    · exact ⟨t, ht, he⟩
    · exact absurd hk hno
  servedOther := fun _ _ _ _ h => h
  reclaim := fun _ _ h => h

theorem wire_start : Wire Sys.start where
  sound := Sound.start
  known := ⟨fun _ h => absurd h List.not_mem_nil, fun _ h => absurd h List.not_mem_nil⟩
  formed := fun _ _ h => by cases h

theorem Wire.step {s s' : Sys} {a : Action} (h : Wire s) (hstep : Licence.step s a = some s') :
    Wire s' where
  sound := step_server hstep h.sound
  known := h.known.step hstep
  formed := (formed_rules h.sound).step h.known h.formed hstep

/-- **Every reachable state has its wire in order.** -/
theorem wire {s : Sys} (h : Reachable system s) : Wire s :=
  h.induct wire_start fun _ _ _ hw hstep => hw.step hstep

end CampusNet.Licence
