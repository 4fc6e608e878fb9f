import CampusNet.Lab5.SendRequest

/-!
# Replies and requests of one client thread

`SendRequest` returns whatever datagram its `recvfrom` takes.  A reply that arrives after its call
has timed out waits in the socket and is returned by the next call.

* `PairedCall` — a call that took the answer to its own request, and what it then reports.
* `socket_own`, `socket_stale` — what the socket holds before and after the first late reply.
* `paired_iff` — every receipt is paired exactly when none follows a late reply.
* `lateReply_breaks_pairing` — a late answer to VALID makes `GetTicket` report a denial.
-/

namespace CampusNet.Licence

open Runs

/-! ## What the server answers to a call -/

theorem serve_helo_answer {s s' : Server} {pid : Int} {r : Text}
    (h : serve s (heloText pid) = some (some r, s')) :
    r = "FAIL no tickets".toList ∨ ∃ q t, r = tickText q t := by
  unfold serve at h
  split at h
  · cases h
  · obtain ⟨⟨answer, t⟩, hp, he⟩ := Option.map_eq_some_iff.mp h
    cases he
    have hhead : (heloText pid).take 4 = "HELO".toList := rfl
    rw [cString_helo, handle, if_pos hhead] at hp
    obtain ⟨rest, -, hp⟩ := Option.bind_eq_some_iff.mp hp
    rcases helo_cases s (atoi rest) with ⟨-, hhelo⟩ | ⟨-, t, -, -, -, hhelo⟩
    · rw [hhelo] at hp
      cases hp
      exact Or.inl rfl
    · rw [hhelo] at hp
      cases hp
      exact Or.inr ⟨_, _, rfl⟩

theorem serve_valid_answer {s s' : Server} {ticket r : Text}
    (h : serve s (validText ticket) = some (some r, s')) :
    r = "FAIL invalid".toList ∨ r = "GOOD valid".toList := by
  unfold serve at h
  split at h
  · cases h
  · obtain ⟨⟨answer, t⟩, hp, he⟩ := Option.map_eq_some_iff.mp h
    cases he
    have hfour : (cString (validText ticket)).take 4 = "VALI".toList := rfl
    have hhead : (cString (validText ticket)).take 5 = "VALID".toList := rfl
    rw [handle, hfour, if_neg (by decide), if_neg (by decide), if_pos hhead] at hp
    obtain ⟨rest, -, hp⟩ := Option.bind_eq_some_iff.mp hp
    exact (valid_cases hp).2

theorem outcome_denied {c : Call} {response : Text} (h : outcome c response = .denied) :
    c = .getTicket ∧ response ≠ [] ∧ response.take 4 ≠ "TICK".toList := by
  cases c with
  | getTicket =>
    simp only [outcome] at h
    split at h
    · cases h
    split at h
    · cases h
    · rename_i hempty htick
      exact ⟨rfl, hempty, htick⟩
  | releaseTicket => cases h
  | validateTicket =>
    simp only [outcome] at h
    split at h
    · cases h
    split at h
    · cases h
    · cases h

theorem outcome_invalid {c : Call} {response : Text} (h : outcome c response = .invalid) :
    c = .validateTicket ∧ response.take 4 ≠ "GOOD".toList := by
  cases c with
  | getTicket =>
    simp only [outcome] at h
    split at h
    · cases h
    split at h
    · cases h
    · cases h
  | releaseTicket => cases h
  | validateTicket =>
    simp only [outcome] at h
    split at h
    · cases h
    split at h
    · cases h
    · rename_i hgood
      exact ⟨rfl, hgood⟩

theorem received_tickText (pid t : Int) :
    received (tickText pid t) = [] ∨ received (tickText pid t) = tickText pid t := by
  unfold received
  split
  · exact Or.inl rfl
  · exact Or.inr (cString_tick pid t)

/-! ## Pairing -/

/-- A call that took `m` took the answer to its own request, and reports a denial or an invalid
ticket only on the server's word. -/
structure PairedCall (e : Returned) (m : Reply) : Prop where
  own : m.request = e.request
  answer : IsAnswer m
  denied : e.outcome = .denied → m.text = "FAIL no tickets".toList
  invalid : e.outcome = .invalid → m.text = "FAIL invalid".toList

def Paired (s : Session) : Prop :=
  ∀ e ∈ s.returned, ∀ m, e.reply = some m → PairedCall e m

theorem Paired.snoc {s s' : Session} {e : Returned} (h : Paired s)
    (hreturned : s'.returned = s.returned ++ [e]) (he : ∀ m, e.reply = some m → PairedCall e m) :
    Paired s' := by
  unfold Paired
  rw [hreturned, List.forall_mem_append, List.forall_mem_singleton]
  exact ⟨h, he⟩

/-- With its own answer, a call reports what the server said. -/
theorem pairedCall_of_own {pid : Int} {s : Session} (hs : Answers pid s) {e : Returned}
    (he : e ∈ s.returned) {m : Reply} (hm : e.reply = some m) (hown : m.request = e.request) :
    PairedCall e m := by
  obtain ⟨hformed, hreply⟩ := hs.returned e he
  obtain ⟨hanswer, hout⟩ := hreply m hm
  obtain ⟨server, server', -, hserve⟩ := id hanswer
  refine ⟨hown, hanswer, fun hdenied => ?_, fun hinvalid => ?_⟩
  · rw [hout] at hdenied
    obtain ⟨hcall, hempty, htick⟩ := outcome_denied hdenied
    rw [hown, hformed.1 hcall] at hserve
    rcases serve_helo_answer hserve with hfail | ⟨q, t, hgrant⟩
    · exact hfail
    · rw [hgrant] at hempty htick
      rcases received_tickText q t with hnone | hsame
      · exact absurd hnone hempty
      · rw [hsame] at htick
        exact absurd rfl htick
  · rw [hout] at hinvalid
    obtain ⟨hcall, hgood⟩ := outcome_invalid hinvalid
    obtain ⟨ticket, htext⟩ := hformed.2 hcall
    rw [hown, htext] at hserve
    rcases serve_valid_answer hserve with hfail | hvalid
    · exact hfail
    · rw [hvalid] at hgood
      exact absurd rfl hgood

/-- The reply that reaches the socket is not for the call that waits: its own call has ended. -/
def Late : Session × SessionAction → Prop
  | (s, .deliver) => ∃ m, s.replies.head? = some m ∧ s.waiting ≠ some m.request
  | _ => False

/-- Nothing is received after a late reply. -/
def NoReceiptAfterLate (h : List (Session × SessionAction)) : Prop :=
  h.Pairwise fun later earlier => later.2 = .receive → ¬Late earlier

/-- The oldest reply in the socket has the smallest number. -/
theorem Numbered.oldest_lt {s : Session} (hs : Numbered s) {m m' : Reply} {rest : List Reply}
    (hsocket : s.socket = m :: rest) (hm' : m' ∈ rest ∨ m' ∈ s.replies) :
    m.request.number < m'.request.number := by
  have hincreasing := hs.increasing
  rw [Session.inFlight, hsocket, List.map_cons, List.cons_append, List.pairwise_cons] at hincreasing
  apply hincreasing.1
  rcases hm' with hrest | hreplies
  · exact List.mem_append_left _ (List.mem_map_of_mem hrest)
  · exact List.mem_append_right _ (List.mem_append_left _ (List.mem_map_of_mem hreplies))

/-- Without late replies the socket holds replies to the waiting call only. -/
theorem socket_own {pid : Int} {h : List (Session × SessionAction)} {s : Session}
    (hr : Run (sendRequest pid) h s) (hno : ∀ p ∈ h, ¬Late p) :
    ∀ m ∈ s.socket, s.waiting = some m.request := by
  induction hr with
  | nil => exact nofun
  | @snoc h s s' a hr hstep ih =>
    rw [List.forall_mem_cons] at hno
    have hown := ih hno.2
    cases session_change hstep with
    | skip | serve | loseRequest | loseReply | other => exact hown
    | call hidle htext =>
      intro m hm
      rw [hidle] at hown
      exact absurd (hown m hm) nofun
    | @receive r m rest ticket hasTicket hwaiting hsocket =>
      -- a second reply in the socket would have the number of the first
      intro m' hm'
      have hlt := (numbered_answers hr.reachable).1.oldest_lt hsocket (Or.inl hm')
      rw [hsocket, List.forall_mem_cons] at hown
      have hsame := hown.1.symm.trans (hown.2 m' hm')
      rw [Option.some.inj hsame] at hlt
      exact absurd hlt (Nat.lt_irrefl _)
    | timeout ticket hasTicket hwaiting hsocket =>
      intro m hm
      rw [hsocket] at hm
      cases hm
    | @deliver m rest hreplies =>
      have hontime : s.waiting = some m.request := by
        by_contra hlate
        exact hno.1 ⟨m, by rw [hreplies]; rfl, hlate⟩
      show ∀ m' ∈ s.socket ++ [m], s.waiting = some m'.request
      rw [List.forall_mem_append, List.forall_mem_singleton]
      exact ⟨hown, hontime⟩

/-- The oldest reply in the socket is to a call that has ended. -/
def Stale (s : Session) : Prop :=
  ∃ m rest, s.socket = m :: rest ∧ (m.request.number < s.calls ∨ s.waiting = none)

/-- A late reply makes the oldest reply in the socket stale. -/
theorem late_stale {pid : Int} {s s' : Session} {a : SessionAction} (hs : Numbered s)
    (hlate : Late (s, a)) (hstep : SessionChange pid s a s') : Stale s' := by
  cases hstep with
  | @deliver m rest hreplies =>
    obtain ⟨m', hhead, hother⟩ := hlate
    rw [hreplies] at hhead
    cases hhead
    have hmem : m.request ∈ s.inFlight := by simp [Session.inFlight, hreplies]
    have hle := hs.started m.request hmem
    cases hsocket : s.socket with
    | nil =>
      refine ⟨m, [], rfl, ?_⟩
      cases hwaiting : s.waiting with
      | none => exact Or.inr rfl
      | some r =>
        refine Or.inl (Nat.lt_of_le_of_ne hle fun hnumber => hother ?_)
        rw [hwaiting, (hs.current r hwaiting).2 m.request hmem hnumber]
    | cons m0 older =>
      have hreply : m ∈ s.replies := by simp [hreplies]
      have hlt := hs.oldest_lt hsocket (Or.inr hreply)
      exact ⟨m0, older ++ [m], rfl, Or.inl (Nat.lt_of_lt_of_le hlt hle)⟩
  | _ => exact hlate.elim

/-- It stays so until something is received. -/
theorem Stale.change {pid : Int} {s s' : Session} {a : SessionAction} (hs : Numbered s)
    (hstale : Stale s) (ha : a ≠ .receive) (hstep : SessionChange pid s a s') : Stale s' := by
  obtain ⟨m, rest, hsocket, hended⟩ := hstale
  cases hstep with
  | skip | serve | loseRequest | loseReply | other => exact ⟨m, rest, hsocket, hended⟩
  | call hidle htext =>
    have hle := hs.started m.request (by simp [Session.inFlight, hsocket])
    exact ⟨m, rest, hsocket, Or.inl (Nat.lt_succ_of_le hle)⟩
  | receive => exact absurd rfl ha
  | timeout ticket hasTicket hwaiting hempty =>
    rw [hsocket] at hempty
    cases hempty
  | @deliver m' older hreplies =>
    exact ⟨m, rest ++ [m'], by rw [hsocket]; rfl, hended⟩

theorem socket_stale {pid : Int} {h : List (Session × SessionAction)} {s : Session}
    (hr : Run (sendRequest pid) h s) (hC : NoReceiptAfterLate h) (hlate : ∃ p ∈ h, Late p) :
    Stale s := by
  induction hr with
  | nil => obtain ⟨p, hp, -⟩ := hlate; cases hp
  | @snoc h s s' a hr hstep ih =>
    have hnumbered := (numbered_answers hr.reachable).1
    obtain ⟨hfirst, hrest⟩ := List.pairwise_cons.mp hC
    obtain ⟨p, hp, hplate⟩ := hlate
    rcases List.mem_cons.mp hp with rfl | hold
    · exact late_stale hnumbered hplate (session_change hstep)
    · refine (ih hrest ⟨p, hold, hplate⟩).change hnumbered ?_ (session_change hstep)
      rintro rfl
      exact hfirst p hold rfl hplate

/-! ## Exactly when -/

theorem paired_of_noReceiptAfterLate {pid : Int} {h : List (Session × SessionAction)} {s : Session}
    (hr : Run (sendRequest pid) h s) (hC : NoReceiptAfterLate h) : Paired s := by
  induction hr with
  | nil => exact nofun
  | @snoc h s s' a hr hstep ih =>
    obtain ⟨hfirst, hrest⟩ := List.pairwise_cons.mp hC
    have hpaired := ih hrest
    have hanswers := (numbered_answers (hr.snoc hstep).reachable).2
    cases session_change hstep with
    | skip | call | serve | loseRequest | loseReply | deliver | other => exact hpaired
    | @receive r m rest ticket hasTicket hwaiting hsocket =>
      have hown := socket_own hr (fun p hp => hfirst p hp rfl) m (by rw [hsocket]; simp)
      rw [hwaiting] at hown
      refine hpaired.snoc rfl fun m' hm' => ?_
      cases hm'
      exact pairedCall_of_own hanswers (by simp) rfl (Option.some.inj hown).symm
    | timeout ticket hasTicket hwaiting hsocket =>
      refine hpaired.snoc rfl fun m' hm' => ?_
      cases hm'

/-- A receipt from a socket whose oldest reply is stale is not paired. -/
theorem Stale.receive {pid : Int} {s s' : Session} (hs : Numbered s) (hstale : Stale s)
    (hstep : SessionChange pid s .receive s') : ¬Paired s' := by
  obtain ⟨m, rest, hsocket, hended⟩ := hstale
  cases hstep with
  | @receive r m' rest' ticket hasTicket hwaiting hsocket' =>
    intro hpaired
    rw [hsocket] at hsocket'
    cases hsocket'
    have hown := (hpaired ⟨r, some m, outcome r.call (received m.text)⟩ (by simp) m rfl).own
    have hnumber := (hs.current r hwaiting).1
    rcases hended with hlt | hidle
    · have hsame : m.request.number = r.number := congrArg Request.number hown
      omega
    · rw [hwaiting] at hidle
      cases hidle

/-- **Pairing of replies and requests**: in a run of one client thread every received reply is the
server's answer to the request of the call that received it, every denial and every invalid ticket
reported is the server's word on that request, exactly when nothing is received after a reply has
missed its call. -/
theorem paired_iff {pid : Int} {h : List (Session × SessionAction)} {s : Session}
    (hr : Run (sendRequest pid) h s) : Throughout Paired h s ↔ NoReceiptAfterLate h := by
  refine hr.throughout_iff (C := fun h _ => NoReceiptAfterLate h) ?_ ?_
  · exact iff_of_true List.Pairwise.nil nofun
  intro h s a s' hr hstep
  constructor
  · intro hC
    exact ⟨(List.pairwise_cons.mp hC).2, paired_of_noReceiptAfterLate (hr.snoc hstep) hC⟩
  · rintro ⟨hC, hpaired⟩
    refine List.pairwise_cons.mpr ⟨?_, hC⟩
    rintro p hp rfl hlate
    have hstale := socket_stale hr hC ⟨p, hp, hlate⟩
    have hchange : SessionChange pid s .receive s' := session_change hstep
    exact hstale.receive (numbered_answers hr.reachable).1 hchange hpaired

/-- A ticket is granted, and the reply arrives in time. -/
theorem paired_iff_granted : ∃ h s, Run (sendRequest 7) h s ∧ Throughout Paired h s ∧
    s.returned.map (·.outcome) = [.acquired] := by
  have h1 : Run (sendRequest 7) [] Session.start := .nil
  have h2 := h1.snoc (a := .call .getTicket) rfl
  have h3 := h2.snoc (a := .serve) rfl
  have h4 := h3.snoc (a := .deliver) rfl
  have h5 := h4.snoc (a := .receive) rfl
  refine ⟨_, _, h5, (paired_iff h5).mpr ?_, rfl⟩
  refine List.pairwise_cons.mpr ⟨?_, by simp⟩
  -- the delivery is to the call that waits
  simp only [List.forall_mem_cons]
  refine ⟨?_, fun _ => id, fun _ => id, nofun⟩
  rintro - ⟨m, hm, hother⟩
  cases hm
  exact hother rfl

/-- A ticket is granted; VALID is answered too late; the next `GetTicket` is granted a second
ticket, takes the late `GOOD valid`, and reports a denial. -/
def lateReply : List SessionAction :=
  [.call .getTicket, .serve, .deliver, .receive,
    .call .validateTicket, .serve, .timeout, .deliver,
    .call .getTicket, .serve, .receive]

theorem lateReply_breaks_pairing : ∃ s, Reachable (sendRequest 7) s ∧ ¬Paired s ∧
    owner s.server.tickets 2 = some 7 ∧
    (⟨⟨3, .getTicket, heloText 7⟩,
      some ⟨⟨2, .validateTicket, validText (ticketText 7 1)⟩, "GOOD valid".toList⟩,
      .denied⟩ : Returned) ∈ s.returned := by
  obtain ⟨s, hs, hp⟩ := exists_reachable_of_exec (M := sendRequest 7) lateReply
    (p := fun s => decide (owner s.server.tickets 2 = some 7 ∧
      (⟨⟨3, .getTicket, heloText 7⟩,
        some ⟨⟨2, .validateTicket, validText (ticketText 7 1)⟩, "GOOD valid".toList⟩,
        .denied⟩ : Returned) ∈ s.returned)) (by decide)
  obtain ⟨hgranted, hreturned⟩ := of_decide_eq_true hp
  refine ⟨s, hs, fun hpaired => ?_, hgranted, hreturned⟩
  have hdenied := (hpaired _ hreturned _ rfl).denied rfl
  exact absurd hdenied (by decide)

end CampusNet.Licence
