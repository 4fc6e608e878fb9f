import CampusNet.Lab5.Network

/-!
# How many licences a process has

* `OneLicence` — no pid occurs under two ticket ids.
* `HeloFresh` — the side condition: no HELO of a process that already has an entry is handled
  while a licence is free.
* `oneLicence_iff` — a run keeps to one licence a process exactly when its steps all meet it.
* `lostGrant` — a run that does not: the reply to the first HELO is lost, and the retry of the
  loop in `main` is granted a second id.
-/

namespace CampusNet.Licence

open Runs Mail

/-- No pid occurs under two different ticket ids. -/
def OneLicence (s : Sys) : Prop :=
  ∀ t t' pid, owner s.server.tickets t = some pid → owner s.server.tickets t' = some pid → t = t'

/-- A handled HELO is refused, or comes from a process without an entry. -/
def HeloFresh (s : Sys) : Action → Prop
  | .serve i => ∀ addr p, FitsInt p → s.requests[i]? = some (addr, heloText p) →
      s.server.ticketCount < MAX_USERS → ∀ t, owner s.server.tickets t ≠ some p
  | _ => True

theorem heloText_injective {p q : Int} (h : heloText p = heloText q) : p = q :=
  decimal_injective (List.append_cancel_left h)

/-- Fewer entries: still one licence a process. -/
theorem OneLicence.mono {s s' : Sys} (h : OneLicence s)
    (hsub : ∀ t pid, owner s'.server.tickets t = some pid → owner s.server.tickets t = some pid) :
    OneLicence s' :=
  fun t t' pid ht ht' => h t t' pid (hsub t pid ht) (hsub t' pid ht')

/-- A new entry for `pid`: still one licence a process exactly when `pid` had none. -/
theorem oneLicence_insert {s s' : Sys} {t : Int} (pid : Int) (h : OneLicence s)
    (hfree : t ∉ s.server.tickets) (hs' : s'.server.tickets = s.server.tickets.insert t pid) :
    OneLicence s' ↔ ∀ j, owner s.server.tickets j ≠ some pid := by
  have hne : ∀ j q, owner s.server.tickets j = some q → j ≠ t := by
    rintro j q hj rfl
    exact hfree (mem_of_owner hj)
  constructor
  · intro hone j hj
    refine hne j pid hj (hone j t pid ?_ ?_)
    · rw [hs', owner_insert, if_neg (hne j pid hj)]; exact hj
    · rw [hs', owner_insert, if_pos rfl]
  · intro hnone j j' q hj hj'
    rw [hs', owner_insert] at hj hj'
    split at hj <;> split at hj'
    · rename_i h1 h2; rw [h1, h2]
    · cases hj; exact absurd hj' (hnone j')
    · cases hj'; exact absurd hj (hnone j)
    · exact h j j' q hj hj'

/-- Handling one request. -/
theorem serve_oneLicence {s s' : Sys} {i : Nat} {addr : Int} {d : Text} {r : Option Text}
    (hw : Wire s) (h : OneLicence s) (hm : s.requests[i]? = some (addr, d))
    (hserve : serve s.server d = some (r, s'.server)) :
    OneLicence s' ↔ HeloFresh s (.serve i) := by
  have hmem := List.mem_of_getElem? hm
  obtain ⟨c, hc⟩ := Option.ne_none_iff_exists'.mp (hw.known.requests _ hmem)
  have hf := hw.formed addr c hc
  -- the handled request is a HELO only as the HELO of its sender
  have hhelo : ∀ {a p}, s.requests[i]? = some (a, heloText p) → d = heloText p := by
    intro a p hreq
    rw [hm] at hreq; cases hreq; rfl
  have hown : ∀ {p}, d = heloText p → d = heloText addr → p = addr :=
    fun h1 h2 => heloText_injective (h1.symm.trans h2)
  obtain ⟨_, _, hcases⟩ :=
    serve_clientRequest hw.sound hf.fits (hf.requests d (mem_mailOf.mpr hmem)) hserve
  rcases hcases with ⟨he, _, hfull⟩ | ⟨t, hd, hroom, _, hfree, _, he⟩ | ⟨t, hd, _, _, _, he⟩
  · refine iff_of_true (h.mono fun t pid ht => by rw [he] at ht; exact ht) ?_
    intro a p hp hreq hroom
    have hd := hhelo hreq
    rcases hf.requests d (mem_mailOf.mpr hmem) with h2 | ⟨j, _, h2 | h2⟩
    · have := hfull h2; omega
    · exact absurd (h2.symm.trans hd) (gbyeText_ne_heloText _ _)
    · exact absurd (h2.symm.trans hd) (validText_ne_heloText _ _)
  · rw [oneLicence_insert addr h hfree (by rw [he])]
    constructor
    · intro hnone a p hp hreq _ j
      obtain rfl := hown (hhelo hreq) hd
      exact hnone j
    · intro hok
      exact hok addr addr hf.fits (by rw [hm, hd]) hroom
  · refine iff_of_true (h.mono fun j pid hj => ?_) ?_
    · rw [he, Server.remove, owner_erase] at hj
      split at hj
      · cases hj
      · exact hj
    · intro a p _ hreq
      exact absurd (hd.symm.trans (hhelo hreq)) (gbyeText_ne_heloText _ _)

theorem step_oneLicence {s s' : Sys} {a : Action} (hw : Wire s) (h : OneLicence s)
    (hstep : step s a = some s') : OneLicence s' ↔ HeloFresh s a := by
  cases step_change hstep with
  | serve hm hserve => exact serve_oneLicence hw h hm hserve
  | advance =>
    exact iff_of_true (h.mono fun t pid ht => by rw [send_server] at ht; exact ht) trivial
  | reclaim =>
    refine iff_of_true (h.mono fun t pid ht => ?_) trivial
    rw [reclaimTickets_owner] at ht
    exact (Option.filter_eq_some_iff.mp ht).1
  | _ => exact iff_of_true h trivial

/-- **One licence a process, exactly**: throughout a run no process has two entries if and only
if no HELO of a process with an entry is handled while a licence is free. -/
theorem oneLicence_iff {h : List (Sys × Action)} {s : Sys} (hr : Run system h s) :
    Throughout OneLicence h s ↔ ∀ p ∈ h, HeloFresh p.1 p.2 := by
  refine hr.always_iff ?_ fun s a s' hs hone hstep => step_oneLicence (wire hs) hone hstep
  intro t t' pid ht
  cases ht

/-- A HELO of a process without an entry meets the condition. -/
theorem heloFresh_of_new {s : Sys} {i : Nat} {addr p : Int}
    (h : s.requests[i]? = some (addr, heloText p)) (hnew : ∀ t, owner s.server.tickets t ≠ some p) :
    HeloFresh s (.serve i) := by
  intro a q _ hreq _
  obtain ⟨-, htext⟩ := Prod.mk.inj (Option.some.inj (h.symm.trans hreq))
  rw [← heloText_injective htext]
  exact hnew

/-- Processes 7 and 8 ask and are granted 7.1 and 8.2. -/
theorem oneLicence_iff_two : ∃ h s, Run system h s ∧
    h.map Prod.snd = [.serve 0, .serve 0, .advance 8 .main, .advance 7 .main, .start 8, .start 7] ∧
    owner s.server.tickets 1 = some 7 ∧ owner s.server.tickets 2 = some 8 ∧
    Throughout OneLicence h s := by
  have h1 : Run system [] system.init := .nil
  have h2 := h1.snoc (a := .start 7) rfl
  have h3 := h2.snoc (a := .start 8) rfl
  have h4 := h3.snoc (a := .advance 7 .main) rfl
  have h5 := h4.snoc (a := .advance 8 .main) rfl
  have h6 := h5.snoc (a := .serve 0) rfl
  have h7 := h6.snoc (a := .serve 0) rfl
  refine ⟨_, _, h7, rfl, rfl, rfl, (oneLicence_iff h7).mpr ?_⟩
  simp only [List.forall_mem_cons]
  refine ⟨heloFresh_of_new (p := 8) rfl fun t => ?_, heloFresh_of_new (p := 7) rfl nofun, trivial,
    trivial, trivial, trivial, nofun⟩
  show owner (AList.insert 1 7 ∅) t ≠ some 8
  rw [owner_insert]
  split
  · decide
  · exact nofun

/-- Process 7 asks and is granted 7.1; the reply is lost, the process times out, asks again and
is granted 7.2. -/
def lostGrant : List Action :=
  [.start 7, .advance 7 .main, .serve 0, .dropReply 0, .timeout 7 .main, .advance 7 .main,
    .serve 0, .receive 7 .main 0]

theorem lostGrant_breaks_oneLicence : ∃ s, Reachable system s ∧ ¬ OneLicence s := by
  obtain ⟨s, hs, hp⟩ := exists_reachable_of_exec (M := system) lostGrant
    (p := fun s => decide (owner s.server.tickets 1 = some 7 ∧
      owner s.server.tickets 2 = some 7)) (by decide)
  obtain ⟨h1, h2⟩ := of_decide_eq_true hp
  exact ⟨s, hs, fun hone => absurd (hone 1 2 7 h1 h2) (by decide)⟩

end CampusNet.Licence
