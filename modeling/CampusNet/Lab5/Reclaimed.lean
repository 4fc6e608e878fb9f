import CampusNet.Lab5.Network
import CampusNet.Lib.Fairness

/-!
# The licences of dead processes come back

A process can die with a ticket in the table, and with requests on the way that the server will
still grant.  Infinite executions of clients, server and network in which the reclaim thread runs
again and again.

* `Dead` — the process has been started and has ended.
* `dead_step` — a step takes nothing back to life, adds no request of a dead process, and adds an
  entry of one only by handling one of its requests.
* `deadTickets_reclaimed` — after some moment the table never again holds a ticket of the process.
-/

namespace CampusNet.Licence

open Runs Mail Fairness

def Dead (pid : Int) (s : Sys) : Prop := ∃ c, s.clients pid = some c ∧ c.alive = false

/-- The requests of a process that are on the way. -/
def pending (pid : Int) (s : Sys) : Nat := (mailOf pid s.requests).length

/-- No entry of the process is new. -/
def NoNewEntry (pid : Int) (s s' : Sys) : Prop :=
  ∀ t, owner s'.server.tickets t = some pid → owner s.server.tickets t = some pid

theorem noNewEntry_of_eq {pid : Int} {s s' : Sys} (h : s'.server = s.server) :
    NoNewEntry pid s s' := by
  intro t ht
  rw [h] at ht
  exact ht

/-- Replacing a live client, or starting one, leaves a dead one dead. -/
theorem Dead.setClient {pid q : Int} {s : Sys} {c' : Client} (h : Dead pid s)
    (hq : ∀ c, s.clients q = some c → c.alive = true) : Dead pid (s.setClient q c') := by
  obtain ⟨c, hc, hdead⟩ := h
  have hne : pid ≠ q := by
    rintro rfl
    rw [hq c hc] at hdead
    cases hdead
  exact ⟨c, (Function.update_of_ne hne _ _).trans hc, hdead⟩

/-- Handling a request of another process adds no entry. -/
theorem serve_other {pid addr : Int} {s s' : Sys} {i : Nat} {d : Text} {r : Option Text}
    (hw : Wire s) (hm : s.requests[i]? = some (addr, d)) (hne : addr ≠ pid)
    (hserve : serve s.server d = some (r, s'.server)) : NoNewEntry pid s s' := by
  have hmem := List.mem_of_getElem? hm
  obtain ⟨c, hc⟩ := Option.ne_none_iff_exists'.mp (hw.known.requests _ hmem)
  have hf := hw.formed addr c hc
  obtain ⟨_, _, hcases⟩ :=
    serve_clientRequest hw.sound hf.fits (hf.requests d (mem_mailOf.mpr hmem)) hserve
  rcases hcases with ⟨he, -, -⟩ | ⟨t, -, -, -, -, -, he⟩ | ⟨t, -, -, -, -, he⟩
  · exact noNewEntry_of_eq he
  · intro j hj
    rw [he, owner_insert] at hj
    split at hj
    · cases hj
      exact absurd rfl hne
    · exact hj
  · intro j hj
    rw [he, Server.remove, owner_erase] at hj
    split at hj
    · cases hj
    · exact hj

/-- **A dead process and one step.** -/
theorem dead_step {pid : Int} {s s' : Sys} {a : Action} (hs : Reachable system s)
    (h : Dead pid s) (hstep : step s a = some s') :
    Dead pid s' ∧ pending pid s' ≤ pending pid s ∧
      (pending pid s' = pending pid s → NoNewEntry pid s s') := by
  have hsame : ∀ {t : Sys}, t.requests = s.requests → t.server = s.server →
      pending pid t ≤ pending pid s ∧ (pending pid t = pending pid s → NoNewEntry pid s t) := by
    intro t hreq hserver
    refine ⟨?_, fun _ => noNewEntry_of_eq hserver⟩
    rw [pending, hreq, pending]
  cases step_change hstep with
  | start hnone _ =>
    refine ⟨h.setClient fun c hc => ?_, hsame rfl rfl⟩
    rw [hnone] at hc
    cases hc
  | @advance q thread c c' d hclient halive _ =>
    have hlive : ∀ b, s.clients q = some b → b.alive = true := by
      intro b hb
      rw [hclient] at hb
      cases hb
      exact halive
    have hne : pid ≠ q := by
      rintro rfl
      obtain ⟨b, hb, hdead⟩ := h
      rw [hlive b hb] at hdead
      cases hdead
    obtain ⟨b, hb, hdead⟩ : Dead pid (s.setClient q c') := h.setClient hlive
    refine ⟨⟨b, by rw [send_clients]; exact hb, hdead⟩, ?_, fun _ => noNewEntry_of_eq ?_⟩
    · rw [pending, mailOf_send_ne hne]
      exact le_refl _
    · rw [send_server]
      rfl
  | receive hclient halive _ _ =>
    refine ⟨h.setClient fun b hb => ?_, hsame rfl rfl⟩
    rw [hclient] at hb
    cases hb
    exact halive
  | timeout hclient halive _ =>
    refine ⟨h.setClient fun b hb => ?_, hsame rfl rfl⟩
    rw [hclient] at hb
    cases hb
    exact halive
  | @serve i addr d r server hm hserve =>
    refine ⟨h, ?_⟩
    by_cases haddr : addr = pid
    · -- one request less
      subst haddr
      obtain ⟨p, q, hmail, hmail'⟩ := mailOf_eraseIdx_self hm
      have hless : (mailOf addr (s.requests.eraseIdx i)).length + 1 =
          (mailOf addr s.requests).length := by
        rw [hmail, hmail', List.length_append, List.length_append, List.length_cons]
        omega
      simp only [pending]
      exact ⟨by omega, fun heq => by omega⟩
    · refine ⟨?_, fun _ => serve_other (wire hs) hm haddr hserve⟩
      exact (mailOf_eraseIdx_sublist pid s.requests i).length_le
  | dropRequest i =>
    exact ⟨h, (mailOf_eraseIdx_sublist pid s.requests i).length_le, fun _ => noNewEntry_of_eq rfl⟩
  | dropReply i => exact ⟨h, hsame rfl rfl⟩
  | @die q c hclient =>
    refine ⟨?_, hsame rfl rfl⟩
    obtain ⟨b, hb, hdead⟩ := h
    by_cases hq : pid = q
    · subst hq
      exact ⟨_, Function.update_self _ _ _, rfl⟩
    · exact ⟨b, (Function.update_of_ne hq _ _).trans hb, hdead⟩
  | reclaim =>
    refine ⟨h, le_refl _, fun _ t ht => ?_⟩
    rw [reclaimTickets_owner] at ht
    exact (Option.filter_eq_some_iff.mp ht).1

/-- A reclaim round leaves no entry of a dead process. -/
theorem reclaim_dead {pid : Int} {s s' : Sys} (h : Dead pid s) (hstep : step s .reclaim = some s')
    (t : Int) : owner s'.server.tickets t ≠ some pid := by
  cases hstep
  obtain ⟨c, hc, hdead⟩ := h
  intro ht
  rw [reclaimTickets_owner] at ht
  have halive := (Option.filter_eq_some_iff.mp ht).2
  simp only [Sys.isProcessAlive, Option.isSome_iff_exists] at halive
  obtain ⟨b, hb⟩ := halive
  obtain ⟨hb, hlive⟩ := live_eq_some.mp hb
  rw [hc] at hb
  cases hb
  rw [hdead] at hlive
  cases hlive

/-- **The licences of a dead process come back**: as long as reclaim rounds recur, whatever the
other processes and the network do, from some moment on no ticket in the table is the dead
process's, and that stays so. -/
theorem deadTickets_reclaimed {sched : Nat → Action} {pid : Int} {n : Nat}
    (hfair : Recurs system sched fun _ a => a = .reclaim)
    (hdead : Dead pid (trace system sched n)) :
    ∃ m, n ≤ m ∧ ∀ k, m ≤ k → ∀ t,
      owner (trace system sched k).server.tickets t ≠ some pid := by
  have hforever : ∀ k, n ≤ k → Dead pid (trace system sched k) := eventually_forever
    (fun s a s' hs h hstep => (dead_step hs h hstep).1) hdead
  -- the last request of the process that the server handles or the network drops
  obtain ⟨m, hm, hconst⟩ := eventually_constant (I := Dead pid) (pending pid)
    (fun s a s' hs h hstep => ⟨(dead_step hs h hstep).1, (dead_step hs h hstep).2.1⟩) hdead
  obtain ⟨r, hr, hreclaim⟩ := hfair m
  refine ⟨r + 1, by omega, fun k hk => ?_⟩
  induction k, hk using Nat.le_induction with
  | base =>
    have hstep : (system.step (trace system sched r) (sched r)).isSome = true := by
      rw [hreclaim]
      rfl
    obtain ⟨s', hs'⟩ := Option.isSome_iff_exists.mp hstep
    rw [trace_succ_of_step hs']
    rw [hreclaim] at hs'
    exact reclaim_dead (hforever r (hm.trans hr)) hs'
  | succ k hk ih =>
    intro t ht
    cases hstep : system.step (trace system sched k) (sched k) with
    | none =>
      rw [trace_succ_of_disabled hstep] at ht
      exact ih t ht
    | some s' =>
      have hpending := (hconst (k + 1) (by omega)).trans (hconst k (by omega)).symm
      rw [trace_succ_of_step hstep] at hpending ht
      have hkept := (dead_step (trace_reachable k) (hforever k (by omega)) hstep).2.2 hpending
      exact ih t (hkept t ht)

/-- Process 7 asks, dies, and is granted a ticket afterwards. -/
def lateGrant : Nat → Action
  | 0 => .start 7
  | 1 => .advance 7 .main
  | 2 => .die 7
  | 3 => .serve 0
  | _ => .reclaim

/-- The grant comes after the death, and is taken back all the same. -/
theorem deadTickets_reclaimed_lateGrant :
    owner (trace system lateGrant 4).server.tickets 1 = some 7 ∧
      ∃ m, 3 ≤ m ∧ ∀ k, m ≤ k → ∀ t,
        owner (trace system lateGrant k).server.tickets t ≠ some 7 := by
  have hfair : Recurs system lateGrant fun _ a => a = .reclaim :=
    fun n => ⟨n + 4, by omega, rfl⟩
  have hdead : Dead 7 (trace system lateGrant 3) := ⟨_, rfl, rfl⟩
  exact ⟨by decide +kernel, deadTickets_reclaimed hfair hdead⟩

end CampusNet.Licence
