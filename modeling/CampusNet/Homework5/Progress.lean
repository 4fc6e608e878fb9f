import CampusNet.Homework5.Frames
import CampusNet.Lib.Fairness
import Mathlib.Algebra.Order.BigOperators.Group.Finset

/-!
# Progress of the CSMA/CD simulation

Whoever gives up the channel wakes everybody who waits for it, and every frame is tried once; so
nobody sleeps on a free channel, and finitely many stations always come to an end.

* `Station.work` — the steps a station still has to take, those spent waiting left out.
* `stationThread_work` — a step takes the work down, unless it finds the channel busy.
* `csmaCd_neverStuck` — a station that waits, waits for one on the channel; and while some thread
  has not returned, some thread can take its work down.
* `csmaCd_ends` — under every schedule that runs each thread again and again, all threads return,
  with one end of transmission or one collision printed for each frame.
-/

namespace CampusNet.CsmaCd

open Runs Fairness

/-- The steps to the return of the thread that do not depend on the other stations. -/
def Station.work (frameCount : Int) (t : Station) : Nat :=
  let left := (frameCount - t.i).toNat
  match t.pc with
  | .forTest => 8 * left + 1
  | .carrierSense => 8 * left
  | .enter | .waiting | .woken => 8 * left - 1
  | .sending => 8 * left - 2
  | .collided => 8 * left - 3
  | .backoff | .finishing => 8 * left - 4
  | .interval => 8 * left - 5
  | .returned => 0

/-- The transmission of the current frame has ended in a line of the log, and `++i` is still to
come. -/
def Station.ended (t : Station) : Nat := t.i + if t.pc = .backoff ∨ t.pc = .interval then 1 else 0

/-! ## One step of one thread -/

@[simp] theorem Station.wake_work (frameCount : Int) (t : Station) :
    t.wake.work frameCount = t.work frameCount := by
  unfold Station.work
  rcases t.wake_pc with hpc | ⟨hparked, hwoken⟩
  · rw [hpc, t.wake_i]
  · simp only [hparked, hwoken, t.wake_i]

@[simp] theorem Station.wake_ended (t : Station) : t.wake.ended = t.ended := by
  unfold Station.ended
  rcases t.wake_pc with hpc | ⟨hparked, hwoken⟩
  · rw [hpc, t.wake_i]
  · simp [hparked, hwoken]

@[simp] theorem Station.wake_ne_waiting (t : Station) : t.wake.pc ≠ .waiting := by
  unfold Station.wake
  split
  · simp
  · assumption

/-- **A step takes the work down**, or finds the channel busy and leaves everything to others. -/
theorem stationThread_work {frameCount : Int} {rand : Nat} {busy : Bool} {t : Station}
    {e : Effect} (hloop : t.InLoop frameCount)
    (h : stationThread frameCount rand busy t = some e) :
    e.station.work frameCount < t.work frameCount ∨
    (busy = true ∧ ¬t.OnChannel ∧ e.busy = true ∧
      e.station.work frameCount = t.work frameCount) := by
  obtain ⟨pc, i⟩ := t
  have hinside := hloop.inside
  cases pc with
  | forTest =>
    cases h
    refine Or.inl ?_
    by_cases hmore : (i : Int) < frameCount
    · simp [Effect.local, Station.work, hmore]
    · simp [Effect.local, Station.work, hmore]
  | carrierSense =>
    have hlt : (i : Int) < frameCount := hinside (by simp) (by simp)
    cases busy with
    | true => cases h; exact Or.inr ⟨rfl, by simp [Station.OnChannel], rfl, rfl⟩
    | false =>
      cases h
      refine Or.inl ?_
      simp only [Effect.local, Bool.false_eq_true, if_false, Station.work]
      omega
  | enter | woken =>
    have hlt : (i : Int) < frameCount := hinside (by simp) (by simp)
    cases busy with
    | true => cases h; exact Or.inr ⟨rfl, by simp [Station.OnChannel], rfl, rfl⟩
    | false =>
      cases h
      refine Or.inl ?_
      simp only [Station.work]
      omega
  | waiting | returned => cases h
  | sending =>
    have hlt : (i : Int) < frameCount := hinside (by simp) (by simp)
    cases h
    refine Or.inl ?_
    by_cases hdraw : rand % 10 = 0
    · simp only [Effect.local, hdraw, if_true, Station.work]
      omega
    · simp only [Effect.local, hdraw, if_false, Station.work]
      omega
  | collided | backoff | finishing =>
    have hlt : (i : Int) < frameCount := hinside (by simp) (by simp)
    cases h
    refine Or.inl ?_
    simp only [Station.work]
    omega
  | interval =>
    have hlt : (i : Int) < frameCount := hinside (by simp) (by simp)
    cases h
    refine Or.inl ?_
    simp only [Effect.local, Station.work]
    omega

/-- Whoever leaves the channel free does not wait for it, and wakes the others if he gave it up. -/
theorem stationThread_frees {frameCount : Int} {rand : Nat} {busy : Bool} {t : Station}
    {e : Effect} (h : stationThread frameCount rand busy t = some e) (hfree : e.busy = false) :
    e.station.pc ≠ .waiting ∧ (busy = false ∨ e.broadcast = true) := by
  obtain ⟨pc, i⟩ := t
  cases pc with
  | forTest =>
    cases h
    refine ⟨?_, Or.inl hfree⟩
    simp only [Effect.local]
    split <;> simp
  | carrierSense =>
    cases h
    refine ⟨?_, Or.inl hfree⟩
    simp only [Effect.local]
    split <;> simp
  | enter | woken => cases busy <;> (cases h; cases hfree)
  | waiting | returned => cases h
  | sending =>
    cases h
    refine ⟨?_, Or.inl hfree⟩
    simp only [Effect.local]
    split <;> simp
  | collided | finishing => cases h; exact ⟨by simp, Or.inr rfl⟩
  | backoff => cases h; exact ⟨by simp, Or.inl hfree⟩
  | interval => cases h; exact ⟨by simp [Effect.local], Or.inl hfree⟩

/-- A thread that neither waits nor has returned can go on. -/
theorem stationThread_isSome {frameCount : Int} {rand : Nat} {busy : Bool} {t : Station}
    (hwaiting : t.pc ≠ .waiting) (hreturned : t.pc ≠ .returned) :
    (stationThread frameCount rand busy t).isSome := by
  obtain ⟨pc, i⟩ := t
  cases pc with
  | waiting => exact absurd rfl hwaiting
  | returned => exact absurd rfl hreturned
  | enter | woken => cases busy <;> rfl
  | forTest | carrierSense | sending | collided | backoff | finishing | interval => rfl

/-- The lines that end a transmission account for the frames ended. -/
theorem stationThread_ended {frameCount : Int} {rand : Nat} {busy : Bool} {t : Station}
    {e : Effect} (h : stationThread frameCount rand busy t = some e) :
    e.lines.count .sendComplete + e.lines.count .collision + t.ended = e.station.ended := by
  obtain ⟨pc, i⟩ := t
  cases pc with
  | forTest =>
    cases h
    by_cases hmore : (i : Int) < frameCount
    · simp [Effect.local, Station.ended, hmore]
    · simp [Effect.local, Station.ended, hmore]
  | carrierSense => cases busy <;> (cases h; simp [Effect.local, Station.ended])
  | enter | woken => cases busy <;> (cases h; simp [Station.ended])
  | waiting | returned => cases h
  | sending =>
    cases h
    by_cases hdraw : rand % 10 = 0
    · simp [Effect.local, Station.ended, hdraw]
    · simp [Effect.local, Station.ended, hdraw]
  | collided | finishing => cases h; simp [Station.ended, Nat.add_comm]
  | backoff => cases h; simp [Station.ended]
  | interval => cases h; simp [Effect.local, Station.ended]

variable {ι : Type} [DecidableEq ι] {frameCount : ι → Int} {s s' : State ι}

/-! ## The lines that end a transmission -/

/-- The collisions a station has printed. -/
def collided (s : State ι) (q : ι) : Nat := s.log.count (q, .collision)

theorem step_ended {a : Action ι} (hstep : step frameCount s a = some s') (q : ι)
    (hs : completed s q + collided s q = (s.station q).ended) :
    completed s' q + collided s' q = (s'.station q).ended := by
  cases a with
  | run id rand =>
    obtain ⟨e, he, rfl⟩ := Option.map_eq_some_iff.mp hstep
    by_cases hq : q = id
    · subst hq
      have hended := stationThread_ended he
      unfold completed collided at hs ⊢
      rw [s.count_apply_self, s.count_apply_self, State.apply_station_self]
      omega
    · unfold completed collided at hs ⊢
      rw [s.count_apply_of_ne e hq, s.count_apply_of_ne e hq, hs]
      rcases s.apply_station_of_ne e hq with hsame | hwoken
      · rw [hsame]
      · rw [hwoken, Station.wake_ended]
  | spuriousWake id =>
    cases hstep
    rcases s.spuriousWake_station id q with hsame | hwoken
    · simp only [hsame]
      exact hs
    · simp only [hwoken, Station.wake_ended]
      exact hs

/-- Every transmission that has ended is printed as complete or as a collision. -/
theorem lines_ended (h : Reachable (csmaCd frameCount) s) (q : ι) :
    completed s q + collided s q = (s.station q).ended :=
  h.induct (I := fun s => completed s q + collided s q = (s.station q).ended) rfl
    fun _ _ _ hs hstep => step_ended hstep q hs

/-! ## Nobody sleeps on a free channel -/

/-- While the channel is free nobody waits for it. -/
def NoneAsleep (s : State ι) : Prop := s.channelBusy = false → ∀ q, (s.station q).pc ≠ .waiting

theorem NoneAsleep.step {a : Action ι} (hs : NoneAsleep s)
    (hstep : CsmaCd.step frameCount s a = some s') : NoneAsleep s' := by
  cases a with
  | run id rand =>
    obtain ⟨e, he, rfl⟩ := Option.map_eq_some_iff.mp hstep
    intro hfree q
    obtain ⟨hself, hothers⟩ := stationThread_frees he hfree
    by_cases hq : q = id
    · subst hq
      rw [State.apply_station_self]
      exact hself
    · have hother : (s.apply id e).station q =
          if e.broadcast then (s.station q).wake else s.station q := by
        simp [State.apply, hq]
      rw [hother]
      rcases hothers with hidle | hall
      · split
        · exact Station.wake_ne_waiting _
        · exact hs hidle q
      · rw [if_pos hall]
        exact Station.wake_ne_waiting _
  | spuriousWake id =>
    cases hstep
    intro hfree q
    rcases s.spuriousWake_station id q with hsame | hwoken
    · simp only [hsame]
      exact hs hfree q
    · simp only [hwoken]
      exact Station.wake_ne_waiting _

theorem noneAsleep (h : Reachable (csmaCd frameCount) s) : NoneAsleep s :=
  h.induct (I := NoneAsleep) (fun _ _ => by simp [csmaCd, State.start, Station.start])
    fun _ _ _ hs hstep => NoneAsleep.step hs hstep

/-- A thread whose next step is sure to take its work down: the one on a busy channel, any thread
that has not returned on a free one. -/
def Helpful (p : ι) (s : State ι) : Prop :=
  (s.channelBusy = true ∧ (s.station p).OnChannel) ∨
  (s.channelBusy = false ∧ (s.station p).pc ≠ .returned)

theorem exists_helpful (h : Reachable (csmaCd frameCount) s)
    (hmore : ¬∀ q, (s.station q).pc = .returned) : ∃ p, Helpful p s := by
  rcases exclusive h with ⟨hfree, -⟩ | ⟨hbusy, p, hp⟩
  · obtain ⟨q, hq⟩ := not_forall.mp hmore
    exact ⟨q, Or.inr ⟨hfree, hq⟩⟩
  · exact ⟨p, Or.inl ⟨hbusy, (hp p).mpr rfl⟩⟩

omit [DecidableEq ι] in
theorem Station.OnChannel.awake {t : Station} (h : t.OnChannel) :
    t.pc ≠ .waiting ∧ t.pc ≠ .returned := by
  rcases h with hpc | hpc | hpc
  · simp [hpc]
  · simp [hpc]
  · simp [hpc]

theorem Helpful.isSome {p : ι} (h : Reachable (csmaCd frameCount) s) (hp : Helpful p s)
    (rand : Nat) : (stationThread (frameCount p) rand s.channelBusy (s.station p)).isSome := by
  rcases hp with ⟨-, hon⟩ | ⟨hfree, hmore⟩
  · exact stationThread_isSome hon.awake.1 hon.awake.2
  · exact stationThread_isSome (noneAsleep h hfree p) hmore

/-! ## The work of all stations -/

/-- Only the thread that takes the step has its work changed. -/
theorem work_apply_of_ne (s : State ι) {id q : ι} (e : Effect) (hq : q ≠ id) (n : Int) :
    ((s.apply id e).station q).work n = (s.station q).work n := by
  rcases s.apply_station_of_ne e hq with hsame | hwoken
  · rw [hsame]
  · rw [hwoken, Station.wake_work]

variable [Fintype ι]

def totalWork (frameCount : ι → Int) (s : State ι) : Nat :=
  ∑ q, (s.station q).work (frameCount q)

theorem totalWork_apply_lt {id : ι} {e : Effect}
    (hlt : e.station.work (frameCount id) < (s.station id).work (frameCount id)) :
    totalWork frameCount (s.apply id e) < totalWork frameCount s := by
  refine Finset.sum_lt_sum (fun q _ => ?_) ⟨id, Finset.mem_univ id, ?_⟩
  · by_cases hq : q = id
    · subst hq
      rw [State.apply_station_self]
      exact Nat.le_of_lt hlt
    · exact Nat.le_of_eq (work_apply_of_ne s e hq _)
  · rw [State.apply_station_self]
    exact hlt

theorem totalWork_apply_eq {id : ι} {e : Effect}
    (heq : e.station.work (frameCount id) = (s.station id).work (frameCount id)) :
    totalWork frameCount (s.apply id e) = totalWork frameCount s := by
  refine Finset.sum_congr rfl fun q _ => ?_
  by_cases hq : q = id
  · subst hq
    rw [State.apply_station_self]
    exact heq
  · exact work_apply_of_ne s e hq _

/-- The helpful thread takes the work down when it runs; every other step takes it down too, or
leaves both the work and the helpful thread in place. -/
theorem Helpful.step {p : ι} {a : Action ι} (h : Reachable (csmaCd frameCount) s)
    (hp : Helpful p s) (hstep : CsmaCd.step frameCount s a = some s') :
    totalWork frameCount s' < totalWork frameCount s ∨
    (totalWork frameCount s' ≤ totalWork frameCount s ∧ ¬(∃ rand, a = .run p rand) ∧
      Helpful p s') := by
  cases a with
  | run id rand =>
    obtain ⟨e, he, rfl⟩ := Option.map_eq_some_iff.mp hstep
    rcases stationThread_work (inLoop h id) he with hlt | ⟨hbusy, hoff, hstill, heq⟩
    · exact Or.inl (totalWork_apply_lt hlt)
    · -- a thread that finds the channel busy is not the one on it
      have hon : (s.station p).OnChannel := by
        rcases hp with ⟨-, hon⟩ | ⟨hfree, -⟩
        · exact hon
        · rw [hbusy] at hfree
          cases hfree
      have hne : p ≠ id := by
        rintro rfl
        exact hoff hon
      refine Or.inr ⟨Nat.le_of_eq (totalWork_apply_eq heq), ?_, Or.inl ⟨hstill, ?_⟩⟩
      · rintro ⟨rand', ha⟩
        cases ha
        exact hne rfl
      · exact (s.apply_onChannel_of_ne e hne).mpr hon
  | spuriousWake id =>
    cases hstep
    have hst := s.spuriousWake_station id
    refine Or.inr ⟨Nat.le_of_eq (Finset.sum_congr rfl fun q _ => ?_), by simp, ?_⟩
    · rcases hst q with hsame | hwoken
      · simp only [hsame]
      · simp only [hwoken, Station.wake_work]
    · rcases hst p with hsame | hwoken
      · simpa only [Helpful, hsame] using hp
      · simp only [Helpful, hwoken, Station.wake_onChannel]
        refine hp.imp (fun hheld => hheld) fun hfree => ⟨hfree.1, ?_⟩
        have hawake := noneAsleep h hfree.1 p
        rcases (s.station p).wake_pc with hpc | ⟨hparked, -⟩
        · rw [hpc]
          exact hfree.2
        · exact absurd hparked hawake

/-- **No station is left asleep and the stations never block each other**: a station that waits,
waits for another one on the channel; and while some thread has not returned, some thread takes
the work of all down with its next step, whatever `rand` returns. -/
theorem csmaCd_neverStuck (h : Reachable (csmaCd frameCount) s) :
    (∀ q, (s.station q).pc = .waiting → ∃ p, p ≠ q ∧ (s.station p).OnChannel) ∧
    ((∀ q, (s.station q).pc = .returned) ∨
      ∃ p, ∀ rand, ∃ s', step frameCount s (.run p rand) = some s' ∧
        totalWork frameCount s' < totalWork frameCount s) := by
  constructor
  · intro q hq
    rcases exclusive h with ⟨hfree, -⟩ | ⟨-, p, hp⟩
    · exact absurd hq (noneAsleep h hfree q)
    · have hon := (hp p).mpr rfl
      refine ⟨p, ?_, hon⟩
      rintro rfl
      exact hon.awake.1 hq
  · by_cases hall : ∀ q, (s.station q).pc = .returned
    · exact Or.inl hall
    obtain ⟨p, hp⟩ := exists_helpful h hall
    refine Or.inr ⟨p, fun rand => ?_⟩
    obtain ⟨e, he⟩ := Option.isSome_iff_exists.mp (hp.isSome h rand)
    have hstep : step frameCount s (.run p rand) = some (s.apply p e) :=
      Option.map_eq_some_iff.mpr ⟨e, he, rfl⟩
    refine ⟨_, hstep, (hp.step h hstep).resolve_right ?_⟩
    rintro ⟨-, hnot, -⟩
    exact hnot ⟨rand, rfl⟩

/-- The second station waits for the first, which is on the channel. -/
theorem csmaCd_neverStuck_two : ∃ s, Reachable (csmaCd fun _ : Fin 2 => 1) s ∧
    (s.station 1).pc = .waiting ∧ ∃ p, p ≠ 1 ∧ (s.station p).OnChannel := by
  obtain ⟨s, hs, hp⟩ := exists_reachable_of_exec (M := csmaCd fun _ : Fin 2 => 1)
    [.run 0 0, .run 0 0, .run 1 0, .run 1 0, .run 0 0, .run 1 0]
    (p := fun s => decide ((s.station 1).pc = .waiting)) (by decide)
  have hwaiting := of_decide_eq_true hp
  exact ⟨s, hs, hwaiting, (csmaCd_neverStuck hs).1 1 hwaiting⟩

/-! ## The end of the simulation -/

/-- All threads have returned. -/
def AllReturned (s : State ι) : Prop := ∀ q, (s.station q).pc = .returned

/-- **The simulation ends**: if each thread is run again and again, then from some moment on all
threads have returned, the channel is idle, and each station has printed one end of transmission
or one collision for each of its frames. -/
theorem csmaCd_ends {sched : Nat → Action ι}
    (hfair : ∀ p, Recurs (csmaCd frameCount) sched fun _ a => ∃ rand, a = .run p rand) :
    ∃ n, ∀ m, n ≤ m →
      (∀ q, ((trace (csmaCd frameCount) sched m).station q).pc = .returned ∧
        completed (trace (csmaCd frameCount) sched m) q +
          collided (trace (csmaCd frameCount) sched m) q = (frameCount q).toNat) ∧
      (trace (csmaCd frameCount) sched m).channelBusy = false := by
  obtain ⟨n, -, hn⟩ := eventually_of_rank (G := AllReturned) (H := Helpful)
    (T := fun p _ a => ∃ rand, a = .run p rand) (totalWork frameCount)
    (fun s h hmore => exists_helpful h hmore)
    (fun p s a h _ hp ⟨rand, ha⟩ => by
      subst ha
      simpa [csmaCd, step] using hp.isSome h rand)
    (fun p s a s' h _ hp hstep => Or.inr (hp.step h hstep)) hfair 0
  refine ⟨n, fun m hm => ?_⟩
  have hall := eventually_forever (G := AllReturned)
    (fun s a s' _ hs hstep q => step_returned hstep (hs q)) hn m hm
  have hreach : Reachable (csmaCd frameCount) (trace (csmaCd frameCount) sched m) :=
    trace_reachable m
  refine ⟨fun q => ⟨hall q, ?_⟩, ?_⟩
  · have hloop := inLoop hreach q
    have hbound := hloop.bound
    have hdone := hloop.done (hall q)
    rw [lines_ended hreach q]
    simp only [Station.ended, hall q, reduceCtorEq, or_self, if_false]
    omega
  · rcases exclusive hreach with ⟨hfree, -⟩ | ⟨-, p, hp⟩
    · exact hfree
    · exact absurd (hall p) ((hp p).mpr rfl).awake.2

/-- Two stations with two frames each, run in turn. -/
theorem csmaCd_ends_two : ∃ n, ∀ m, n ≤ m →
    (∀ q, ((trace (csmaCd fun _ : Fin 2 => 2)
      (fun n => .run (Fin.ofNat 2 n) 1) m).station q).pc = .returned) := by
  have hfair : ∀ p : Fin 2, Recurs (csmaCd fun _ : Fin 2 => 2) (fun n => .run (Fin.ofNat 2 n) 1)
      fun _ a => ∃ rand, a = .run p rand := by
    intro p n
    refine ⟨2 * n + p, by omega, 1, congrArg (Action.run · 1) (Fin.ext ?_)⟩
    show (2 * n + p.val) % 2 = p.val
    omega
  obtain ⟨n, hn⟩ := csmaCd_ends hfair
  exact ⟨n, fun m hm q => ((hn m hm).1 q).1⟩

end CampusNet.CsmaCd
