import CampusNet.Homework5.CsmaCd
import Mathlib.Data.List.Count

/-!
# Frames sent and frames lost in the CSMA/CD simulation

`transmit` returns to the frame loop after a collision as after a success, and the loop goes on to
the next frame: the retry announced by "等待 ... 个时隙后重试" is never made.

* `frames_accounted` — in every run the transmissions a station completed and the collisions it
  drew together are the frames it has been through.
* `framesSent_iff` — a station that has returned sent all its frames exactly when it drew no
  collision; a frame is sent before the next one exactly when no collision of it is left behind.
* `collision_loses_frame` — one station, one frame, one collision, nothing sent.
-/

namespace CampusNet.CsmaCd

open Runs

/-- The transmission of the current frame is over, and `++i` is still to come. -/
def Station.tried (t : Station) : Nat :=
  t.i + if t.pc = .collided ∨ t.pc = .backoff ∨ t.pc = .interval then 1 else 0

/-- What the frame loop keeps of `i`. -/
structure Station.InLoop (frameCount : Int) (t : Station) : Prop where
  inside : t.pc ≠ .forTest → t.pc ≠ .returned → (t.i : Int) < frameCount
  bound : (t.i : Int) ≤ max frameCount 0
  done : t.pc = .returned → frameCount ≤ t.i

variable {ι : Type} [DecidableEq ι]

/-- The transmissions the station has completed without collision. -/
def completed (s : State ι) (id : ι) : Nat := s.log.count (id, .sendComplete)

/-- The step draws a collision for the station: `rand() % 10 == 0` at the end of its sending. -/
def drewCollision (id : ι) (p : State ι × Action ι) : Bool :=
  match p.2 with
  | .run q rand => decide (q = id ∧ (p.1.station id).pc = .sending ∧ rand % 10 = 0)
  | .spuriousWake _ => false

/-- The collisions the station drew. -/
def collisions (h : List (State ι × Action ι)) (id : ι) : Nat := h.countP (drewCollision id)

/-! ## One step of one thread -/

@[simp] theorem Station.wake_tried (t : Station) : t.wake.tried = t.tried := by
  unfold Station.tried
  rcases t.wake_pc with hpc | ⟨hparked, hwoken⟩
  · rw [hpc, t.wake_i]
  · simp [hparked, hwoken]

/-- Inside the body of the loop. -/
theorem Station.InLoop.midway {frameCount : Int} {t : Station} (hinside : (t.i : Int) < frameCount)
    (hpc : t.pc ≠ .returned) : t.InLoop frameCount :=
  ⟨fun _ _ => hinside, by omega, fun hreturned => absurd hreturned hpc⟩

theorem Station.InLoop.wake {frameCount : Int} {t : Station} (h : t.InLoop frameCount) :
    t.wake.InLoop frameCount := by
  rcases t.wake_pc with hpc | ⟨hparked, hwoken⟩
  · refine ⟨?_, ?_, ?_⟩
    · rw [hpc, t.wake_i]; exact h.inside
    · rw [t.wake_i]; exact h.bound
    · rw [hpc, t.wake_i]; exact h.done
  · have hinside := h.inside (by simp [hparked]) (by simp [hparked])
    refine .midway ?_ ?_
    · rw [t.wake_i]; exact hinside
    · simp [hwoken]

/-- A step's `sendComplete` line and its draw of a collision account for the frame it ends. -/
theorem stationThread_tried {frameCount : Int} {rand : Nat} {busy : Bool} {t : Station}
    {e : Effect} (h : stationThread frameCount rand busy t = some e) :
    (if t.pc = .sending ∧ rand % 10 = 0 then 1 else 0) + e.lines.count .sendComplete + t.tried =
      e.station.tried := by
  obtain ⟨pc, i⟩ := t
  cases pc with
  | forTest =>
    cases h
    by_cases hmore : (i : Int) < frameCount
    · simp [Effect.local, Station.tried, hmore]
    · simp [Effect.local, Station.tried, hmore]
  | carrierSense => cases busy <;> (cases h; simp [Effect.local, Station.tried])
  | enter | woken => cases busy <;> (cases h; simp [Station.tried])
  | waiting | returned => cases h
  | sending =>
    cases h
    by_cases hdraw : rand % 10 = 0
    · simp [Effect.local, Station.tried, hdraw, Nat.add_comm]
    · simp [Effect.local, Station.tried, hdraw]
  | collided | backoff => cases h; simp [Station.tried]
  | finishing => cases h; simp [Station.tried, Nat.add_comm]
  | interval => cases h; simp [Effect.local, Station.tried]

/-- The loop variable moves only with the step to the loop test. -/
theorem stationThread_i {frameCount : Int} {rand : Nat} {busy : Bool} {t : Station} {e : Effect}
    (h : stationThread frameCount rand busy t = some e) :
    e.station.i = t.i ∨ (e.station.i = t.i + 1 ∧ e.station.pc = .forTest) := by
  obtain ⟨pc, i⟩ := t
  cases pc with
  | forTest | carrierSense | sending | collided | backoff | finishing => cases h; exact Or.inl rfl
  | enter | woken => cases busy <;> (cases h; exact Or.inl rfl)
  | waiting | returned => cases h
  | interval => cases h; exact Or.inr ⟨rfl, rfl⟩

theorem stationThread_inLoop {frameCount : Int} {rand : Nat} {busy : Bool} {t : Station}
    {e : Effect} (hloop : t.InLoop frameCount)
    (h : stationThread frameCount rand busy t = some e) : e.station.InLoop frameCount := by
  obtain ⟨pc, i⟩ := t
  have hbound := hloop.bound
  cases pc with
  | forTest =>
    cases h
    by_cases hmore : (i : Int) < frameCount
    · simp only [Effect.local, if_pos hmore]
      exact .midway hmore (by simp)
    · simp only [Effect.local, if_neg hmore]
      exact ⟨fun _ hnot => absurd rfl hnot, hbound, fun _ => Int.not_lt.mp hmore⟩
  | carrierSense | sending =>
    cases h
    refine .midway (hloop.inside (by simp) (by simp)) ?_
    simp only [Effect.local]
    split <;> simp
  | enter | woken =>
    have hinside := hloop.inside (by simp) (by simp)
    cases busy <;> (cases h; exact .midway hinside (by simp))
  | waiting | returned => cases h
  | collided | backoff | finishing =>
    cases h
    exact .midway (hloop.inside (by simp) (by simp)) (by simp)
  | interval =>
    cases h
    have hinside : (i : Int) < frameCount := hloop.inside (by simp) (by simp)
    refine ⟨fun hnot => absurd rfl hnot, ?_, by simp [Effect.local]⟩
    show ((i + 1 : Nat) : Int) ≤ max frameCount 0
    omega

/-! ## One step of the system -/

theorem State.count_apply_self (s : State ι) (id : ι) (e : Effect) (line : Line) :
    (s.apply id e).log.count (id, line) = s.log.count (id, line) + e.lines.count line := by
  unfold State.apply
  rw [List.count_append, List.count_map_of_injective]
  exact fun _ _ h => (Prod.mk.inj h).2

/-- A step prints no line of another station. -/
theorem State.count_apply_of_ne (s : State ι) {id q : ι} (e : Effect) (hq : q ≠ id)
    (line : Line) : (s.apply id e).log.count (q, line) = s.log.count (q, line) := by
  have hother : (e.lines.map (id, ·)).count (q, line) = 0 := by
    rw [List.count_eq_zero, List.mem_map]
    rintro ⟨printed, -, hprinted⟩
    exact hq (Prod.mk.inj hprinted).1.symm
  unfold State.apply
  rw [List.count_append, hother, Nat.add_zero]

/-- **What a step does to a station's frames**: the thread's own step, a wake-up, or nothing. -/
theorem step_station {frameCount : ι → Int} {s s' : State ι} {a : Action ι}
    (hstep : step frameCount s a = some s') (q : ι) :
    (∃ rand e, a = .run q rand ∧
      stationThread (frameCount q) rand s.channelBusy (s.station q) = some e ∧
      s'.station q = e.station ∧
      completed s' q = completed s q + e.lines.count .sendComplete) ∨
    (drewCollision q (s, a) = false ∧ completed s' q = completed s q ∧
      (s'.station q = s.station q ∨ s'.station q = (s.station q).wake)) := by
  cases a with
  | run id rand =>
    obtain ⟨e, he, rfl⟩ := Option.map_eq_some_iff.mp hstep
    by_cases hq : q = id
    · subst hq
      exact Or.inl ⟨rand, e, rfl, he, s.apply_station_self q e,
        s.count_apply_self q e .sendComplete⟩
    · refine Or.inr ⟨?_, s.count_apply_of_ne e hq .sendComplete, s.apply_station_of_ne e hq⟩
      simp [drewCollision, Ne.symm hq]
  | spuriousWake id =>
    cases hstep
    exact Or.inr ⟨rfl, rfl, s.spuriousWake_station id q⟩

theorem step_tried {frameCount : ι → Int} {s s' : State ι} {a : Action ι}
    (hstep : step frameCount s a = some s') (q : ι) :
    (if drewCollision q (s, a) then 1 else 0) + completed s' q + (s.station q).tried =
      completed s q + (s'.station q).tried := by
  rcases step_station hstep q with ⟨rand, e, rfl, he, hst, hcount⟩ | ⟨hdrew, hcount, hst⟩
  · have htried := stationThread_tried he
    simp only [drewCollision, true_and, decide_eq_true_eq]
    rw [hst, hcount]
    omega
  · have htried : (s'.station q).tried = (s.station q).tried := by
      rcases hst with hsame | hwoken
      · rw [hsame]
      · rw [hwoken, Station.wake_tried]
    rw [hdrew, hcount, htried]
    simp

theorem step_completed {frameCount : ι → Int} {s s' : State ι} {a : Action ι}
    (hstep : step frameCount s a = some s') (q : ι) : completed s q ≤ completed s' q := by
  rcases step_station hstep q with ⟨_, e, -, -, -, hcount⟩ | ⟨-, hcount, -⟩
  · rw [hcount]
    exact Nat.le_add_right _ _
  · exact Nat.le_of_eq hcount.symm

theorem step_i {frameCount : ι → Int} {s s' : State ι} {a : Action ι}
    (hstep : step frameCount s a = some s') (q : ι) :
    (s'.station q).i = (s.station q).i ∨
    ((s'.station q).i = (s.station q).i + 1 ∧ (s'.station q).pc = .forTest) := by
  rcases step_station hstep q with ⟨rand, e, -, he, hst, -⟩ | ⟨-, -, hsame | hwoken⟩
  · rw [hst]
    exact stationThread_i he
  · exact Or.inl (by rw [hsame])
  · exact Or.inl (by rw [hwoken, Station.wake_i])

/-- A thread that has returned stays so. -/
theorem step_returned {frameCount : ι → Int} {s s' : State ι} {a : Action ι}
    (hstep : step frameCount s a = some s') {q : ι} (hq : (s.station q).pc = .returned) :
    (s'.station q).pc = .returned := by
  rcases step_station hstep q with ⟨rand, e, -, he, -, -⟩ | ⟨-, -, hsame | hwoken⟩
  · simp [stationThread, hq] at he
  · rw [hsame, hq]
  · rw [hwoken]
    rcases (s.station q).wake_pc with hpc | ⟨hparked, -⟩
    · rw [hpc, hq]
    · rw [hq] at hparked
      cases hparked

theorem step_inLoop {frameCount : ι → Int} {s s' : State ι} {a : Action ι}
    (hs : ∀ q, (s.station q).InLoop (frameCount q)) (hstep : step frameCount s a = some s')
    (q : ι) : (s'.station q).InLoop (frameCount q) := by
  rcases step_station hstep q with ⟨rand, e, -, he, hst, -⟩ | ⟨-, -, hsame | hwoken⟩
  · rw [hst]
    exact stationThread_inLoop (hs q) he
  · rw [hsame]
    exact hs q
  · rw [hwoken]
    exact (hs q).wake

/-! ## Runs -/

theorem inLoop {frameCount : ι → Int} {s : State ι} (h : Reachable (csmaCd frameCount) s) (q : ι) :
    (s.station q).InLoop (frameCount q) := by
  have hall : ∀ q, (s.station q).InLoop (frameCount q) := by
    refine h.induct (I := fun s => ∀ q, (s.station q).InLoop (frameCount q)) (fun q => ?_)
      fun _ _ _ hs hstep => step_inLoop hs hstep
    exact ⟨fun hnot => absurd rfl hnot, Int.le_max_right .., nofun⟩
  exact hall q

/-- **Accounting**: completed transmissions and collisions make up the frames tried. -/
theorem frames_accounted {frameCount : ι → Int} {h : List (State ι × Action ι)} {s : State ι}
    (hr : Run (csmaCd frameCount) h s) (q : ι) :
    completed s q + collisions h q = (s.station q).tried := by
  induction hr with
  | nil => rfl
  | @snoc h s s' a hr hstep ih =>
    have htried := step_tried hstep q
    have hcount : collisions ((s, a) :: h) q =
        collisions h q + if drewCollision q (s, a) then 1 else 0 := List.countP_cons
    omega

/-- The frame a collision was drawn in has been tried. -/
theorem drawn_tried {frameCount : ι → Int} {h : List (State ι × Action ι)} {s : State ι}
    (hr : Run (csmaCd frameCount) h s) {q : ι} :
    ∀ p ∈ h, drewCollision q p = true → (p.1.station q).i < (s.station q).tried := by
  induction hr with
  | nil => exact fun _ hp => absurd hp List.not_mem_nil
  | @snoc h s s' a hr hstep ih =>
    have htried := step_tried hstep q
    have hmore := step_completed hstep q
    rw [List.forall_mem_cons]
    constructor
    · intro hdrew
      rw [if_pos hdrew] at htried
      have hi : (s.station q).i ≤ (s.station q).tried := Nat.le_add_right _ _
      show (s.station q).i < _
      omega
    · intro p hp hdrew
      have hold := ih p hp hdrew
      omega

theorem collisions_eq_zero {h : List (State ι × Action ι)} {q : ι} :
    collisions h q = 0 ↔ ∀ p ∈ h, drewCollision q p = false := by
  simp [collisions, List.countP_eq_zero]

/-- A station at its loop test has completed the frames behind it exactly when it drew no
collision. -/
theorem completed_eq_i_iff {frameCount : ι → Int} {h : List (State ι × Action ι)} {s : State ι}
    (hr : Run (csmaCd frameCount) h s) {q : ι}
    (hq : (s.station q).pc = .forTest ∨ (s.station q).pc = .returned) :
    completed s q = (s.station q).i ↔ ∀ p ∈ h, drewCollision q p = false := by
  have htried : (s.station q).tried = (s.station q).i := by
    rcases hq with hq | hq
    · simp [Station.tried, hq]
    · simp [Station.tried, hq]
  have hsum := frames_accounted hr q
  rw [← collisions_eq_zero]
  omega

/-- All frames sent, at a station that has returned. -/
def AllSent (frameCount : ι → Int) (q : ι) (s : State ι) : Prop :=
  (s.station q).pc = .returned → (completed s q : Int) = frameCount q

/-- Every frame behind a station at its loop test is sent. -/
def SentBefore (q : ι) (s : State ι) : Prop :=
  (s.station q).pc = .forTest → completed s q = (s.station q).i

theorem allSent_iff {frameCount : ι → Int} {h : List (State ι × Action ι)} {s : State ι}
    (hr : Run (csmaCd frameCount) h s) (q : ι) :
    AllSent frameCount q s ↔
      ((s.station q).pc = .returned →
        0 ≤ frameCount q ∧ ∀ p ∈ h, drewCollision q p = false) := by
  have hloop := inLoop hr.reachable q
  unfold AllSent
  refine imp_congr_right fun hreturned => ?_
  rw [← completed_eq_i_iff hr (Or.inr hreturned)]
  have hbound := hloop.bound
  have hdone := hloop.done hreturned
  omega

theorem allSent_throughout {frameCount : ι → Int} {h : List (State ι × Action ι)} {s : State ι}
    (hr : Run (csmaCd frameCount) h s) (q : ι) :
    Throughout (AllSent frameCount q) h s ↔
      ((s.station q).pc = .returned →
        0 ≤ frameCount q ∧ ∀ p ∈ h, drewCollision q p = false) := by
  refine hr.throughout_iff_last (C := fun h s => (s.station q).pc = .returned →
    0 ≤ frameCount q ∧ ∀ p ∈ h, drewCollision q p = false) (fun h s hr => allSent_iff hr q) ?_
  intro h s a s' hr hstep hC hreturned
  obtain ⟨hcount, hnone⟩ := hC (step_returned hstep hreturned)
  exact ⟨hcount, fun p hp => hnone p (List.mem_cons_of_mem _ hp)⟩

theorem sentBefore_throughout {frameCount : ι → Int} {h : List (State ι × Action ι)} {s : State ι}
    (hr : Run (csmaCd frameCount) h s) (q : ι) :
    Throughout (SentBefore q) h s ↔
      ∀ p ∈ h, drewCollision q p = true → (p.1.station q).i = (s.station q).i := by
  refine hr.throughout_iff (C := fun h s =>
      ∀ p ∈ h, drewCollision q p = true → (p.1.station q).i = (s.station q).i) ?_ ?_
  · exact iff_of_true (fun p hp => absurd hp List.not_mem_nil) fun _ => rfl
  intro h s a s' hr hstep
  have hr' := hr.snoc hstep
  have hdrawn := drawn_tried hr (q := q)
  have hdrawn' := drawn_tried hr' (q := q)
  have hi := step_i hstep q
  have htest : (s'.station q).pc = .forTest → (s'.station q).tried = (s'.station q).i := by
    intro hpc
    simp [Station.tried, hpc]
  have htried : (s.station q).tried ≤ (s.station q).i + 1 := by
    unfold Station.tried
    split <;> omega
  constructor
  · intro hC
    constructor
    · -- an earlier draw is behind the station before the step and not behind it after
      intro p hp hdrew
      have hsame := hC p (List.mem_cons_of_mem _ hp) hdrew
      have hlt := hdrawn p hp hdrew
      omega
    · intro hpc
      rw [completed_eq_i_iff hr' (Or.inl hpc)]
      intro p hp
      by_contra hdrew
      rw [Bool.not_eq_false] at hdrew
      have hsame := hC p hp hdrew
      have hlt := hdrawn' p hp hdrew
      rw [htest hpc] at hlt
      omega
  · rintro ⟨hC, hsent⟩
    -- a step to the loop test leaves no collision behind
    have hnone : (s'.station q).pc = .forTest → ∀ p ∈ (s, a) :: h, drewCollision q p = false :=
      fun hpc => (completed_eq_i_iff hr' (Or.inl hpc)).mp (hsent hpc)
    rcases hi with hi | ⟨-, hpc⟩
    · rw [List.forall_mem_cons]
      refine ⟨fun _ => hi.symm, fun p hp hdrew => ?_⟩
      rw [hi]
      exact hC p hp hdrew
    · intro p hp hdrew
      rw [hnone hpc p hp] at hdrew
      cases hdrew

/-- **Frames sent**: when a station's thread has returned, it has completed `frame_count`
transmissions exactly when it drew no collision; and it completes every frame before it goes on to
the next exactly when the frame of every collision it drew is the one it is still at. -/
theorem framesSent_iff {frameCount : ι → Int} {h : List (State ι × Action ι)} {s : State ι}
    (hr : Run (csmaCd frameCount) h s) (q : ι) :
    (Throughout (AllSent frameCount q) h s ↔
      ((s.station q).pc = .returned →
        0 ≤ frameCount q ∧ ∀ p ∈ h, drewCollision q p = false)) ∧
    (Throughout (SentBefore q) h s ↔
      ∀ p ∈ h, drewCollision q p = true → (p.1.station q).i = (s.station q).i) :=
  ⟨allSent_throughout hr q, sentBefore_throughout hr q⟩

/-- One station sends its one frame. -/
theorem framesSent_iff_one : ∃ h s, Run (csmaCd fun _ : Fin 1 => 1) h s ∧
    (s.station 0).pc = .returned ∧ completed s 0 = 1 := by
  obtain ⟨h, s, hr, hmap, hp⟩ := exists_run_of_exec (M := csmaCd fun _ : Fin 1 => 1)
    (List.replicate 7 (.run 0 1)) (p := fun s => decide ((s.station 0).pc = .returned)) (by decide)
  have hreturned := of_decide_eq_true hp
  have hdraws : ∀ p ∈ h, drewCollision 0 p = false := by
    intro p hp
    have hmem : p.2 ∈ h.map Prod.snd := List.mem_map_of_mem hp
    rw [hmap, List.reverse_replicate] at hmem
    simp [drewCollision, List.eq_of_mem_replicate hmem]
  have hsent : (completed s 0 : Int) = 1 :=
    ((framesSent_iff hr 0).1.mpr fun _ => ⟨by decide, hdraws⟩).2 hreturned
  exact ⟨h, s, hr, hreturned, by exact_mod_cast hsent⟩

/-- One station with one frame draws a collision, announces a retry, and returns with nothing
sent. -/
theorem collision_loses_frame : ∃ s, Reachable (csmaCd fun _ : Fin 1 => 1) s ∧
    (s.station 0).pc = .returned ∧ completed s 0 = 0 ∧
    s.log = [(0, .startSending), (0, .collision), (0, .retryAfter 1)] := by
  obtain ⟨s, hs, hp⟩ := exists_reachable_of_exec (M := csmaCd fun _ : Fin 1 => 1)
    (List.replicate 8 (.run 0 0)) (p := fun s => decide ((s.station 0).pc = .returned ∧
      s.log = [(0, .startSending), (0, .collision), (0, .retryAfter 1)])) (by decide)
  obtain ⟨hreturned, hlog⟩ := of_decide_eq_true hp
  refine ⟨s, hs, hreturned, ?_, hlog⟩
  rw [completed, hlog]
  rfl

end CampusNet.CsmaCd
