import CampusNet.Lib.Runs
import Mathlib.Logic.Function.Basic

/-!
# The CSMA/CD simulation

Model of `homework5/csma_cd.cpp` for any family of stations and any frame counts.  Each block
under `channel_mutex` is one step, as is each piece of code between two blocks; the value `rand`
returns is part of the action.  `pthread_cond_wait` parks a station until a broadcast or a
spurious wake-up, after which it tests `channel_busy` again.

* `stationThread` — one step of one thread, as the station, the flag and the lines it leaves.
* `csmaCd` — any interleaving of the stations, with the lines printed so far.
* `stationThread_channel` — a step keeps the channel, takes a free one or gives up its own.
* `csmaCd_exclusive` — the channel is busy exactly while one station is on it, and never two.
-/

namespace CampusNet.CsmaCd

open Runs

/-- Where a station's thread stands, from `station_thread` into `transmit` and back. -/
inductive Pc where
  | forTest
  | carrierSense
  | enter
  | waiting
  | woken
  | sending
  | collided
  | backoff
  | finishing
  | interval
  | returned
  deriving DecidableEq, Repr

/-- The lines `transmit` prints. -/
inductive Line where
  | channelBusy
  | startSending
  | collision
  | retryAfter (slots : Nat)
  | sendComplete
  deriving DecidableEq, Repr

structure Station where
  pc : Pc
  i : Nat
  deriving DecidableEq, Repr

def Station.start : Station := ⟨.forTest, 0⟩

/-- `pthread_cond_broadcast`, for one station. -/
def Station.wake (t : Station) : Station :=
  if t.pc = .waiting then { t with pc := .woken } else t

/-- Between taking the channel and giving it up. -/
def Station.OnChannel (t : Station) : Prop :=
  t.pc = .sending ∨ t.pc = .collided ∨ t.pc = .finishing

instance (t : Station) : Decidable t.OnChannel := inferInstanceAs (Decidable (_ ∨ _ ∨ _))

/-- What one step of a thread leaves. -/
structure Effect where
  station : Station
  busy : Bool
  lines : List Line
  broadcast : Bool

/-- A step on the thread's own variables only. -/
def Effect.local (t : Station) (busy : Bool) : Effect := ⟨t, busy, [], false⟩

def stationThread (frameCount : Int) (rand : Nat) (busy : Bool) (t : Station) : Option Effect :=
  match t.pc with
  | .forTest =>
    some (.local { t with pc := if (t.i : Int) < frameCount then .carrierSense else .returned }
      busy)
  | .carrierSense => some (.local { t with pc := if busy then .carrierSense else .enter } busy)
  -- both tests of `while (channel_busy)`, on entry and after a wait
  | .enter | .woken =>
    if busy then some ⟨{ t with pc := .waiting }, true, [.channelBusy], false⟩
    else some ⟨{ t with pc := .sending }, true, [.startSending], false⟩
  | .waiting => none
  | .sending =>
    some (.local { t with pc := if rand % 10 = 0 then .collided else .finishing } busy)
  | .collided => some ⟨{ t with pc := .backoff }, false, [.collision], true⟩
  | .backoff => some ⟨{ t with pc := .interval }, busy, [.retryAfter (rand % 4 + 1)], false⟩
  | .finishing => some ⟨{ t with pc := .interval }, false, [.sendComplete], true⟩
  | .interval => some (.local ⟨.forTest, t.i + 1⟩ busy)
  | .returned => none

variable {ι : Type} [DecidableEq ι]

structure State (ι : Type) where
  channelBusy : Bool
  station : ι → Station
  log : List (ι × Line)

def State.start : State ι := ⟨false, fun _ => .start, []⟩

inductive Action (ι : Type) where
  | run (id : ι) (rand : Nat)
  | spuriousWake (id : ι)

/-- A thread's effect on the shared state. -/
def State.apply (s : State ι) (id : ι) (e : Effect) : State ι where
  channelBusy := e.busy
  station :=
    Function.update (fun q => if e.broadcast then (s.station q).wake else s.station q) id e.station
  log := s.log ++ e.lines.map (id, ·)

def step (frameCount : ι → Int) (s : State ι) : Action ι → Option (State ι)
  | .run id rand =>
    (stationThread (frameCount id) rand s.channelBusy (s.station id)).map (s.apply id)
  | .spuriousWake id =>
    some { s with station := Function.update s.station id (s.station id).wake }

def csmaCd (frameCount : ι → Int) : Machine (State ι) (Action ι) := ⟨State.start, step frameCount⟩

/-! ## One step of one thread -/

@[simp] theorem Station.wake_i (t : Station) : t.wake.i = t.i := by
  unfold Station.wake
  split <;> rfl

/-- A wake-up only moves a parked station. -/
theorem Station.wake_pc (t : Station) :
    t.wake.pc = t.pc ∨ (t.pc = .waiting ∧ t.wake.pc = .woken) := by
  unfold Station.wake
  split
  · rename_i hparked
    exact Or.inr ⟨hparked, rfl⟩
  · exact Or.inl rfl

@[simp] theorem Station.wake_onChannel (t : Station) : t.wake.OnChannel ↔ t.OnChannel := by
  unfold Station.OnChannel
  rcases t.wake_pc with hpc | ⟨hparked, hwoken⟩
  · rw [hpc]
  · simp [hparked, hwoken]

/-- **What a step does to the channel**: nothing, or it takes a free channel, or it gives up the
channel its station is on. -/
theorem stationThread_channel {frameCount : Int} {rand : Nat} {busy : Bool} {t : Station}
    {e : Effect} (h : stationThread frameCount rand busy t = some e) :
    (e.busy = busy ∧ (e.station.OnChannel ↔ t.OnChannel)) ∨
    (busy = false ∧ e.busy = true ∧ e.station.OnChannel) ∨
    (t.OnChannel ∧ e.busy = false ∧ ¬e.station.OnChannel) := by
  obtain ⟨pc, i⟩ := t
  cases pc with
  | forTest =>
    cases h
    refine Or.inl ⟨rfl, ?_⟩
    simp only [Effect.local, Station.OnChannel]
    split <;> simp
  | carrierSense =>
    cases h
    refine Or.inl ⟨rfl, ?_⟩
    simp only [Effect.local, Station.OnChannel]
    split <;> simp
  | enter | woken =>
    cases busy with
    | true => cases h; exact Or.inl ⟨rfl, by simp [Station.OnChannel]⟩
    | false => cases h; exact Or.inr (Or.inl ⟨rfl, rfl, Or.inl rfl⟩)
  | waiting => cases h
  | sending =>
    cases h
    refine Or.inl ⟨rfl, ?_⟩
    simp only [Effect.local, Station.OnChannel]
    split <;> simp
  | collided =>
    cases h
    exact Or.inr (Or.inr ⟨Or.inr (Or.inl rfl), rfl, by simp [Station.OnChannel]⟩)
  | backoff => cases h; exact Or.inl ⟨rfl, by simp [Station.OnChannel]⟩
  | finishing =>
    cases h
    exact Or.inr (Or.inr ⟨Or.inr (Or.inr rfl), rfl, by simp [Station.OnChannel]⟩)
  | interval => cases h; exact Or.inl ⟨rfl, by simp [Effect.local, Station.OnChannel]⟩
  | returned => cases h

/-! ## One step of the system -/

/-- The station a thread's step belongs to has what the step left. -/
@[simp] theorem State.apply_station_self (s : State ι) (id : ι) (e : Effect) :
    (s.apply id e).station id = e.station := by
  simp [State.apply]

/-- Every other station is as before, or has been woken. -/
theorem State.apply_station_of_ne (s : State ι) {id q : ι} (e : Effect) (hq : q ≠ id) :
    (s.apply id e).station q = s.station q ∨ (s.apply id e).station q = (s.station q).wake := by
  have hother : (s.apply id e).station q =
      if e.broadcast then (s.station q).wake else s.station q := by
    simp [State.apply, hq]
  rw [hother]
  split
  · exact Or.inr rfl
  · exact Or.inl rfl

theorem State.apply_onChannel_of_ne (s : State ι) {id q : ι} (e : Effect) (hq : q ≠ id) :
    ((s.apply id e).station q).OnChannel ↔ (s.station q).OnChannel := by
  rcases s.apply_station_of_ne e hq with hsame | hwoken
  · rw [hsame]
  · rw [hwoken, Station.wake_onChannel]

theorem State.spuriousWake_station (s : State ι) (id q : ι) :
    Function.update s.station id (s.station id).wake q = s.station q ∨
    Function.update s.station id (s.station id).wake q = (s.station q).wake := by
  by_cases hq : q = id
  · subst hq
    exact Or.inr (Function.update_self ..)
  · exact Or.inl (Function.update_of_ne hq ..)

/-! ## Exclusion -/

/-- Either the channel is idle and nobody is on it, or it is busy and one station is. -/
def Exclusive (s : State ι) : Prop :=
  (s.channelBusy = false ∧ ∀ q, ¬(s.station q).OnChannel) ∨
  (s.channelBusy = true ∧ ∃ p, ∀ q, (s.station q).OnChannel ↔ q = p)

omit [DecidableEq ι] in
/-- `Exclusive` depends on the flag and on who is on the channel only. -/
theorem Exclusive.congr {s s' : State ι} (hs : Exclusive s) (hbusy : s'.channelBusy = s.channelBusy)
    (hon : ∀ q, (s'.station q).OnChannel ↔ (s.station q).OnChannel) : Exclusive s' := by
  simpa only [Exclusive, hbusy, hon] using hs

theorem Exclusive.apply {s : State ι} {frameCount : Int} {id : ι} {rand : Nat} {e : Effect}
    (hs : Exclusive s)
    (he : stationThread frameCount rand s.channelBusy (s.station id) = some e) :
    Exclusive (s.apply id e) := by
  rcases stationThread_channel he with ⟨hbusy, hon⟩ | ⟨hidle, hbusy, hon⟩ | ⟨hheld, hbusy, hoff⟩
  · apply hs.congr hbusy
    intro q
    by_cases hq : q = id
    · subst hq
      rw [State.apply_station_self]
      exact hon
    · exact s.apply_onChannel_of_ne e hq
  · -- the channel was free, so the station that takes it is alone on it
    rcases hs with ⟨-, hnone⟩ | ⟨hnot, -⟩
    · refine Or.inr ⟨hbusy, id, fun q => ?_⟩
      by_cases hq : q = id
      · subst hq
        rw [State.apply_station_self]
        exact iff_of_true hon rfl
      · rw [s.apply_onChannel_of_ne e hq]
        exact iff_of_false (hnone q) hq
    · rw [hidle] at hnot
      cases hnot
  · -- the station that gives it up was the one on it
    rcases hs with ⟨-, hnone⟩ | ⟨-, p, hp⟩
    · exact absurd hheld (hnone id)
    · refine Or.inl ⟨hbusy, fun q => ?_⟩
      by_cases hq : q = id
      · subst hq
        rw [State.apply_station_self]
        exact hoff
      · rw [s.apply_onChannel_of_ne e hq, hp q]
        intro hqp
        exact hq (hqp.trans ((hp id).mp hheld).symm)

theorem Exclusive.step {frameCount : ι → Int} {s s' : State ι} {a : Action ι} (hs : Exclusive s)
    (hstep : CsmaCd.step frameCount s a = some s') : Exclusive s' := by
  cases a with
  | run id rand =>
    obtain ⟨e, he, rfl⟩ := Option.map_eq_some_iff.mp hstep
    exact hs.apply he
  | spuriousWake id =>
    cases hstep
    refine hs.congr (by rfl) fun q => ?_
    rcases s.spuriousWake_station id q with hsame | hwoken
    · simp only [hsame]
    · simp only [hwoken, Station.wake_onChannel]

omit [DecidableEq ι] in
theorem exclusive_start : Exclusive (State.start : State ι) :=
  Or.inl ⟨rfl, fun q => by simp [State.start, Station.start, Station.OnChannel]⟩

theorem exclusive {frameCount : ι → Int} {s : State ι} (h : Reachable (csmaCd frameCount) s) :
    Exclusive s :=
  h.induct (I := Exclusive) exclusive_start fun _ _ _ hs hstep => Exclusive.step hs hstep

/-- **Channel exclusion**: never two stations on the channel, the flag set exactly while there is
one, and the channel idle once every station's thread has returned. -/
theorem csmaCd_exclusive {frameCount : ι → Int} {s : State ι}
    (h : Reachable (csmaCd frameCount) s) :
    (∀ p q, (s.station p).OnChannel → (s.station q).OnChannel → p = q) ∧
    (s.channelBusy = true ↔ ∃ p, (s.station p).OnChannel) ∧
    ((∀ p, (s.station p).pc = .returned) → s.channelBusy = false) := by
  rcases exclusive h with ⟨hidle, hnone⟩ | ⟨hbusy, p, hp⟩
  · refine ⟨fun p q hon _ => absurd hon (hnone p), ?_, fun _ => hidle⟩
    rw [hidle]
    simp [hnone]
  · refine ⟨fun q r hq hr => ((hp q).mp hq).trans ((hp r).mp hr).symm, ?_, fun hall => ?_⟩
    · exact iff_of_true hbusy ⟨p, (hp p).mpr rfl⟩
    · -- a station on the channel has not returned
      have hon := (hp p).mpr rfl
      simp [Station.OnChannel, hall p] at hon

/-- Three stations with two frames each, the first on the channel and the second waiting. -/
theorem csmaCd_exclusive_three : ∃ s, Reachable (csmaCd fun _ : Fin 3 => 2) s ∧
    (s.station 0).OnChannel ∧ (s.station 1).pc = .waiting ∧ s.channelBusy = true ∧
    ∀ q, (s.station q).OnChannel → q = 0 := by
  obtain ⟨s, hs, hp⟩ := exists_reachable_of_exec (M := csmaCd fun _ : Fin 3 => 2)
    [.run 0 0, .run 0 0, .run 1 0, .run 1 0, .run 0 0, .run 1 0]
    (p := fun s => decide ((s.station 0).OnChannel ∧ (s.station 1).pc = .waiting)) (by decide)
  obtain ⟨hon, hwaiting⟩ := of_decide_eq_true hp
  obtain ⟨honly, hbusy, -⟩ := csmaCd_exclusive hs
  exact ⟨s, hs, hon, hwaiting, hbusy.mpr ⟨0, hon⟩, fun q hq => honly q 0 hq hon⟩

end CampusNet.CsmaCd
