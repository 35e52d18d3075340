import Montre.Firmware.Clock
import Montre.Firmware.Events
import Montre.Abstract.AlarmClock

namespace Montre.Firmware

open Montre.Library Montre.Library.Runs Montre.Abstract

/-- What every reachable state satisfies: both times of day are in range, and
the alarm is never waiting and ringing at once. -/
structure Coherent (w : Watch) : Prop where
  clock : w.gHorloge.InRange
  alarm : w.gMinut.instant.InRange
  exclusive : w.gMinut.running = true → w.gMinut.alarmActive = false

def Minuterie.phase (m : Minuterie) : AlarmClock.Phase :=
  if m.alarmActive then .ringing else if m.running then .armed else .idle

def abstraction (s : System) : AlarmClock.Clock (ZMod 86400) :=
  ⟨s.state.gHorloge.ofDay, s.state.gMinut.instant.ofDay, s.state.gMinut.phase⟩

def action (s : System) : Event → AlarmClock.Action (ZMod 86400)
  | .tick => .tick
  | .display | .key1 => .rest
  | .key0 => .reset (12 * 3600 + 30 * 60 : ℕ) 0
  | .key2 => if s.state.gMode = .minuterie then .toggle else .rest
  | .key3 sw => match s.state.gMode with
    | .horloge => .set (configTime sw).ofDay
    | .chrono => .rest
    | .minuterie => if s.state.gMinut.alarmActive then .silence else .program (configTime sw).ofDay

theorem coherent_start : Coherent start.state :=
  ⟨⟨by decide, by decide, by decide⟩, ⟨by decide, by decide, by decide⟩, by decide⟩

/-- The comparison of `update_all_time_1s`, made after the clock has advanced. -/
def Fires (w : Watch) : Prop := w.gMinut.running = true ∧ w.gMinut.instant = w.gHorloge.advance

instance (w : Watch) : Decidable (Fires w) := inferInstanceAs (Decidable (_ ∧ _))

theorem updateAllTime1s_eq (w : Watch) : updateAllTime1s w =
    if Fires w then
      ({ w with
          gHorloge := w.gHorloge.advance
          gMode := .minuterie
          gMinut := { w.gMinut with running := false, alarmActive := true } },
        [⟨.ledg, 0x4⟩, ⟨.alarmBell0, flag true⟩])
    else ({ w with gHorloge := w.gHorloge.advance }, []) := by
  have hi : Fires w ↔ w.gMinut.running = true ∧ w.gMinut.heures = w.gHorloge.advance.heures ∧
      w.gMinut.minutes = w.gHorloge.advance.minutes ∧ w.gMinut.secondes = w.gHorloge.advance.secondes := by
    rw [Fires, Minuterie.instant, Horloge.mk.injEq]
  simp only [updateAllTime1s, hi]

theorem coherent_step (s : System) (e : Event) (h : Coherent s.state) : Coherent (step s e).state := by
  obtain ⟨hc, ha, hx⟩ := h
  cases e with
  | tick =>
      simp only [step, exec_state, Event.program, updateAllTime1s_eq]
      split_ifs
      · exact ⟨(Horloge.advance_spec hc).1, ha, fun hr => absurd hr Bool.false_ne_true⟩
      · exact ⟨(Horloge.advance_spec hc).1, ha, hx⟩
  | display => cases hm : s.state.gMode <;> simp_all [step, Event.program, updateDisplay] <;> exact ⟨hc, ha, hx⟩
  | key0 => exact coherent_start
  | key1 => exact ⟨hc, ha, hx⟩
  | key2 =>
      cases hm : s.state.gMode <;> simp only [step, exec_state, Event.program, Firmware.key2, hm]
      · exact ⟨hc, ha, hx⟩
      · exact ⟨hc, ha, hx⟩
      · cases hr : s.state.gMinut.alarmActive <;> simp only [Bool.false_eq_true, if_false, if_true]
        · exact ⟨hc, ha, fun _ => rfl⟩
        · exact ⟨hc, ha, hx⟩
  | key3 sw =>
      cases hm : s.state.gMode <;> simp only [step, exec_state, Event.program, Firmware.key3, hm]
      · exact ⟨configTime_inRange sw, ha, hx⟩
      · exact ⟨hc, ha, hx⟩
      · split_ifs
        · exact ⟨hc, ha, fun _ => rfl⟩
        · exact ⟨hc, ha, hx⟩
        · exact ⟨hc, configTime_inRange sw, hx⟩

theorem armed_iff {m : Minuterie} (hx : m.running = true → m.alarmActive = false) :
    m.phase = .armed ↔ m.running = true := by
  cases hr : m.running <;> cases ha : m.alarmActive <;> simp_all [Minuterie.phase]

theorem ringing_iff (m : Minuterie) : m.phase = .ringing ↔ m.alarmActive = true := by
  cases hr : m.running <;> cases ha : m.alarmActive <;> simp_all [Minuterie.phase]

theorem idle_iff (m : Minuterie) : m.phase = .idle ↔ m.running = false ∧ m.alarmActive = false := by
  cases hr : m.running <;> cases ha : m.alarmActive <;> simp_all [Minuterie.phase]

theorem fires_iff {w : Watch} (h : Coherent w) :
    Fires w ↔ w.gMinut.phase = .armed ∧ w.gMinut.instant.ofDay = w.gHorloge.ofDay + 1 := by
  rw [armed_iff h.exclusive, ← Horloge.ofDay_advance h.clock,
    Horloge.ofDay_inj h.alarm (Horloge.advance_spec h.clock).1, Fires]

theorem abstraction_tick (s : System) (h : Coherent s.state) :
    abstraction (step s .tick) = AlarmClock.step (abstraction s) .tick := by
  have hf := fires_iff h
  have hnow := Horloge.ofDay_advance h.clock
  simp only [abstraction, AlarmClock.step, step, exec_state, Event.program, updateAllTime1s_eq, ← hf]
  split_ifs
  · simp only [hnow]
    rfl
  · simp only [hnow]

theorem abstraction_key2 (s : System) (h : Coherent s.state) :
    abstraction (step s .key2) = AlarmClock.step (abstraction s) (action s .key2) := by
  cases hm : s.state.gMode <;> simp only [abstraction, step, exec_state, Event.program, Firmware.key2,
    action, hm, reduceCtorEq, if_true, if_false, AlarmClock.step]
  cases hr : s.state.gMinut.running <;> cases ha : s.state.gMinut.alarmActive <;>
    simp_all [Minuterie.phase, Minuterie.instant, AlarmClock.Phase.toggle, h.exclusive]

theorem abstraction_key3 (s : System) (sw : UInt16) (h : Coherent s.state) :
    abstraction (step s (.key3 sw)) = AlarmClock.step (abstraction s) (action s (.key3 sw)) := by
  cases hm : s.state.gMode <;> simp only [abstraction, step, exec_state, Event.program, Firmware.key3,
    action, hm, AlarmClock.step]
  · rfl
  · cases hr : s.state.gMinut.running <;> cases ha : s.state.gMinut.alarmActive <;>
      simp_all [Minuterie.phase, Minuterie.instant, configTime, h.exclusive]

theorem abstraction_key0 (s : System) :
    abstraction (step s .key0) = AlarmClock.step (abstraction s) (action s .key0) := by
  have hclock : (⟨12, 30, 0⟩ : Horloge).ofDay = ((12 * 3600 + 30 * 60 : ℕ) : ZMod 86400) :=
    congrArg Nat.cast (show (⟨12, 30, 0⟩ : Horloge).seconds = 12 * 3600 + 30 * 60 from rfl)
  have halarm : (⟨0, 0, 0⟩ : Horloge).ofDay = 0 := Nat.cast_zero
  simp only [abstraction, step, exec_state, Event.program, Firmware.key0, action, AlarmClock.step,
    Minuterie.instant, hclock, halarm]
  rfl

/-- The firmware refines the abstract alarm clock, event by event. -/
theorem abstraction_step (s : System) (e : Event) (h : Coherent s.state) :
    abstraction (step s e) = AlarmClock.step (abstraction s) (action s e) := by
  cases e with
  | tick => exact abstraction_tick s h
  | display => cases hm : s.state.gMode <;> simp [abstraction, step, Event.program, updateDisplay, hm, action,
      AlarmClock.step]
  | key0 => exact abstraction_key0 s
  | key1 => rfl
  | key2 => exact abstraction_key2 s h
  | key3 sw => exact abstraction_key3 s sw h

theorem coherent_run (es : List Event) : Coherent (run step start es).state :=
  Runs.invariant (I := fun s : System => Coherent s.state) coherent_step coherent_start es

theorem coherent_calls (cs : List Call) : Coherent (run call start cs).state := by
  rw [run_calls]
  exact coherent_run (events cs)

def actions (s : System) (es : List Event) : List (AlarmClock.Action (ZMod 86400)) :=
  (trace step s es).map fun x => action x.1 x.2

theorem abstraction_run {s : System} (h : Coherent s.state) (es : List Event) :
    abstraction (run step s es) = run AlarmClock.step (abstraction s) (actions s es) :=
  run_simulates (I := fun s : System => Coherent s.state) coherent_step abstraction_step h es

theorem abstraction_trace {s : System} (h : Coherent s.state) (es : List Event) :
    trace AlarmClock.step (abstraction s) (actions s es) =
      (trace step s es).map fun x => (abstraction x.1, action x.1 x.2) :=
  trace_simulates (I := fun s : System => Coherent s.state) coherent_step abstraction_step h es

end Montre.Firmware
