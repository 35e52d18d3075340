import Montre.Firmware.Refinement

namespace Montre.Firmware

open Montre.Library Montre.Library.Runs Montre.Abstract

def switchTime (sw : UInt16) : ℕ :=
  (if sw.toNat / 32 % 32 < 24 then sw.toNat / 32 % 32 else 0) * 3600 + sw.toNat % 32 * 60

def clockSet (s : System) : Event → Option ℕ
  | .key0 => some (12 * 3600 + 30 * 60)
  | .key3 sw => if s.state.gMode = .horloge then some (switchTime sw) else none
  | .tick | .display | .key1 | .key2 => none

/-- The last value set and the ticks since, updated by one step of a run. -/
def sinceSet (o : ℕ × ℕ) (x : System × Event) : ℕ × ℕ :=
  match clockSet x.1 x.2 with
  | some v => (v, 0)
  | none => if x.2 = .tick then (o.1, o.2 + 1) else o

theorem configTime_seconds (sw : UInt16) : (configTime sw).seconds = switchTime sw := by
  simp only [Horloge.seconds, configTime, configHeures_toNat, configMinutes_toNat, switchTime,
    UInt8.toNat_zero, Nat.add_zero]

theorem origin_sinceSet (o : ℕ × ℕ) (x : System × Event) :
    AlarmClock.origin ((o.1 : ZMod 86400), o.2) (action x.1 x.2) =
      (((sinceSet o x).1 : ZMod 86400), (sinceSet o x).2) := by
  obtain ⟨s, e⟩ := x
  cases e with
  | tick | display | key0 | key1 => rfl
  | key2 => cases hm : s.state.gMode <;> simp [action, hm, sinceSet, clockSet, AlarmClock.origin]
  | key3 sw =>
      cases hm : s.state.gMode with
      | horloge => simp [action, hm, sinceSet, clockSet, AlarmClock.origin, Horloge.ofDay, configTime_seconds]
      | chrono => simp [action, hm, sinceSet, clockSet, AlarmClock.origin]
      | minuterie =>
          cases ha : s.state.gMinut.alarmActive <;>
            simp [action, hm, ha, sinceSet, clockSet, AlarmClock.origin]

theorem ofDay_step {s : System} (h : Coherent s.state) {e : Event} (hset : clockSet s e = none) :
    (step s e).state.gHorloge.ofDay = s.state.gHorloge.ofDay + (if e = .tick then 1 else 0) := by
  have hnow := AlarmClock.now_step (o := ((s.state.gHorloge.seconds : ZMod 86400), 0))
    (c := abstraction s) (by simp [abstraction, Horloge.ofDay]) (action s e)
  rw [← abstraction_step s e h, origin_sinceSet (s.state.gHorloge.seconds, 0) (s, e)] at hnow
  simp only [sinceSet, hset] at hnow
  rw [show (step s e).state.gHorloge.ofDay = (abstraction (step s e)).now from rfl, hnow]
  split_ifs <;> simp [Horloge.ofDay]

theorem origin_foldl (xs : List (System × Event)) (o : ℕ × ℕ) :
    (xs.map fun x => action x.1 x.2).foldl AlarmClock.origin ((o.1 : ZMod 86400), o.2) =
      (((xs.foldl sinceSet o).1 : ZMod 86400), (xs.foldl sinceSet o).2) := by
  induction xs generalizing o with
  | nil => rfl
  | cons x xs ih => rw [List.map_cons, List.foldl_cons, origin_sinceSet, ih, List.foldl_cons]

/-- The clock is the last value set plus the ticks since, modulo a day, in every
run of the firmware. -/
theorem clock_eq_last_set_plus_ticks (cs : List Call) :
    (run call start cs).state.gHorloge.InRange ∧
      (run call start cs).state.gHorloge.seconds =
        (((trace step start (events cs)).foldl sinceSet (12 * 3600 + 30 * 60, 0)).1 +
          ((trace step start (events cs)).foldl sinceSet (12 * 3600 + 30 * 60, 0)).2) % 86400 := by
  have hr := (coherent_calls cs).clock
  refine ⟨hr, ?_⟩
  rw [run_calls] at hr ⊢
  have hstart : (abstraction start).now = ((12 * 3600 + 30 * 60 : ℕ) : ZMod 86400) + ((0 : ℕ) : ZMod 86400) := by
    rw [Nat.cast_zero, add_zero]
    exact congrArg Nat.cast (show start.state.gHorloge.seconds = 12 * 3600 + 30 * 60 from rfl)
  have hnow := AlarmClock.now_run (o := (((12 * 3600 + 30 * 60 : ℕ) : ZMod 86400), 0)) hstart
    (actions start (events cs))
  rw [← abstraction_run coherent_start, actions, origin_foldl _ (12 * 3600 + 30 * 60, 0)] at hnow
  have hmod := (ZMod.natCast_eq_natCast_iff' _ _ _).mp
    ((show _ = _ from hnow).trans (Nat.cast_add _ _).symm)
  rwa [Nat.mod_eq_of_lt hr.seconds_lt] at hmod

end Montre.Firmware
