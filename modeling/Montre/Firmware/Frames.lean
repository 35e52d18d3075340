import Montre.Firmware.Refinement

namespace Montre.Firmware

open Montre.Library Montre.Library.Runs

section Effects

variable (s : System) (sw : UInt16)

@[simp] theorem step_display_state : (step s .display).state = s.state := by
  cases hm : s.state.gMode <;> simp [step, Event.program, updateDisplay, hm]

@[simp] theorem step_key0_state : (step s .key0).state = start.state := rfl

@[simp] theorem step_key0_env : (step s .key0).env =
    { s.env with alarmBell0 := 0, chrono0 := 0, startChrono := 0 } := rfl

@[simp] theorem step_key1_state : (step s .key1).state =
    { s.state with
      gMode := s.state.gMode.next
      gChrono := ⟨false, decide (s.state.gMode.next = .chrono)⟩ } := rfl

@[simp] theorem step_key1_env : (step s .key1).env =
    { s.env with ledg := s.state.gMode.next.led.setWidth 8 } := rfl

@[simp] theorem step_key2_gMode : (step s .key2).state.gMode = s.state.gMode := by
  cases hm : s.state.gMode <;> simp only [step, exec_state, Event.program, Firmware.key2, hm]
  split_ifs <;> simp [hm]

@[simp] theorem step_key2_gHorloge : (step s .key2).state.gHorloge = s.state.gHorloge := by
  cases hm : s.state.gMode <;> simp only [step, exec_state, Event.program, Firmware.key2, hm]
  split_ifs <;> rfl

@[simp] theorem step_key2_alarmActive :
    (step s .key2).state.gMinut.alarmActive = s.state.gMinut.alarmActive := by
  cases hm : s.state.gMode <;> simp only [step, exec_state, Event.program, Firmware.key2, hm]
  split_ifs <;> simp_all

@[simp] theorem step_key2_chronoActif :
    (step s .key2).state.gChrono.chronoActif = s.state.gChrono.chronoActif := by
  cases hm : s.state.gMode <;> simp only [step, exec_state, Event.program, Firmware.key2, hm]
  split_ifs <;> rfl

@[simp] theorem step_key2_env : (step s .key2).env = s.env := by
  cases hm : s.state.gMode <;> simp only [step, exec_env, Event.program, Firmware.key2, hm, List.foldl_nil]
  split_ifs <;> rfl

@[simp] theorem step_key3_gMode : (step s (.key3 sw)).state.gMode = s.state.gMode := by
  cases hm : s.state.gMode <;> simp only [step, exec_state, Event.program, Firmware.key3, hm]
  split_ifs <;> simp [hm]

@[simp] theorem step_key3_chronoActif :
    (step s (.key3 sw)).state.gChrono.chronoActif = s.state.gChrono.chronoActif := by
  cases hm : s.state.gMode <;> simp only [step, exec_state, Event.program, Firmware.key3, hm]
  split_ifs <;> rfl

theorem step_tick_of_not_fires {s : System} (h : ¬ Fires s.state) :
    step s .tick = ⟨{ s.state with gHorloge := s.state.gHorloge.advance }, s.env⟩ := by
  simp only [step, exec, Emit.exec, Event.program, updateAllTime1s_eq, if_neg h, List.foldl_nil]

theorem step_tick_of_fires {s : System} (h : Fires s.state) : step s .tick =
    ⟨{ s.state with
        gHorloge := s.state.gHorloge.advance
        gMode := .minuterie
        gMinut := { s.state.gMinut with running := false, alarmActive := true } },
      { s.env with ledg := 0x4, alarmBell0 := 1 }⟩ := by
  simp only [step, exec, Emit.exec, Event.program, updateAllTime1s_eq, if_pos h]
  rfl

/-- The digits given to HEXS, before they are packed. -/
def Watch.hexsDigits (w : Watch) : UInt8 × UInt8 × UInt8 × UInt8 :=
  match w.gMode with
  | .horloge => encodeHhmm w.gHorloge.heures w.gHorloge.minutes
  | .chrono => (0, 0, 0, 0)
  | .minuterie => encodeHhmm w.gMinut.heures w.gMinut.minutes

theorem step_display_env : (step s .display).env =
    { s.env with
      startChrono := (flag s.state.gChrono.chronoActif).setWidth 8
      chrono0 := if s.state.gMode = .chrono then flag s.state.gChrono.running else s.env.chrono0
      hexs := (packDigits s.state.hexsDigits).setWidth 16 } := by
  cases hm : s.state.gMode <;> simp only [step, exec_env, Event.program, updateDisplay, hm, Watch.hexsDigits]
  · rfl
  · rfl
  · rfl

theorem step_key2_chrono {s : System} (h : s.state.gMode = .chrono) : step s .key2 =
    ⟨{ s.state with gChrono := { s.state.gChrono with running := !s.state.gChrono.running } }, s.env⟩ := by
  simp only [step, exec, Emit.exec, Event.program, Firmware.key2, h, List.foldl_nil]

theorem step_key2_minuterie {s : System} (h : s.state.gMode = .minuterie)
    (ha : s.state.gMinut.alarmActive = false) : step s .key2 =
      ⟨{ s.state with gMinut := { s.state.gMinut with running := !s.state.gMinut.running } }, s.env⟩ := by
  simp only [step, exec, Emit.exec, Event.program, Firmware.key2, h, ha, Bool.false_eq_true, if_false,
    List.foldl_nil]

theorem step_key2_ringing {s : System} (h : s.state.gMode = .minuterie)
    (ha : s.state.gMinut.alarmActive = true) : step s .key2 = s := by
  simp only [step, exec, Emit.exec, Event.program, Firmware.key2, h, ha, if_true, List.foldl_nil]

theorem step_key2_horloge {s : System} (h : s.state.gMode = .horloge) : step s .key2 = s := by
  simp only [step, exec, Emit.exec, Event.program, Firmware.key2, h, List.foldl_nil]

variable {sw}

theorem step_key3_horloge {s : System} (h : s.state.gMode = .horloge) :
    step s (.key3 sw) = ⟨{ s.state with gHorloge := configTime sw }, s.env⟩ := by
  simp only [step, exec, Emit.exec, Event.program, Firmware.key3, h, List.foldl_nil]
  rfl

theorem step_key3_chrono {s : System} (h : s.state.gMode = .chrono) : step s (.key3 sw) =
    ⟨{ s.state with gChrono := { s.state.gChrono with running := false } },
      { s.env with chrono0 := 0xFFFFFFFE }⟩ := by
  simp only [step, exec, Emit.exec, Event.program, Firmware.key3, h]
  rfl

theorem step_key3_ringing {s : System} (h : s.state.gMode = .minuterie)
    (ha : s.state.gMinut.alarmActive = true) : step s (.key3 sw) =
      ⟨{ s.state with gMinut := { s.state.gMinut with alarmActive := false } },
        { s.env with alarmBell0 := 0 }⟩ := by
  simp only [step, exec, Emit.exec, Event.program, Firmware.key3, h, ha, if_true]
  rfl

theorem step_key3_armed {s : System} (h : s.state.gMode = .minuterie)
    (ha : s.state.gMinut.alarmActive = false) (hr : s.state.gMinut.running = true) :
    step s (.key3 sw) = s := by
  simp only [step, exec, Emit.exec, Event.program, Firmware.key3, h, ha, hr, Bool.false_eq_true, if_false,
    if_true, List.foldl_nil]

theorem step_key3_programs {s : System} (h : s.state.gMode = .minuterie)
    (ha : s.state.gMinut.alarmActive = false) (hr : s.state.gMinut.running = false) : step s (.key3 sw) =
      ⟨{ s.state with gMinut := { s.state.gMinut with
          heures := configHeures sw, minutes := configMinutes sw, secondes := 0 } }, s.env⟩ := by
  simp only [step, exec, Emit.exec, Event.program, Firmware.key3, h, ha, hr, Bool.false_eq_true, if_false,
    List.foldl_nil]

/-- All that KEY2 can do: start or stop, arm or disarm, or nothing. -/
theorem step_key2_cases :
    (s.state.gMode = .chrono ∧ step s .key2 =
      ⟨{ s.state with gChrono := { s.state.gChrono with running := !s.state.gChrono.running } }, s.env⟩) ∨
    (s.state.gMode = .minuterie ∧ s.state.gMinut.alarmActive = false ∧ step s .key2 =
      ⟨{ s.state with gMinut := { s.state.gMinut with running := !s.state.gMinut.running } }, s.env⟩) ∨
    ((s.state.gMode = .horloge ∨ s.state.gMode = .minuterie ∧ s.state.gMinut.alarmActive = true) ∧
      step s .key2 = s) := by
  cases hm : s.state.gMode with
  | horloge => exact .inr (.inr ⟨.inl rfl, step_key2_horloge hm⟩)
  | chrono => exact .inl ⟨rfl, step_key2_chrono hm⟩
  | minuterie =>
      cases ha : s.state.gMinut.alarmActive with
      | true => exact .inr (.inr ⟨.inr ⟨rfl, rfl⟩, step_key2_ringing hm ha⟩)
      | false => exact .inr (.inl ⟨rfl, rfl, step_key2_minuterie hm ha⟩)

/-- All that KEY3 can do: set the clock, clear the stopwatch, silence the alarm or program it,
or nothing while the alarm is armed. -/
theorem step_key3_cases (sw : UInt16) :
    (s.state.gMode = .horloge ∧
      step s (.key3 sw) = ⟨{ s.state with gHorloge := configTime sw }, s.env⟩) ∨
    (s.state.gMode = .chrono ∧ step s (.key3 sw) =
      ⟨{ s.state with gChrono := { s.state.gChrono with running := false } },
        { s.env with chrono0 := 0xFFFFFFFE }⟩) ∨
    (s.state.gMode = .minuterie ∧ s.state.gMinut.alarmActive = true ∧ step s (.key3 sw) =
      ⟨{ s.state with gMinut := { s.state.gMinut with alarmActive := false } },
        { s.env with alarmBell0 := 0 }⟩) ∨
    (s.state.gMode = .minuterie ∧ s.state.gMinut.alarmActive = false ∧ s.state.gMinut.running = false ∧
      step s (.key3 sw) = ⟨{ s.state with gMinut := { s.state.gMinut with
          heures := configHeures sw, minutes := configMinutes sw, secondes := 0 } }, s.env⟩) ∨
    (s.state.gMode = .minuterie ∧ s.state.gMinut.alarmActive = false ∧ s.state.gMinut.running = true ∧
      step s (.key3 sw) = s) := by
  cases hm : s.state.gMode with
  | horloge => exact .inl ⟨rfl, step_key3_horloge hm⟩
  | chrono => exact .inr (.inl ⟨rfl, step_key3_chrono hm⟩)
  | minuterie =>
      cases ha : s.state.gMinut.alarmActive with
      | true => exact .inr (.inr (.inl ⟨rfl, rfl, step_key3_ringing hm ha⟩))
      | false =>
          cases hr : s.state.gMinut.running with
          | true => exact .inr (.inr (.inr (.inr ⟨rfl, rfl, rfl, step_key3_armed hm ha hr⟩)))
          | false => exact .inr (.inr (.inr (.inl ⟨rfl, rfl, rfl, step_key3_programs hm ha hr⟩)))

theorem step_key3_env : (step s (.key3 sw)).env =
    { s.env with
      alarmBell0 := if s.state.gMode = .minuterie ∧ s.state.gMinut.alarmActive = true then 0
        else s.env.alarmBell0
      chrono0 := if s.state.gMode = .chrono then 0xFFFFFFFE else s.env.chrono0 } := by
  cases hm : s.state.gMode with
  | horloge => simp [step_key3_horloge hm]
  | chrono => simp [step_key3_chrono hm]
  | minuterie =>
      cases ha : s.state.gMinut.alarmActive with
      | true => simp [step_key3_ringing hm ha]
      | false => cases hr : s.state.gMinut.running <;> simp [step_key3_armed, step_key3_programs, hm, ha, hr]

end Effects

section Writes

variable (w : Watch) (e : Event)

/-- START is only ever commanded for a running stopwatch. -/
theorem running_of_start_written : ∀ x ∈ (e.program w).2, x.base = .chrono0 →
    x.data.getLsbD 0 = true → w.gChrono.running = true := by
  cases e with
  | tick =>
      simp only [Event.program, updateAllTime1s_eq]
      split_ifs <;> simp
  | display =>
      cases hm : w.gMode <;> cases hr : w.gChrono.running <;>
        simp [Event.program, updateDisplay, hm, hr, flag]
  | key0 => simp [Event.program, Firmware.key0, flag]
  | key1 => simp [Event.program, Firmware.key1]
  | key2 =>
      cases hm : w.gMode <;> cases ha : w.gMinut.alarmActive <;>
        simp [Event.program, Firmware.key2, hm, ha]
  | key3 sw =>
      cases hm : w.gMode <;> cases hr : w.gMinut.running <;> cases ha : w.gMinut.alarmActive <;>
        simp [Event.program, Firmware.key3, flag, hm, hr, ha]

theorem hexsDigits_of_hexs_written : ∀ x ∈ (e.program w).2, x.base = .hexs →
    x.data = packDigits w.hexsDigits := by
  cases e with
  | tick =>
      simp only [Event.program, updateAllTime1s_eq]
      split_ifs <;> simp
  | display => cases hm : w.gMode <;> simp [Event.program, updateDisplay, Watch.hexsDigits, hm]
  | key0 => simp [Event.program, Firmware.key0]
  | key1 => simp [Event.program, Firmware.key1]
  | key2 =>
      cases hm : w.gMode <;> cases ha : w.gMinut.alarmActive <;>
        simp [Event.program, Firmware.key2, hm, ha]
  | key3 sw =>
      cases hm : w.gMode <;> cases hr : w.gMinut.running <;> cases ha : w.gMinut.alarmActive <;>
        simp [Event.program, Firmware.key3, hm, hr, ha]

end Writes

/-- Only KEY2 in the stopwatch mode starts the stopwatch. -/
theorem stopped_step {s : System} (h : s.state.gChrono.running = false) {e : Event}
    (he : ¬ (e = .key2 ∧ s.state.gMode = .chrono)) : (step s e).state.gChrono.running = false := by
  cases e with
  | tick =>
      by_cases hf : Fires s.state
      · rwa [step_tick_of_fires hf]
      · rwa [step_tick_of_not_fires hf]
  | display => rwa [step_display_state]
  | key0 | key1 => rfl
  | key2 =>
      rcases step_key2_cases s with ⟨hm, hs⟩ | ⟨-, -, hs⟩ | ⟨-, hs⟩
      · exact absurd ⟨rfl, hm⟩ he
      · rwa [hs]
      · rwa [hs]
  | key3 sw =>
      rcases step_key3_cases s sw with ⟨-, hs⟩ | ⟨-, hs⟩ | ⟨-, -, hs⟩ | ⟨-, -, -, hs⟩ | ⟨-, -, -, hs⟩
      · rwa [hs]
      · rw [hs]
      · rwa [hs]
      · rwa [hs]
      · rwa [hs]

def beforeKey3 (rising : UInt8) : List Event :=
  (if rising &&& 0x1 ≠ 0 then [.key0] else []) ++ (if rising &&& 0x2 ≠ 0 then [.key1] else []) ++
    (if rising &&& 0x4 ≠ 0 then [.key2] else [])

def modeAtKey3 (rising : UInt8) (m : WatchMode) : WatchMode :=
  let m := if rising &&& 0x1 ≠ 0 then .horloge else m
  if rising &&& 0x2 ≠ 0 then m.next else m

theorem keyEvents_of_key3 {rising : UInt8} (h : rising &&& 0x8 ≠ 0) (sw : UInt16) :
    keyEvents rising sw = beforeKey3 rising ++ [.key3 sw] := by
  simp only [keyEvents, beforeKey3, h, ne_eq, not_false_eq_true, if_true]

theorem gMode_beforeKey3 (s : System) (rising : UInt8) :
    (run step s (beforeKey3 rising)).state.gMode = modeAtKey3 rising s.state.gMode := by
  simp only [beforeKey3, modeAtKey3, run_append]
  split_ifs <;> simp [start, exec, Emit.exec, watchInit]

end Montre.Firmware
