import Montre.Firmware.MainLoop

namespace Montre.Firmware

open Montre.Library Montre.Library.Runs

/-- The flags, the mode and the two control registers, in every state of the firmware. -/
structure ControlState (s : System) : Prop where
  exclusive : ¬ (s.state.gMinut.running = true ∧ s.state.gMinut.alarmActive = true)
  bell : s.env.alarmBell0 = flag s.state.gMinut.alarmActive
  counting : s.state.gChrono.running = true → s.state.gChrono.chronoActif = true
  actif : s.state.gMode = .chrono → s.state.gChrono.chronoActif = true
  preempted : s.state.gChrono.chronoActif = true → s.state.gMode ≠ .chrono → s.state.gMode = .minuterie
  control : s.env.chrono0 = 0 ∨ s.env.chrono0 = 1 ∨ s.env.chrono0 = 0xFFFFFFFE

theorem control_start : ControlState start := by
  constructor <;> decide

section Steps

variable {s : System} (h : ControlState s)

include h

theorem control_tick : ControlState (step s .tick) := by
  obtain ⟨hx, hb, hr, ha, hp, hc⟩ := h
  by_cases hf : Fires s.state
  · rw [step_tick_of_fires hf]
    constructor
    · simp
    · rfl
    · exact hr
    · simp
    · simp
    · exact hc
  · rw [step_tick_of_not_fires hf]
    exact ⟨hx, hb, hr, ha, hp, hc⟩

theorem control_display : ControlState (step s .display) := by
  obtain ⟨hx, hb, hr, ha, hp, hc⟩ := h
  constructor <;> simp only [step_display_state, step_display_env]
  · exact hx
  · exact hb
  · exact hr
  · exact ha
  · exact hp
  · split_ifs
    · cases s.state.gChrono.running
      · exact .inl rfl
      · exact .inr (.inl rfl)
    · exact hc

theorem control_key1 : ControlState (step s .key1) := by
  obtain ⟨hx, hb, -, -, -, hc⟩ := h
  constructor
  · exact hx
  · exact hb
  · intro hr
    exact absurd hr Bool.false_ne_true
  · intro hm
    exact decide_eq_true hm
  · intro ha hm
    exact absurd (of_decide_eq_true ha) hm
  · exact hc

theorem control_key2 : ControlState (step s .key2) := by
  obtain ⟨hx, hb, hr, ha, hp, hc⟩ := h
  rcases step_key2_cases s with ⟨hm, hs⟩ | ⟨hm, hactive, hs⟩ | ⟨-, hs⟩ <;> rw [hs]
  · exact ⟨hx, hb, fun _ => ha hm, ha, hp, hc⟩
  · exact ⟨by simp [hactive], hb, hr, ha, hp, hc⟩
  · exact ⟨hx, hb, hr, ha, hp, hc⟩

theorem control_key3 (sw : UInt16) : ControlState (step s (.key3 sw)) := by
  obtain ⟨hx, hb, hr, ha, hp, hc⟩ := h
  rcases step_key3_cases s sw with ⟨-, hs⟩ | ⟨-, hs⟩ | ⟨-, -, hs⟩ | ⟨-, -, -, hs⟩ | ⟨-, -, -, hs⟩ <;> rw [hs]
  · exact ⟨hx, hb, hr, ha, hp, hc⟩
  · exact ⟨hx, hb, by simp, ha, hp, .inr (.inr rfl)⟩
  · exact ⟨by simp, rfl, hr, ha, hp, hc⟩
  · exact ⟨hx, hb, hr, ha, hp, hc⟩
  · exact ⟨hx, hb, hr, ha, hp, hc⟩

end Steps

theorem control_step (s : System) (e : Event) (h : ControlState s) : ControlState (step s e) := by
  cases e with
  | tick => exact control_tick h
  | display => exact control_display h
  | key0 =>
      obtain ⟨hx, -, hr, ha, hp, -⟩ := control_start
      exact ⟨hx, rfl, hr, ha, hp, .inl rfl⟩
  | key1 => exact control_key1 h
  | key2 => exact control_key2 h
  | key3 sw => exact control_key3 h sw

theorem control_run (es : List Event) : ControlState (run step start es) :=
  invariant (I := ControlState) control_step control_start es

/-- The clauses hold together at every boundary of the main loop, and between any two
branches that its calls are made of. -/
theorem control_state (es : List LoopEvent) :
    ControlState (run loopStep start es) ∧
      ∀ x ∈ trace step start (events (es.flatMap LoopEvent.calls)), ControlState x.1 := by
  constructor
  · rw [run_loop, run_calls]
    exact control_run (events (es.flatMap LoopEvent.calls))
  · exact trace_invariant (I := ControlState) control_step control_start _

end Montre.Firmware
