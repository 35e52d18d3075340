import Montre.Firmware.Frames

namespace Montre.Firmware

open Montre.Library Montre.Library.Runs

/-- The numbering of `watch_mode_t`. -/
def WatchMode.code : WatchMode → ℕ
  | .horloge => 0
  | .chrono => 1
  | .minuterie => 2

def LedsShowMode (s : System) : Prop := s.env.ledg = 1 <<< s.state.gMode.code

/-- KEY0 without KEY1 is served in the clock mode: its branch sets the mode and leaves LEDG alone. -/
def ResetsInHorloge (s : System) : Call → Prop
  | .handleKeysAndSwitches rising _ => rising &&& 0x1 ≠ 0 → rising &&& 0x2 = 0 → s.state.gMode = .horloge
  | .updateAllTime1s | .updateDisplay => True

instance (s : System) : Decidable (LedsShowMode s) := inferInstanceAs (Decidable (_ = _))

instance (s : System) (c : Call) : Decidable (ResetsInHorloge s c) :=
  match c with
  | .handleKeysAndSwitches _ _ => inferInstanceAs (Decidable (_ → _ → _))
  | .updateAllTime1s | .updateDisplay => isTrue trivial

theorem led_eq (m : WatchMode) : m.led.setWidth 8 = (1 <<< m.code : BitVec 8) := by
  cases m <;> rfl

theorem leds_start : LedsShowMode start := rfl

theorem leds_tick {s : System} (h : LedsShowMode s) : LedsShowMode (step s .tick) := by
  by_cases hf : Fires s.state
  · rw [step_tick_of_fires hf]
    rfl
  · rw [step_tick_of_not_fires hf]
    exact h

theorem leds_display {s : System} (h : LedsShowMode s) : LedsShowMode (step s .display) := by
  rw [LedsShowMode, step_display_state, step_display_env]
  exact h

theorem leds_key1 (s : System) : LedsShowMode (step s .key1) := by
  rw [LedsShowMode, step_key1_env, led_eq]
  rfl

theorem leds_key0_iff {s : System} (h : LedsShowMode s) :
    LedsShowMode (step s .key0) ↔ s.state.gMode = .horloge := by
  have hcode : LedsShowMode (step s .key0) ↔ (1 <<< s.state.gMode.code : BitVec 8) = 1 <<< 0 := by
    rw [← h]
    rfl
  rw [hcode]
  cases s.state.gMode <;> decide

theorem leds_key2_iff (s : System) : LedsShowMode (step s .key2) ↔ LedsShowMode s := by
  rw [LedsShowMode, step_key2_gMode, step_key2_env]
  rfl

theorem leds_key3_iff (s : System) (sw : UInt16) : LedsShowMode (step s (.key3 sw)) ↔ LedsShowMode s := by
  rw [LedsShowMode, step_key3_gMode, step_key3_env]
  rfl

theorem leds_keys_iff {s : System} (h : LedsShowMode s) (rising : UInt8) (switches : BitVec 10) :
    LedsShowMode (call s (.handleKeysAndSwitches rising switches)) ↔
      ResetsInHorloge s (.handleKeysAndSwitches rising switches) := by
  have h2 (t : System) (c : Prop) [Decidable c] :
      LedsShowMode (run step t (if c then [.key2] else [])) ↔ LedsShowMode t := by
    split_ifs
    · exact leds_key2_iff t
    · exact Iff.rfl
  have h3 (t : System) (sw : UInt16) (c : Prop) [Decidable c] :
      LedsShowMode (run step t (if c then [.key3 sw] else [])) ↔ LedsShowMode t := by
    split_ifs
    · exact leds_key3_iff t sw
    · exact Iff.rfl
  rw [call_eq_run, Call.events, keyEvents, run_append, run_append, run_append, h3, h2, ResetsInHorloge]
  by_cases h0 : rising &&& 0x1 = 0 <;> by_cases h1 : rising &&& 0x2 = 0 <;>
    simp only [h0, h1, ne_eq, not_true_eq_false, not_false_eq_true, if_true, if_false, run_cons, run_nil,
      forall_const, IsEmpty.forall_iff, iff_true]
  · exact h
  · exact leds_key1 s
  · exact leds_key0_iff h
  · exact leds_key1 (step s .key0)

theorem leds_call_iff {s : System} (h : LedsShowMode s) (c : Call) :
    LedsShowMode (call s c) ↔ ResetsInHorloge s c := by
  cases c with
  | updateAllTime1s => exact iff_of_true (leds_tick h) trivial
  | updateDisplay => exact iff_of_true (leds_display h) trivial
  | handleKeysAndSwitches rising switches => exact leds_keys_iff h rising switches

/-- LEDG shows the mode after every call exactly in the runs that never reset the watch,
with KEY0 and without KEY1, out of another mode. -/
theorem leds_show_mode_iff (cs : List Call) :
    Meets call (fun s c => c ≠ .updateDisplay → (call s c).env.ledg = 1 <<< (call s c).state.gMode.code)
        start cs ↔
      Meets call ResetsInHorloge start cs := by
  apply meets_iff (I := LedsShowMode)
  · intro s c hs hc
    exact (leds_call_iff hs c).mpr hc
  · intro s c hs
    change (c ≠ .updateDisplay → LedsShowMode (call s c)) ↔ _
    rw [leds_call_iff hs]
    cases c <;> simp [ResetsInHorloge]
  · exact leds_start

theorem leds_stale_after_reset :
    ¬ ∀ cs : List Call, Meets call (fun s c => c ≠ .updateDisplay →
        (call s c).env.ledg = 1 <<< (call s c).state.gMode.code) start cs := by
  intro h
  have hreset := h [.handleKeysAndSwitches 0x2 0, .handleKeysAndSwitches 0x1 0]
  exact absurd hreset (by decide)

end Montre.Firmware
