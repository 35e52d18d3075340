import Montre.Firmware.MainLoop

namespace Montre.Firmware

open Montre.Library Montre.Library.Runs

/-- The alarm is armed and the clock is on its instant. -/
def Standing (s : System) : Prop :=
  s.state.gMinut.running = true ∧ s.state.gHorloge = s.state.gMinut.instant

instance (s : System) : Decidable (Standing s) := inferInstanceAs (Decidable (_ ∧ _))

/-- KEY2 arms the alarm while the clock is already on its instant. -/
def ArmsOnInstant (s : System) (e : Event) : Prop :=
  e = .key2 ∧ s.state.gMode = .minuterie ∧ s.state.gMinut.alarmActive = false ∧
    s.state.gMinut.running = false ∧ s.state.gHorloge = s.state.gMinut.instant

/-- KEY3 sets the clock on the instant of the armed alarm. -/
def SetsOnInstant (s : System) (e : Event) : Prop :=
  ∃ sw, e = .key3 sw ∧ s.state.gMode = .horloge ∧ s.state.gMinut.running = true ∧
    configTime sw = s.state.gMinut.instant

/-- The comparison of the tick leaves no armed alarm behind on its instant. -/
theorem not_standing_tick (s : System) : ¬ Standing (step s .tick) := by
  by_cases hf : Fires s.state
  · rw [step_tick_of_fires hf]
    intro h
    exact Bool.false_ne_true h.1
  · rw [step_tick_of_not_fires hf]
    intro h
    exact hf ⟨h.1, h.2.symm⟩

theorem armsOnInstant_of_key2 {s : System} (hn : ¬ Standing s) (h : Standing (step s .key2)) :
    ArmsOnInstant s .key2 := by
  rcases step_key2_cases s with ⟨-, hs⟩ | ⟨hm, ha, hs⟩ | ⟨-, hs⟩ <;> rw [hs] at h
  · exact absurd h hn
  · obtain ⟨hr, hi⟩ := h
    exact ⟨rfl, hm, ha, by simpa using hr, hi⟩
  · exact absurd h hn

theorem setsOnInstant_of_key3 {s : System} {sw : UInt16} (hn : ¬ Standing s)
    (h : Standing (step s (.key3 sw))) : SetsOnInstant s (.key3 sw) := by
  rcases step_key3_cases s sw with ⟨hm, hs⟩ | ⟨-, hs⟩ | ⟨-, -, hs⟩ | ⟨-, -, hr, hs⟩ | ⟨-, -, -, hs⟩ <;>
    rw [hs] at h
  · exact ⟨sw, rfl, hm, h⟩
  · exact absurd h hn
  · exact absurd h hn
  · exact absurd (hr.symm.trans h.1) Bool.false_ne_true
  · exact absurd h hn

theorem standing_made {s : System} {e : Event} (hn : ¬ Standing s) (h : Standing (step s e)) :
    ArmsOnInstant s e ∨ SetsOnInstant s e := by
  cases e with
  | tick => exact absurd h (not_standing_tick s)
  | display =>
      rw [Standing, step_display_state] at h
      exact absurd h hn
  | key0 => exact absurd h.1 Bool.false_ne_true
  | key1 => exact absurd h hn
  | key2 =>
      left
      exact armsOnInstant_of_key2 hn h
  | key3 sw =>
      right
      exact setsOnInstant_of_key3 hn h

theorem alarmActive_of_fires {s : System} (h : Fires s.state) :
    (step s .tick).state.gMinut.alarmActive = true := by
  rw [step_tick_of_fires h]

/-- An armed alarm that the clock reaches by a tick fires in that tick. It stands on its instant
only where KEY2 armed it there, or KEY3 set the clock there, and until the next tick. -/
theorem standing_alarm_was_made_standing (cs : List Call) :
    ((run call start cs).state.gMinut.running = true →
      (run call start cs).state.gHorloge.advance = (run call start cs).state.gMinut.instant →
        (call (run call start cs) .updateAllTime1s).state.gMinut.alarmActive = true) ∧
    ¬ Standing (call (run call start cs) .updateAllTime1s) ∧
    (Standing (run call start cs) → ∃ before x after,
      trace step start (events cs) = before ++ x :: after ∧
      (ArmsOnInstant x.1 x.2 ∨ SetsOnInstant x.1 x.2) ∧
      ∀ y ∈ after, Standing y.1 ∧ y.2 ≠ .tick) := by
  refine ⟨?_, not_standing_tick (run call start cs), ?_⟩
  · intro hr hi
    exact alarmActive_of_fires ⟨hr, hi.symm⟩
  · intro h
    rw [run_calls] at h
    obtain ⟨before, x, after, ht, hx, hfx, hall⟩ := exists_last_rise (P := Standing) (by decide) h
    refine ⟨before, x, after, ht, standing_made hx hfx, ?_⟩
    intro y hy
    obtain ⟨hy₁, hy₂⟩ := hall y hy
    refine ⟨hy₁, ?_⟩
    intro htick
    rw [htick] at hy₂
    exact not_standing_tick y.1 hy₂

/-- Sets the clock to 12:00:00, programs 12:00 and arms the alarm within the same second. -/
def armNow : List LoopEvent := [.keys 0x8 384, .keys 0x2 0, .keys 0x2 0, .keys 0x8 384, .keys 0x4 0]

theorem standing_alarm_was_made_standing_by_key2 :
    ∃ before x after, trace step start (events (armNow.flatMap LoopEvent.calls)) = before ++ x :: after ∧
      (ArmsOnInstant x.1 x.2 ∨ SetsOnInstant x.1 x.2) ∧ ∀ y ∈ after, Standing y.1 ∧ y.2 ≠ .tick :=
  (standing_alarm_was_made_standing (armNow.flatMap LoopEvent.calls)).2.2 (by decide)

theorem armed_alarm_left_standing : ¬ ∀ es : List LoopEvent, ¬ Standing (run loopStep start es) := by
  intro h
  exact h armNow (by decide)

end Montre.Firmware
