import Montre.Firmware.Alarm

namespace Montre.Firmware

open Montre.Library Montre.Library.Runs

def Silent (s : System) : Prop := s.state.gMinut.alarmActive = false ∧ s.env.alarmBell0 = 0

theorem silent_key0 (s : System) : Silent (step s .key0) := ⟨rfl, rfl⟩

theorem silent_key1 {s : System} (h : Silent s) : Silent (step s .key1) := h

theorem silent_key2 {s : System} (h : Silent s) : Silent (step s .key2) := by
  simpa [Silent] using h

theorem silent_key3 {s : System} (h : Silent s) (sw : UInt16) : Silent (step s (.key3 sw)) := by
  obtain ⟨ha, hb⟩ := h
  rcases step_key3_cases s sw with ⟨-, hs⟩ | ⟨-, hs⟩ | ⟨-, -, hs⟩ | ⟨-, -, -, hs⟩ | ⟨-, -, -, hs⟩ <;> rw [hs]
  · exact ⟨ha, hb⟩
  · exact ⟨ha, hb⟩
  · exact ⟨rfl, rfl⟩
  · exact ⟨ha, hb⟩
  · exact ⟨ha, hb⟩

theorem silent_beforeKey3 (s : System) {rising : UInt8} (h : rising &&& 0x1 ≠ 0) :
    Silent (run step s (beforeKey3 rising)) := by
  simp only [beforeKey3, h, ne_eq, not_false_eq_true, if_true, run_append]
  split_ifs
  · exact silent_key2 (silent_key0 s)
  · exact silent_key0 s
  · exact silent_key2 (silent_key1 (silent_key0 s))
  · exact silent_key1 (silent_key0 s)

theorem beforeKey3_frame (s : System) {rising : UInt8} (h : rising &&& 0x1 = 0) :
    (run step s (beforeKey3 rising)).state.gMinut.alarmActive = s.state.gMinut.alarmActive ∧
      (run step s (beforeKey3 rising)).state.gHorloge = s.state.gHorloge := by
  simp only [beforeKey3, h, ne_eq, not_true_eq_false, if_false, run_append]
  split_ifs <;> simp

theorem key3_ringing {s : System} (h : s.state.gMinut.alarmActive = true) (sw : UInt16) :
    (Silent (step s (.key3 sw)) ↔ s.state.gMode = .minuterie) ∧
      (s.state.gMode ≠ .horloge → (step s (.key3 sw)).state.gHorloge = s.state.gHorloge) := by
  cases hm : s.state.gMode with
  | horloge => simp [step_key3_horloge hm, Silent, h]
  | chrono => simp [step_key3_chrono hm, Silent, h]
  | minuterie => simp [step_key3_ringing hm h, Silent]

/-- KEY3 silences a ringing alarm exactly when its branch is reached in the alarm
mode, or the same mask resets the watch. -/
theorem key3_silences_iff (cs : List Call) (rising : UInt8) (switches : BitVec 10)
    (hring : (run call start cs).state.gMinut.alarmActive = true) (hkey : rising &&& 0x8 ≠ 0) :
    (((call (run call start cs) (.handleKeysAndSwitches rising switches)).state.gMinut.alarmActive = false ∧
        (call (run call start cs) (.handleKeysAndSwitches rising switches)).env.alarmBell0 = 0) ↔
      rising &&& 0x1 ≠ 0 ∨ modeAtKey3 rising (run call start cs).state.gMode = .minuterie) ∧
    (rising &&& 0x1 = 0 → modeAtKey3 rising (run call start cs).state.gMode ≠ .horloge →
      (call (run call start cs) (.handleKeysAndSwitches rising switches)).state.gHorloge =
        (run call start cs).state.gHorloge) := by
  generalize run call start cs = s at hring ⊢
  rw [call_eq_run, Call.events, keyEvents_of_key3 hkey, run_snoc, ← gMode_beforeKey3]
  change (Silent _ ↔ _) ∧ _
  by_cases h0 : rising &&& 0x1 = 0
  · obtain ⟨ha, hc⟩ := beforeKey3_frame s h0
    obtain ⟨hs, hf⟩ := key3_ringing (ha.trans hring) (readSwitches switches)
    constructor
    · rw [hs]
      simp [h0]
    · intro _ hm
      exact (hf hm).trans hc
  · constructor
    · have hsilent := silent_key3 (silent_beforeKey3 s h0) (readSwitches switches)
      exact iff_of_true hsilent (.inl h0)
    · intro h
      exact absurd h h0

def ringingInHorloge : List Call :=
  untilLastSecond ++ [.updateAllTime1s, .handleKeysAndSwitches 0x2 0]

theorem key3_silences_iff_in_minuterie :
    (call (run call start (untilLastSecond ++ [.updateAllTime1s]))
      (.handleKeysAndSwitches 0x8 0)).state.gMinut.alarmActive = false := by
  have h := key3_silences_iff (untilLastSecond ++ [.updateAllTime1s]) 0x8 0 (by decide +kernel) (by decide)
  have hmode : modeAtKey3 0x8 (run call start (untilLastSecond ++ [.updateAllTime1s])).state.gMode =
      .minuterie := by decide +kernel
  exact (h.1.mpr (.inr hmode)).1

theorem key3_keeps_ringing_in_horloge :
    ¬ ∀ (cs : List Call) (rising : UInt8) (switches : BitVec 10),
      (run call start cs).state.gMinut.alarmActive = true → rising &&& 0x8 ≠ 0 →
        (call (run call start cs) (.handleKeysAndSwitches rising switches)).state.gMinut.alarmActive = false ∧
        (call (run call start cs) (.handleKeysAndSwitches rising switches)).env.alarmBell0 = 0 ∧
        (rising &&& 0x1 = 0 →
          (call (run call start cs) (.handleKeysAndSwitches rising switches)).state.gHorloge =
            (run call start cs).state.gHorloge) := by
  intro h
  have hstill : (call (run call start ringingInHorloge)
      (.handleKeysAndSwitches 0x8 0)).state.gMinut.alarmActive = true := by decide +kernel
  have hsilent := (h ringingInHorloge 0x8 0 (by decide +kernel) (by decide)).1
  exact Bool.false_ne_true (hsilent.symm.trans hstill)

end Montre.Firmware
