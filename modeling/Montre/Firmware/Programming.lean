import Montre.Firmware.Frames

namespace Montre.Firmware

open Montre.Library Montre.Library.Runs

def keyCall (k : UInt8 × BitVec 10) : Call := .handleKeysAndSwitches k.1 k.2

structure ArmedAt (s : System) (h m : ℕ) : Prop where
  heures : s.state.gMinut.heures.toNat = h
  minutes : s.state.gMinut.minutes.toNat = m
  secondes : s.state.gMinut.secondes = 0
  running : s.state.gMinut.running = true

/-- The five switches SW[4:0] bound every minute that the alarm is ever programmed with. -/
def FiveBits (s : System) : Prop := s.state.gMinut.minutes.toNat < 32

theorem fiveBits_start : FiveBits start := Nat.zero_lt_succ 31

theorem fiveBits_step (s : System) (e : Event) (h : FiveBits s) : FiveBits (step s e) := by
  cases e with
  | tick =>
      by_cases hf : Fires s.state
      · rwa [step_tick_of_fires hf]
      · rwa [step_tick_of_not_fires hf]
  | display => rwa [FiveBits, step_display_state]
  | key0 => exact fiveBits_start
  | key1 => exact h
  | key2 =>
      rcases step_key2_cases s with ⟨-, hs⟩ | ⟨-, -, hs⟩ | ⟨-, hs⟩
      · rwa [hs]
      · rwa [hs]
      · rwa [hs]
  | key3 sw =>
      rcases step_key3_cases s sw with ⟨-, hs⟩ | ⟨-, hs⟩ | ⟨-, -, hs⟩ | ⟨-, -, -, hs⟩ | ⟨-, -, -, hs⟩
      · rwa [hs]
      · rwa [hs]
      · rwa [hs]
      · rw [hs, FiveBits, configMinutes_toNat]
        exact Nat.mod_lt _ (by decide)
      · rwa [hs]

theorem fiveBits_calls (cs : List Call) : FiveBits (run call start cs) := by
  rw [run_calls]
  exact invariant (I := FiveBits) fiveBits_step fiveBits_start (events cs)

def key1Call : UInt8 × BitVec 10 := (0x2, 0)
def key2Call : UInt8 × BitVec 10 := (0x4, 0)
def key3Call (h m : ℕ) : UInt8 × BitVec 10 := (0x8, BitVec.ofNat 10 (32 * h + m))

theorem call_key1 (s : System) : call s (keyCall key1Call) = step s .key1 := call_eq_run s _

theorem call_key2 (s : System) : call s (keyCall key2Call) = step s .key2 := call_eq_run s _

theorem call_key3 (s : System) (h m : ℕ) : call s (keyCall (key3Call h m)) =
    step s (.key3 (readSwitches (BitVec.ofNat 10 (32 * h + m)))) := by
  have hkey (sw : UInt16) : keyEvents 0x8 sw = [.key3 sw] := rfl
  rw [call_eq_run, keyCall, key3Call, Call.events, hkey, run_cons, run_nil]

def toMinuterie : WatchMode → List (UInt8 × BitVec 10)
  | .horloge => [key1Call, key1Call]
  | .chrono => [key1Call]
  | .minuterie => []

/-- The alarm and the clock are as they were, and the alarm mode is selected. -/
structure Selected (s t : System) : Prop where
  mode : t.state.gMode = .minuterie
  alarm : t.state.gMinut = s.state.gMinut
  clock : t.state.gHorloge = s.state.gHorloge

theorem selected_toMinuterie (s : System) :
    Selected s (run call s ((toMinuterie s.state.gMode).map keyCall)) := by
  cases hm : s.state.gMode <;>
    simp only [toMinuterie, List.map_cons, List.map_nil, run_cons, run_nil, call_key1]
  · constructor <;> simp [hm, WatchMode.next]
  · constructor <;> simp [hm, WatchMode.next]
  · exact ⟨hm, rfl, rfl⟩

theorem key3Call_switches {h m : ℕ} (hh : h < 24) (hm : m < 32) :
    (configTime (readSwitches (BitVec.ofNat 10 (32 * h + m)))).heures.toNat = h ∧
      (configTime (readSwitches (BitVec.ofNat 10 (32 * h + m)))).minutes.toNat = m := by
  have hsw : (readSwitches (BitVec.ofNat 10 (32 * h + m))).toNat = 32 * h + m := by
    simp [readSwitches, UInt16.toNat]
    omega
  simp only [configTime, configHeures_toNat, configMinutes_toNat, hsw]
  constructor
  · rw [if_pos (by omega)]
    omega
  · omega

/-- In the alarm mode with a disarmed alarm, KEY3 and KEY2 program and arm it. -/
theorem armedAt_of_disarmed {s : System} (hmode : s.state.gMode = .minuterie)
    (ha : s.state.gMinut.alarmActive = false) (hr : s.state.gMinut.running = false) {h m : ℕ}
    (hh : h < 24) (hm : m < 32) :
    ArmedAt (run call s ([key3Call h m, key2Call].map keyCall)) h m ∧
      (run call s ([key3Call h m, key2Call].map keyCall)).state.gHorloge = s.state.gHorloge := by
  obtain ⟨hheures, hminutes⟩ := key3Call_switches hh hm
  simp only [List.map_cons, List.map_nil, run_cons, run_nil, call_key3, call_key2]
  generalize readSwitches (BitVec.ofNat 10 (32 * h + m)) = sw at hheures hminutes ⊢
  have hprogram : step s (.key3 sw) = _ := step_key3_programs hmode ha hr
  have harm := step_key2_minuterie (s := step s (.key3 sw)) (by rwa [hprogram]) (by rwa [hprogram])
  rw [harm, hprogram]
  refine ⟨⟨hheures, hminutes, rfl, ?_⟩, rfl⟩
  simp [hr]

theorem armedAt_of_selected {s : System} (hmode : s.state.gMode = .minuterie)
    (ha : s.state.gMinut.alarmActive = false) {h m : ℕ} (hh : h < 24) (hm : m < 32) :
    ∃ ks : List (UInt8 × BitVec 10), ArmedAt (run call s (ks.map keyCall)) h m ∧
      (run call s (ks.map keyCall)).state.gHorloge = s.state.gHorloge := by
  cases hr : s.state.gMinut.running with
  | false => exact ⟨_, armedAt_of_disarmed hmode ha hr hh hm⟩
  | true =>
      have hdisarm := step_key2_minuterie hmode ha
      have harm := armedAt_of_disarmed (s := step s .key2) (by rw [hdisarm]; exact hmode)
        (by rw [hdisarm]; exact ha) (by simp [hdisarm, hr]) hh hm
      refine ⟨key2Call :: [key3Call h m, key2Call], ?_⟩
      rw [List.map_cons, run_cons, call_key2]
      rw [step_key2_gHorloge] at harm
      exact harm

/-- From every state with a silent alarm, the keys can program and arm exactly the times of day
whose minute fits in SW[4:0], without touching the clock. -/
theorem alarm_programmable_below_32 (cs : List Call)
    (hidle : (run call start cs).state.gMinut.alarmActive = false) {h : ℕ} (hh : h < 24) (m : ℕ) :
    (m < 32 → ∃ ks : List (UInt8 × BitVec 10),
      ArmedAt (run call (run call start cs) (ks.map keyCall)) h m ∧
      (run call (run call start cs) (ks.map keyCall)).state.gHorloge =
        (run call start cs).state.gHorloge) ∧
    (32 ≤ m → ∀ ks : List (UInt8 × BitVec 10),
      ¬ ArmedAt (run call (run call start cs) (ks.map keyCall)) h m) := by
  constructor
  · intro hm
    obtain ⟨hmode, halarm, hclock⟩ := selected_toMinuterie (run call start cs)
    rw [← halarm] at hidle
    obtain ⟨ks, harmed, hkept⟩ := armedAt_of_selected hmode hidle hh hm
    refine ⟨toMinuterie (run call start cs).state.gMode ++ ks, ?_⟩
    rw [List.map_append, run_append]
    exact ⟨harmed, hkept.trans hclock⟩
  · intro hm ks harmed
    have hbits := fiveBits_calls (cs ++ ks.map keyCall)
    rw [FiveBits, run_append, harmed.minutes] at hbits
    omega

theorem alarm_programmable_below_32_quarter_past_seven :
    ∃ ks : List (UInt8 × BitVec 10), ArmedAt (run call start (ks.map keyCall)) 7 15 := by
  obtain ⟨ks, harmed, -⟩ := (alarm_programmable_below_32 [] rfl (by decide : 7 < 24) 15).1 (by decide)
  exact ⟨ks, harmed⟩

theorem alarm_not_programmable_half_past_seven :
    ¬ ∀ (cs : List Call) (h m : ℕ), (run call start cs).state.gMinut.alarmActive = false →
      h < 24 → m < 60 → ∃ ks : List (UInt8 × BitVec 10),
        ArmedAt (run call (run call start cs) (ks.map keyCall)) h m := by
  intro h
  obtain ⟨ks, harmed⟩ := h [] 7 45 rfl (by decide) (by decide)
  have hminutes : (run call start (ks.map keyCall)).state.gMinut.minutes.toNat = 45 := harmed.minutes
  have hbits := fiveBits_calls (ks.map keyCall)
  rw [FiveBits, hminutes] at hbits
  omega

end Montre.Firmware
