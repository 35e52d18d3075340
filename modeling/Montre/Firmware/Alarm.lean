import Montre.Firmware.Frames

namespace Montre.Firmware

open Montre.Library Montre.Library.Runs Montre.Abstract

def Undisturbed (s : System) : Event → Prop
  | .key0 => False
  | .key2 => s.state.gMode ≠ .minuterie
  | .key3 _ => s.state.gMode ≠ .horloge
  | .tick | .display | .key1 => True

def BellKept (s : System) (e : Event) : Prop :=
  ∀ w ∈ (e.program s.state).2, w.base = .alarmBell0 → w.data = 0

theorem calm_of_undisturbed {s : System} {e : Event} (h : Undisturbed s e) :
    AlarmClock.Calm (action s e) := by
  cases e with
  | tick | display | key1 => trivial
  | key0 => exact h
  | key2 => simp only [action, if_neg h, AlarmClock.Calm]
  | key3 sw =>
      cases hm : s.state.gMode with
      | horloge => exact absurd hm h
      | chrono => simp only [action, hm, AlarmClock.Calm]
      | minuterie =>
          simp only [action, hm]
          split_ifs <;> trivial

theorem action_isTick (s : System) (e : Event) : (action s e).isTick = (e == .tick) := by
  cases e with
  | tick | display | key0 | key1 => rfl
  | key2 => cases hm : s.state.gMode <;> simp [action, hm, AlarmClock.Action.isTick]
  | key3 sw =>
      cases hm : s.state.gMode <;> cases ha : s.state.gMinut.alarmActive <;>
        simp [action, hm, ha, AlarmClock.Action.isTick]

theorem countP_isTick (s : System) (es : List Event) :
    (actions s es).countP AlarmClock.Action.isTick = es.count .tick := by
  induction es generalizing s with
  | nil => rfl
  | cons e es ih =>
      have hc := ih (step s e)
      rw [actions] at hc ⊢
      rw [trace_cons, List.map_cons, List.countP_cons, List.count_cons, hc, action_isTick]

theorem bellKept_of_not_rings {s : System} {e : Event} (hs : Coherent s.state)
    (h : ¬ AlarmClock.Rings (abstraction s) (action s e)) : BellKept s e := by
  cases e with
  | tick =>
      have hn : ¬ Fires s.state := by
        intro hf
        apply h
        exact (AlarmClock.rings_iff _ _).mpr ⟨rfl, (fires_iff hs).mp hf⟩
      simp [BellKept, Event.program, updateAllTime1s_eq, hn]
  | display => cases hm : s.state.gMode <;> simp [BellKept, Event.program, updateDisplay, hm]
  | key0 => simp [BellKept, Event.program, Firmware.key0, flag]
  | key1 => simp [BellKept, Event.program, Firmware.key1]
  | key2 =>
      cases hm : s.state.gMode <;> cases ha : s.state.gMinut.alarmActive <;>
        simp [BellKept, Event.program, Firmware.key2, hm, ha]
  | key3 sw =>
      cases hm : s.state.gMode <;> cases hr : s.state.gMinut.running <;>
        cases ha : s.state.gMinut.alarmActive <;>
          simp [BellKept, Event.program, Firmware.key3, flag, hm, hr, ha]

theorem reaches_iff_modEq {s : System} {k : ℕ} :
    (abstraction s).now + k = (abstraction s).target ↔
      s.state.gHorloge.seconds + k ≡ s.state.gMinut.instant.seconds [MOD 86400] := by
  rw [← ZMod.natCast_eq_natCast_iff, Nat.cast_add]
  rfl

theorem waiting_of_running {s : System} (hs : Coherent s.state) (hr : s.state.gMinut.running = true)
    {k : ℕ} (hk : 0 < k) (hkm : k ≤ 86400)
    (h : s.state.gHorloge.seconds + k ≡ s.state.gMinut.instant.seconds [MOD 86400]) :
    AlarmClock.Waiting (abstraction s) k :=
  ⟨(armed_iff hs.exclusive).mpr hr, hk, hkm, reaches_iff_modEq.mpr h⟩

theorem waiting_run {s : System} (hs : Coherent s.state) {k : ℕ}
    (hw : AlarmClock.Waiting (abstraction s) k) {es : List Event} (he : Meets step Undisturbed s es)
    (hk : es.count .tick < k) :
    AlarmClock.Waiting (abstraction (run step s es)) (k - es.count .tick) ∧
      (abstraction (run step s es)).target = (abstraction s).target ∧ Meets step BellKept s es := by
  have hcalm : ∀ a ∈ actions s es, AlarmClock.Calm a := by
    intro a ha
    obtain ⟨x, hx, rfl⟩ := List.mem_map.mp ha
    exact calm_of_undisturbed (he x hx)
  obtain ⟨hwr, hm⟩ := hw.run hcalm (by rwa [countP_isTick])
  rw [← abstraction_run hs, countP_isTick] at hwr
  refine ⟨hwr, ?_, ?_⟩
  · rw [abstraction_run hs]
    apply (hm.mono fun d a h => h.2).invariant (I := fun d => d.target = (abstraction s).target)
    · intro d a hd hda
      exact hda.trans hd
    · rfl
  · intro x hx
    have hcoh := trace_invariant (I := fun s : System => Coherent s.state) coherent_step hs es x hx
    apply bellKept_of_not_rings hcoh
    refine (hm (abstraction x.1, action x.1 x.2) ?_).1
    rw [abstraction_trace hs]
    exact List.mem_map_of_mem hx

theorem fire_of_waiting_one {s : System} (hs : Coherent s.state)
    (hw : AlarmClock.Waiting (abstraction s) 1) : Fires s.state := by
  obtain ⟨-, hp, ht⟩ := (AlarmClock.rings_iff _ _).mp hw.rings
  exact (fires_iff hs).mpr ⟨hp, ht⟩

/-- An armed alarm fires at the programmed second: k is the distance from the
clock to the programmed time, at most a day, and only the k-th tick fires. -/
theorem armed_alarm_fires_at_instant (pre : List Call)
    (harmed : (run call start pre).state.gMinut.running = true) :
    (∃! k, 0 < k ∧ k ≤ 86400 ∧ (run call start pre).state.gHorloge.seconds + k ≡
      (run call start pre).state.gMinut.instant.seconds [MOD 86400]) ∧
    ∀ k, 0 < k → k ≤ 86400 → (run call start pre).state.gHorloge.seconds + k ≡
        (run call start pre).state.gMinut.instant.seconds [MOD 86400] →
      ∀ cs : List Call, Meets step Undisturbed (run call start pre) (events cs) →
        (events cs).count .tick < k →
        (run call start (pre ++ cs)).state.gMinut.running = true ∧
        (run call start (pre ++ cs)).state.gMinut.alarmActive = false ∧
        (run call start (pre ++ cs)).state.gMinut.instant = (run call start pre).state.gMinut.instant ∧
        Meets step BellKept (run call start pre) (events cs) ∧
        ((events cs).count .tick + 1 = k →
          (run call start (pre ++ cs ++ [.updateAllTime1s])).state.gMinut.alarmActive = true ∧
          (run call start (pre ++ cs ++ [.updateAllTime1s])).state.gMinut.running = false ∧
          (run call start (pre ++ cs ++ [.updateAllTime1s])).state.gMode = .minuterie ∧
          (run call start (pre ++ cs ++ [.updateAllTime1s])).env.ledg = 4 ∧
          ⟨.alarmBell0, 1⟩ ∈ (updateAllTime1s (run call start (pre ++ cs)).state).2) := by
  have hs := coherent_calls pre
  constructor
  · obtain ⟨k, hk, hkm, hr⟩ := AlarmClock.exists_reaches (abstraction (run call start pre)).now
      (abstraction (run call start pre)).target
    refine ⟨k, ⟨hk, hkm, reaches_iff_modEq.mp hr⟩, ?_⟩
    intro j hj
    exact AlarmClock.reaches_unique hj.1 hj.2.1 hk hkm (reaches_iff_modEq.mpr hj.2.2) hr
  · intro k hk hkm hmod cs hcs hticks
    have hcoh := coherent_calls (pre ++ cs)
    have hrun : run call start (pre ++ cs) = run step (run call start pre) (events cs) := by
      rw [run_append, run_calls _ cs]
    obtain ⟨hw, htarget, hbell⟩ := waiting_run hs (waiting_of_running hs harmed hk hkm hmod) hcs hticks
    rw [← hrun] at hw htarget
    have hrunning := (armed_iff hcoh.exclusive).mp hw.armed
    refine ⟨hrunning, hcoh.exclusive hrunning, (Horloge.ofDay_inj hcoh.alarm hs.alarm).mp htarget, hbell, ?_⟩
    rintro rfl
    rw [Nat.add_sub_cancel_left] at hw
    have hfire := fire_of_waiting_one hcoh hw
    simp only [run_snoc, call, Call.program, exec_state, exec_env, updateAllTime1s_eq, if_pos hfire]
    exact ⟨trivial, trivial, trivial, rfl, by simp [flag]⟩

/-- Sets the clock to 12:00:00, programs 12:01 and arms the alarm. -/
def armForNextMinute : List Call :=
  [.handleKeysAndSwitches 0x8 384, .handleKeysAndSwitches 0x2 0, .handleKeysAndSwitches 0x2 0,
    .handleKeysAndSwitches 0x8 385, .handleKeysAndSwitches 0x4 0]

theorem armed_alarm_fires_next_minute :
    (run call start (armForNextMinute ++ List.replicate 59 .updateAllTime1s ++
      [.updateAllTime1s])).state.gMinut.alarmActive = true := by
  have hticks : ∀ x ∈ trace step (run call start armForNextMinute)
      (events (List.replicate 59 .updateAllTime1s)), x.2 = .tick := by decide
  have hcalm : Meets step Undisturbed (run call start armForNextMinute)
      (events (List.replicate 59 .updateAllTime1s)) := by
    intro x hx
    rw [hticks x hx]
    trivial
  have h := (armed_alarm_fires_at_instant armForNextMinute (by decide)).2 60 (by decide) (by decide) (by decide)
    (List.replicate 59 .updateAllTime1s) hcalm (by decide)
  exact (h.2.2.2.2 (by decide)).1

theorem action_eq_toggle {s : System} {e : Event} :
    action s e = .toggle ↔ e = .key2 ∧ s.state.gMode = .minuterie := by
  cases e with
  | tick | display | key0 | key1 => simp [action]
  | key2 => cases hm : s.state.gMode <;> simp [action, hm]
  | key3 sw =>
      cases hm : s.state.gMode <;> cases ha : s.state.gMinut.alarmActive <;> simp [action, hm, ha]

theorem action_releases {s : System} {e : Event}
    (h : action s e = .silence ∨ ∃ t u, action s e = .reset t u) :
    e = .key0 ∨ (∃ sw, e = .key3 sw) ∧ s.state.gMode = .minuterie := by
  cases e with
  | tick | display | key1 => simp [action] at h
  | key0 => exact .inl rfl
  | key2 => cases hm : s.state.gMode <;> simp [action, hm] at h
  | key3 sw =>
      cases hm : s.state.gMode <;> simp [action, hm] at h
      exact .inr ⟨⟨sw, rfl⟩, rfl⟩

theorem rings_abstraction {s : System} (hs : Coherent s.state) (e : Event) :
    AlarmClock.Rings (abstraction s) (action s e) ↔
      s.state.gMinut.alarmActive = false ∧ (step s e).state.gMinut.alarmActive = true := by
  rw [AlarmClock.Rings, ← abstraction_step s e hs]
  simp only [abstraction, ne_eq, ringing_iff, Bool.not_eq_true]

/-- Every firing goes back to its own arming, made with KEY2 in the alarm mode, and
happens at the time programmed then; only KEY0 and KEY3 in the alarm mode end it. -/
theorem one_firing_per_arming (cs : List Call) {before after : List (System × Event)} {x : System × Event}
    (ht : trace step start (events cs) = before ++ x :: after) :
    (x.1.state.gMinut.alarmActive = false → (step x.1 x.2).state.gMinut.alarmActive = true →
      x.2 = .tick ∧ ∃ b y m, before = b ++ y :: m ∧
        y.2 = .key2 ∧ y.1.state.gMode = .minuterie ∧
        y.1.state.gMinut.alarmActive = false ∧ y.1.state.gMinut.running = false ∧
        (∀ z ∈ m, ¬ (z.1.state.gMinut.alarmActive = false ∧
            (step z.1 z.2).state.gMinut.alarmActive = true) ∧
          z.2 ≠ .key0 ∧ ¬ (z.2 = .key2 ∧ z.1.state.gMode = .minuterie)) ∧
        (step x.1 x.2).state.gHorloge = y.1.state.gMinut.instant) ∧
    (x.1.state.gMinut.alarmActive = true → (step x.1 x.2).state.gMinut.alarmActive = false →
      x.2 = .key0 ∨ (∃ sw, x.2 = .key3 sw) ∧ x.1.state.gMode = .minuterie) := by
  have hcoh : ∀ z ∈ trace step start (events cs), Coherent z.1.state :=
    trace_invariant (I := fun s : System => Coherent s.state) coherent_step coherent_start (events cs)
  have hx : Coherent x.1.state := hcoh x (by simp [ht])
  have hmap := abstraction_trace coherent_start (events cs)
  rw [ht, List.map_append, List.map_cons] at hmap
  constructor
  · intro h₀ h₁
    have hr := (rings_abstraction hx x.2).mpr ⟨h₀, h₁⟩
    obtain ⟨b, y, m, hb, hy, hyp, hm, hnow⟩ :=
      AlarmClock.armed_before_ringing (c := abstraction start) (by decide) hmap hr
    obtain ⟨b, rest, rfl, rfl, hrest⟩ := List.map_eq_append_iff.mp hb
    obtain ⟨y, m, rfl, rfl, rfl⟩ := List.map_eq_cons_iff.mp hrest
    have hyc : Coherent y.1.state := hcoh y (by simp [ht])
    have hidle := (idle_iff y.1.state.gMinut).mp hyp
    obtain ⟨hkey, hmode⟩ := action_eq_toggle.mp hy
    refine ⟨?_, b, y, m, rfl, hkey, hmode, hidle.2, hidle.1, ?_, ?_⟩
    · have htick := action_isTick x.1 x.2
      rw [((AlarmClock.rings_iff _ _).mp hr).1] at htick
      exact eq_of_beq htick.symm
    · intro z hz
      obtain ⟨hz₁, hz₂, hz₃⟩ := hm _ (List.mem_map_of_mem hz)
      have hzc : Coherent z.1.state := hcoh z (by simp [ht, hz])
      refine ⟨?_, ?_, ?_⟩
      · intro h
        apply hz₁
        exact (rings_abstraction hzc z.2).mpr h
      · intro he
        apply hz₃ (12 * 3600 + 30 * 60 : ℕ) 0
        simp only [he]
        rfl
      · intro h
        apply hz₂
        exact action_eq_toggle.mpr h
    · rw [← abstraction_step x.1 x.2 hx] at hnow
      exact (Horloge.ofDay_inj (coherent_step x.1 x.2 hx).clock hyc.alarm).mp hnow
  · intro h₁ h₀
    have hf : AlarmClock.Falls (abstraction x.1) (action x.1 x.2) := by
      rw [AlarmClock.Falls, ← abstraction_step x.1 x.2 hx]
      simp only [abstraction, ne_eq, ringing_iff, h₁, h₀, Bool.false_eq_true, not_false_eq_true, and_self]
    exact action_releases ((AlarmClock.falls_iff _ _).mp hf).2

def untilLastSecond : List Call := armForNextMinute ++ List.replicate 59 .updateAllTime1s

theorem one_firing_per_arming_next_minute :
    ∃ b y m, trace step start (events untilLastSecond) = b ++ y :: m ∧ y.2 = .key2 ∧
      (step (run step start (events untilLastSecond)) .tick).state.gHorloge =
        y.1.state.gMinut.instant := by
  have ht : trace step start (events (untilLastSecond ++ [.updateAllTime1s])) =
      trace step start (events untilLastSecond) ++
        (run step start (events untilLastSecond), .tick) :: [] := by
    rw [events, List.flatMap_append]
    exact trace_snoc step start (events untilLastSecond) .tick
  obtain ⟨-, b, y, m, hb, hy, -, -, -, -, hnow⟩ :=
    (one_firing_per_arming _ ht).1 (by decide +kernel) (by decide +kernel)
  dsimp only at hnow
  exact ⟨b, y, m, hb, hy, hnow⟩

end Montre.Firmware
