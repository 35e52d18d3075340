import Montre.Firmware.Alarm
import Montre.Joint.Quartz

namespace Montre.Joint.Quartz

open Montre.Library Montre.Library.Runs Montre.Library.Flow Montre.Abstract Montre.Firmware Montre.Hardware
open Montre.Interrupts (Action advances inUpdate Consistent)

def executed (w : TimedWatch) (c : Cycle) : List Event := c.action.elim [] (Interrupts.executed w.cpu)

def events (w : TimedWatch) (cs : List Cycle) : List Event := (trace step w cs).flatMap fun x => executed x.1 x.2

def commands (w : TimedWatch) (cs : List Cycle) : List (AlarmClock.Action (ZMod 86400)) :=
  actions w.cpu.system (events w cs)

theorem system_step (w : TimedWatch) (c : Cycle) :
    (step w c).cpu.system = run Firmware.step w.cpu.system (executed w c) := by
  obtain ⟨action, lines⟩ := c
  cases action with
  | none => rfl
  | some a => exact Interrupts.step_system w.cpu a

theorem system_run (w : TimedWatch) (cs : List Cycle) :
    (run step w cs).cpu.system = run Firmware.step w.cpu.system (events w cs) :=
  run_project (φ := fun w : TimedWatch => w.cpu.system) system_step w cs

theorem executed_cases (w : TimedWatch) (c : Cycle) : executed w c = [] ∨ ∃ e, executed w c = [e] := by
  obtain ⟨action, lines⟩ := c
  cases action with
  | none => exact .inl rfl
  | some a => exact Interrupts.executed_cases w.cpu a

theorem count_tick_executed (w : TimedWatch) (c : Cycle) : (executed w c).count .tick = seconds w c := by
  obtain ⟨action, lines⟩ := c
  cases action with
  | none => rfl
  | some a =>
      rw [executed, seconds, Option.elim_some, Option.elim_some, advances]
      rcases Interrupts.executed_cases w.cpu a with he | ⟨e, he⟩
      · rw [he]
        rfl
      · by_cases ht : e = .tick <;> simp [he, ht, eq_comm]

theorem countP_isTick_commands (w : TimedWatch) (cs : List Cycle) :
    (commands w cs).countP AlarmClock.Action.isTick = total step seconds w cs := by
  rw [commands, countP_isTick, events, List.count_flatMap, total]
  apply congrArg List.sum
  apply List.map_congr_left
  intro x _
  exact count_tick_executed x.1 x.2

theorem consistent_run (t : NiosSystemTimer) (as : List TimerAccess) (cs : List Cycle) :
    Consistent (run step (started t as) cs).cpu :=
  invariant (I := fun w : TimedWatch => Consistent w.cpu) (fun _ c hw => consistent_step hw c)
    Interrupts.consistent_init cs

/-- The watch on the board refines the alarm clock: its commands are the branches that main executes,
and its ticks the timeouts of the timer, but for those in flight and those that are lost. -/
theorem timed_watch_refines (t : NiosSystemTimer) {as : List TimerAccess} (has : NiosSystemTimer.Initialises as)
    (cs : List Cycle) (h : Meets step Enabled (started t as) cs) :
    abstraction (run step (started t as) cs).cpu.system =
        run AlarmClock.step (abstraction Firmware.start) (commands (started t as) cs) ∧
      NiosSystemTimer.edgesSinceProgrammed as / 50000000 +
          (commands (started t as) cs).countP AlarmClock.Action.isTick + total step lost (started t as) cs +
          inFlight (run step (started t as) cs) =
        (started t as).timer.timeoutOccurred.toNat +
          (NiosSystemTimer.edgesSinceProgrammed as + cs.length) / 50000000 := by
  rw [countP_isTick_commands]
  refine ⟨?_, balance_started t has h⟩
  rw [system_run]
  exact abstraction_run coherent_start (events (started t as) cs)

def pendingTimer : NiosSystemTimer := { NiosSystemTimer.reset with timeoutOccurred := true }

def programming : List TimerAccess := [.write 2 61567, .write 3 762, .write 1 7]

theorem initialises_programming : NiosSystemTimer.Initialises programming := by decide

theorem timed_watch_refines_pending :
    (commands (started pendingTimer programming) served).countP AlarmClock.Action.isTick = 1 := by
  have hbalance := (timed_watch_refines pendingTimer initialises_programming served (by decide)).2
  have hedges : NiosSystemTimer.edgesSinceProgrammed programming = 0 := by decide
  have hlost : total step lost (started pendingTimer programming) served = 0 := by decide
  have hflight : inFlight (run step (started pendingTimer programming) served) = 0 := by decide
  have hto : (started pendingTimer programming).timer.timeoutOccurred.toNat = 1 := by decide
  have hlength : served.length = 4 := rfl
  rw [hedges, hlost, hflight, hto, hlength] at hbalance
  omega

def Ringing (w : TimedWatch) : Prop := w.cpu.system.state.gMinut.alarmActive = true

instance (w : TimedWatch) : Decidable (Ringing w) := inferInstanceAs (Decidable (_ = _))

def GoesOff (w : TimedWatch) (c : Cycle) : Prop := ¬ Ringing w ∧ Ringing (step w c)

instance (w : TimedWatch) (c : Cycle) : Decidable (GoesOff w c) := inferInstanceAs (Decidable (_ ∧ _))

instance (s : System) (e : Event) : Decidable (Firmware.Undisturbed s e) :=
  match e with
  | .tick | .display | .key1 => isTrue trivial
  | .key0 => isFalse id
  | .key2 | .key3 _ => inferInstanceAs (Decidable (_ ≠ _))

/-- Nothing that main executes in this cycle takes the alarm back or changes the time. -/
def Undisturbed (w : TimedWatch) (c : Cycle) : Prop := ∀ e ∈ executed w c, Firmware.Undisturbed w.cpu.system e

instance (w : TimedWatch) (c : Cycle) : Decidable (Undisturbed w c) := inferInstanceAs (Decidable (∀ e ∈ _, _))

theorem goesOff_iff_rings {w : TimedWatch} (hw : Consistent w.cpu) (c : Cycle) : GoesOff w c ↔
    ∃ x ∈ trace Firmware.step w.cpu.system (executed w c),
      AlarmClock.Rings (abstraction x.1) (action x.1 x.2) := by
  rw [GoesOff, Ringing, Ringing, system_step, Bool.not_eq_true]
  rcases executed_cases w c with he | ⟨e, he⟩
  · simp [he]
  · simp only [he, run_cons, run_nil, trace_cons, trace_nil, List.mem_singleton, exists_eq_left,
      rings_abstraction hw.coherent]

theorem exists_goesOff_iff {w : TimedWatch} (hw : Consistent w.cpu) (cs : List Cycle) :
    (∃ x ∈ trace step w cs, GoesOff x.1 x.2) ↔
      ∃ y ∈ trace AlarmClock.step (abstraction w.cpu.system) (commands w cs), AlarmClock.Rings y.1 y.2 := by
  have htrace : trace Firmware.step w.cpu.system (events w cs) =
      (trace step w cs).flatMap fun x => trace Firmware.step x.1.cpu.system (executed x.1 x.2) :=
    trace_project (φ := fun w : TimedWatch => w.cpu.system) system_step w cs
  have hcons : ∀ x ∈ trace step w cs, Consistent x.1.cpu :=
    trace_invariant (I := fun w : TimedWatch => Consistent w.cpu) (fun _ c hw => consistent_step hw c) hw cs
  rw [commands, abstraction_trace hw.coherent, htrace]
  simp only [List.mem_map, List.mem_flatMap]
  constructor
  · rintro ⟨x, hx, hoff⟩
    obtain ⟨y, hy, hr⟩ := (goesOff_iff_rings (hcons x hx) x.2).mp hoff
    exact ⟨_, ⟨y, ⟨x, hx, hy⟩, rfl⟩, hr⟩
  · rintro ⟨-, ⟨y, ⟨x, hx, hy⟩, rfl⟩, hr⟩
    exact ⟨x, hx, (goesOff_iff_rings (hcons x hx) x.2).mpr ⟨y, hy, hr⟩⟩

theorem calm_commands {w : TimedWatch} {cs : List Cycle} (h : Meets step Undisturbed w cs) :
    ∀ a ∈ commands w cs, AlarmClock.Calm a := by
  intro a ha
  obtain ⟨y, hy, rfl⟩ := List.mem_map.mp ha
  have htrace : trace Firmware.step w.cpu.system (events w cs) =
      (trace step w cs).flatMap fun x => trace Firmware.step x.1.cpu.system (executed x.1 x.2) :=
    trace_project (φ := fun w : TimedWatch => w.cpu.system) system_step w cs
  rw [htrace, List.mem_flatMap] at hy
  obtain ⟨x, hx, hy⟩ := hy
  apply calm_of_undisturbed
  rcases executed_cases x.1 x.2 with he | ⟨e, he⟩
  · simp [he] at hy
  · rw [he, trace_cons, trace_nil, List.mem_singleton] at hy
    rw [hy]
    apply h x hx
    simp [he]

/-- The alarm on the board, in cycles of the 50 MHz clock: armed k seconds ahead and left alone, it has
gone off exactly when k timeouts have come in since, but for those lost, none when the processor
serves the timer in time, and those still in flight, three at most. -/
theorem armed_alarm_goes_off_on_cycles (t : NiosSystemTimer) {as : List TimerAccess}
    (has : NiosSystemTimer.Initialises as) (pre cs : List Cycle)
    (h : Meets step Enabled (started t as) (pre ++ cs))
    (hrunning : (run step (started t as) pre).cpu.system.state.gMinut.running = true) {k : ℕ} (hk : 0 < k)
    (hkm : k ≤ 86400) (hmod : (run step (started t as) pre).cpu.system.state.gHorloge.seconds + k ≡
      (run step (started t as) pre).cpu.system.state.gMinut.instant.seconds [MOD 86400])
    (hcalm : Meets step Undisturbed (run step (started t as) pre) cs) :
    ((∃ x ∈ trace step (run step (started t as) pre) cs, GoesOff x.1 x.2) ↔
      (NiosSystemTimer.edgesSinceProgrammed as + pre.length) / 50000000 + k +
          total step lost (run step (started t as) pre) cs + inFlight (run step (started t as) (pre ++ cs)) ≤
        inFlight (run step (started t as) pre) +
          (NiosSystemTimer.edgesSinceProgrammed as + (pre.length + cs.length)) / 50000000) ∧
      (Served (started t as) (pre ++ cs) → total step lost (run step (started t as) pre) cs = 0) ∧
      inFlight (run step (started t as) (pre ++ cs)) ≤ 3 := by
  refine ⟨?_, ?_, inFlight_le _⟩
  · have hcons := consistent_run t as pre
    have hwait := waiting_of_running hcons.coherent hrunning hk hkm hmod
    rw [exists_goesOff_iff hcons, hwait.rings_iff_ticks (calm_commands hcalm), countP_isTick_commands]
    have hwhole := balance_started t has h
    have hbefore := balance_started t has (meets_append.mp h).1
    rw [total_append, total_append, List.length_append] at hwhole
    omega
  · intro hserved
    have hzero := lost_served hserved
    rw [total_append] at hzero
    exact (Nat.add_eq_zero_iff.mp hzero).2

def keyTurn (b : Fin 4) (switches : BitVec 10) : List Cycle :=
  (Action.press b :: List.replicate 4 .keysIsr ++ List.replicate 9 (Action.main switches)).map fun a =>
    ⟨some a, .write 0 0⟩

def keyTurns (turns : List (Fin 4 × BitVec 10)) : List Cycle := turns.flatMap fun x => keyTurn x.1 x.2

theorem armed_alarm_still_waits : ¬ ∃ x ∈ trace step
    (run step (started NiosSystemTimer.reset programming) (keyTurns [(1, 0), (1, 0), (3, 415), (2, 0)]))
    (keyTurn 1 0), GoesOff x.1 x.2 := by
  have hoff := (armed_alarm_goes_off_on_cycles NiosSystemTimer.reset initialises_programming
    (keyTurns [(1, 0), (1, 0), (3, 415), (2, 0)]) (keyTurn 1 0) (by decide +kernel) (by decide +kernel)
    (k := 60) (by decide) (by decide) (by decide +kernel) (by decide +kernel)).1
  rw [hoff]
  decide +kernel

end Montre.Joint.Quartz
