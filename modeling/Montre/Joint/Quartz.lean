import Montre.Hardware.NiosSystemTimer
import Montre.Interrupts.Deadline

namespace Montre.Joint.Quartz

open Montre.Library Montre.Library.Runs Montre.Library.Flow Montre.Firmware Montre.Hardware
open Montre.Interrupts (Action interrupts overruns drains advances inUpdate Consistent)

structure TimedWatch where
  timer : NiosSystemTimer
  cpu : Interrupts.State
deriving DecidableEq

/-- A clock cycle: what the processor does in it, and the lines of the bus when it does not
select the timer. -/
structure Cycle where
  action : Option Action
  lines : TimerAccess
deriving DecidableEq

/-- After `watch_init` the only access to the timer is the write of STATUS in `timer_isr`. -/
def timerAccess (c : Cycle) : TimerAccess :=
  match c.action with
  | some .timerIsr => .write 0 0
  | _ => { c.lines with chipselect := false }

def step (w : TimedWatch) (c : Cycle) : TimedWatch :=
  ⟨w.timer.clock (timerAccess c), c.action.elim w.cpu (Interrupts.step w.cpu)⟩

def Enabled (w : TimedWatch) (c : Cycle) : Prop :=
  ∀ a ∈ c.action, Interrupts.Enabled w.cpu a ∧ (a = .timerIsr → w.timer.irq = true)

def Steady (w : TimedWatch) (c : Cycle) : Prop := ∀ a ∈ c.action, Interrupts.Steady w.cpu a

instance (w : TimedWatch) (c : Cycle) : Decidable (Enabled w c) := inferInstanceAs (Decidable (∀ a ∈ _, _))

instance (w : TimedWatch) (c : Cycle) : Decidable (Steady w c) := inferInstanceAs (Decidable (∀ a ∈ _, _))

def seconds (w : TimedWatch) (c : Cycle) : ℕ := c.action.elim 0 fun a => (advances w.cpu a).toNat

/-- The timeouts that no second of the clock answers for: merged in TO, or in the flag of `timer_isr`. -/
def lost (w : TimedWatch) (c : Cycle) : ℕ :=
  (w.timer.misses (timerAccess c)).toNat + c.action.elim 0 fun a => (overruns w.cpu a).toNat

/-- The timeouts on their way to the clock: in TO, in the flag, or in the call about to be made. -/
def inFlight (w : TimedWatch) : ℕ :=
  w.timer.timeoutOccurred.toNat + w.cpu.tick1sFlag.toNat + (inUpdate w.cpu).toNat

theorem inFlight_le (w : TimedWatch) : inFlight w ≤ 3 := by
  have hto := Bool.toNat_le w.timer.timeoutOccurred
  have hflag := Bool.toNat_le w.cpu.tick1sFlag
  have hcall := Bool.toNat_le (inUpdate w.cpu)
  rw [inFlight]
  omega

theorem spares_timerAccess (c : Cycle) : (timerAccess c).Spares := by
  unfold timerAccess
  split
  · exact ⟨rfl, rfl, rfl⟩
  · exact ⟨rfl, rfl, rfl⟩

theorem acknowledges_iff {w : TimedWatch} {c : Cycle} (h : Enabled w c) :
    w.timer.acknowledges (timerAccess c) = c.action.elim false interrupts := by
  obtain ⟨action, lines⟩ := c
  cases action with
  | none => rfl
  | some a =>
      cases a with
      | timerIsr =>
          have hirq := (h .timerIsr rfl).2 rfl
          rw [NiosSystemTimer.irq, Bool.and_eq_true] at hirq
          exact hirq.1
      | press b | keysIsr | main switches => rfl

theorem inFlight_step {w : TimedWatch} (hw : Consistent w.cpu) {c : Cycle} (h : Enabled w c) :
    inFlight w + w.timer.timeoutEvent.toNat = seconds w c + lost w c + inFlight (step w c) := by
  have htimer := w.timer.timeoutOccurred_clock (timerAccess c)
  rw [acknowledges_iff h] at htimer
  obtain ⟨action, lines⟩ := c
  cases action with
  | none =>
      simp only [inFlight, seconds, lost, step, Option.elim_none, Bool.toNat_false] at htimer ⊢
      omega
  | some a =>
      have hflag := Interrupts.tick1sFlag_step hw a
      have hcall := Interrupts.inUpdate_step hw a
      simp only [inFlight, seconds, lost, step, Option.elim_some] at htimer ⊢
      omega

theorem consistent_step {w : TimedWatch} (hw : Consistent w.cpu) (c : Cycle) : Consistent (step w c).cpu := by
  obtain ⟨action, lines⟩ := c
  cases action with
  | none => exact hw
  | some a => exact Interrupts.consistent_step w.cpu a hw

theorem timeouts_run (w : TimedWatch) (cs : List Cycle) :
    total step (fun w _ => w.timer.timeoutEvent.toNat) w cs = w.timer.timeouts (cs.map timerAccess) := by
  induction cs generalizing w with
  | nil => rfl
  | cons c cs ih => rw [total_cons, ih, NiosSystemTimer.timeouts, NiosSystemTimer.timeouts, List.map_cons, total_cons, step]

/-- Each timeout has moved the clock on by a second, is on its way to it, or is lost. -/
theorem timeouts_balance {w : TimedWatch} (hw : Consistent w.cpu) {cs : List Cycle} (h : Meets step Enabled w cs) :
    inFlight w + w.timer.timeouts (cs.map timerAccess) =
      total step seconds w cs + total step lost w cs + inFlight (run step w cs) := by
  rw [← timeouts_run, ← total_add]
  apply conserved (I := fun w => Consistent w.cpu) (C := Enabled) _ _ w cs hw h
  · intro v c hv _
    exact consistent_step hv c
  · intro v c hv hc
    exact inFlight_step hv hc

theorem ofDay_step {w : TimedWatch} (hw : Consistent w.cpu) {c : Cycle} (h : Steady w c) :
    (step w c).cpu.system.state.gHorloge.ofDay = w.cpu.system.state.gHorloge.ofDay + (seconds w c : ℕ) := by
  obtain ⟨action, lines⟩ := c
  cases action with
  | none => exact (add_zero _).symm
  | some a => exact Interrupts.ofDay_steady hw (h a rfl)

theorem ofDay_run {w : TimedWatch} (hw : Consistent w.cpu) {cs : List Cycle} (h : Meets step Steady w cs) :
    (run step w cs).cpu.system.state.gHorloge.ofDay =
      w.cpu.system.state.gHorloge.ofDay + (total step seconds w cs : ℕ) := by
  induction cs generalizing w with
  | nil => exact (add_zero _).symm
  | cons c cs ih =>
      obtain ⟨hc, hcs⟩ := meets_cons.mp h
      rw [run_cons, ih (consistent_step hw c) hcs, ofDay_step hw hc, total_cons, Nat.cast_add, add_assoc]

/-- The board when `main` enters its loop, the accesses as having gone to the timer before. -/
def started (t : NiosSystemTimer) (as : List TimerAccess) : TimedWatch :=
  ⟨run NiosSystemTimer.clock t as, Interrupts.init⟩

theorem timeouts_started (t : NiosSystemTimer) {as : List TimerAccess} (has : NiosSystemTimer.Initialises as)
    (cs : List Cycle) :
    NiosSystemTimer.edgesSinceProgrammed as / 50000000 + (started t as).timer.timeouts (cs.map timerAccess) =
      (NiosSystemTimer.edgesSinceProgrammed as + cs.length) / 50000000 := by
  have hspares : ∀ a ∈ cs.map timerAccess, a.Spares := by
    intro a ha
    obtain ⟨c, -, rfl⟩ := List.mem_map.mp ha
    exact spares_timerAccess c
  have hcounting := (NiosSystemTimer.counting_of_initialises t has).1
  have hticks := NiosSystemTimer.timeouts_counting (by decide) hcounting hspares
  rwa [List.length_map] at hticks

theorem balance_started (t : NiosSystemTimer) {as : List TimerAccess} (has : NiosSystemTimer.Initialises as)
    {cs : List Cycle} (h : Meets step Enabled (started t as) cs) :
    NiosSystemTimer.edgesSinceProgrammed as / 50000000 + total step seconds (started t as) cs +
        total step lost (started t as) cs + inFlight (run step (started t as) cs) =
      (started t as).timer.timeoutOccurred.toNat +
        (NiosSystemTimer.edgesSinceProgrammed as + cs.length) / 50000000 := by
  have hbalance := timeouts_balance Interrupts.consistent_init h
  have hticks := timeouts_started t has cs
  have hfirst : inFlight (started t as) = (started t as).timer.timeoutOccurred.toNat := rfl
  omega

theorem seconds_run {w : TimedWatch} (hw : Consistent w.cpu) {cs : List Cycle} (h : Meets step Steady w cs) :
    (run step w cs).cpu.system.state.gHorloge.seconds =
      (w.cpu.system.state.gHorloge.seconds + total step seconds w cs) % 86400 := by
  have hend : Consistent (run step w cs).cpu :=
    invariant (I := fun w : TimedWatch => Consistent w.cpu) (fun _ c hw => consistent_step hw c) hw cs
  have hday := ofDay_run hw h
  simp only [Horloge.ofDay, ← Nat.cast_add] at hday
  have hmod := (ZMod.natCast_eq_natCast_iff' _ _ _).mp hday
  rwa [Nat.mod_eq_of_lt hend.coherent.clock.seconds_lt] at hmod

theorem trace_cpu (w : TimedWatch) (cs : List Cycle) :
    trace Interrupts.step w.cpu (cs.filterMap Cycle.action) =
      (trace step w cs).filterMap fun x => x.2.action.map fun a => (x.1.cpu, a) := by
  induction cs generalizing w with
  | nil => rfl
  | cons c cs ih =>
      obtain ⟨action, lines⟩ := c
      have hrest := ih (step w ⟨action, lines⟩)
      cases action with
      | none => exact hrest
      | some a =>
          rw [trace_cons, List.filterMap_cons, List.filterMap_cons]
          exact congrArg ((w.cpu, a) :: ·) hrest

structure Served (w : TimedWatch) (cs : List Cycle) : Prop where
  acknowledged : Meets step (fun w c => w.timer.misses (timerAccess c) = false) w cs
  spaced : Interrupts.Spaced 15 (cs.filterMap Cycle.action)

theorem lost_served {t : NiosSystemTimer} {as : List TimerAccess} {cs : List Cycle}
    (h : Served (started t as) cs) : total step lost (started t as) cs = 0 := by
  rw [total_eq_zero_iff]
  have hno := Interrupts.no_overrun_of_spaced h.spaced
  intro x hx
  have hacknowledged := h.acknowledged x hx
  rw [lost, hacknowledged]
  cases ha : x.2.action with
  | none => rfl
  | some a =>
      have hmem : (x.1.cpu, a) ∈ trace Interrupts.step (started t as).cpu (cs.filterMap Cycle.action) := by
        rw [trace_cpu, List.mem_filterMap]
        exact ⟨x, hx, by rw [ha]; rfl⟩
      have hover := hno _ hmem
      rw [Option.elim_some, hover]
      rfl

/-- From the 50 MHz clock to the time of day. While nothing sets it, the clock gains one second for
each full second of cycles, but for at most three in flight and those that are lost; and none is lost
when the processor serves the timer in time. -/
theorem clock_counts_cycles (t : NiosSystemTimer) {as : List TimerAccess} (has : NiosSystemTimer.Initialises as)
    (cs : List Cycle) (h : Meets step Enabled (started t as) cs) (hsteady : Meets step Steady (started t as) cs) :
    (run step (started t as) cs).cpu.system.state.gHorloge.seconds =
        (12 * 3600 + 30 * 60 + total step seconds (started t as) cs) % 86400 ∧
      NiosSystemTimer.edgesSinceProgrammed as / 50000000 + total step seconds (started t as) cs +
          total step lost (started t as) cs + inFlight (run step (started t as) cs) =
        (started t as).timer.timeoutOccurred.toNat +
          (NiosSystemTimer.edgesSinceProgrammed as + cs.length) / 50000000 ∧
      inFlight (run step (started t as) cs) ≤ 3 ∧
      (Served (started t as) cs → total step lost (started t as) cs = 0) := by
  have hinit : Consistent (started t as).cpu := Interrupts.consistent_init
  refine ⟨?_, balance_started t has h, inFlight_le _, lost_served⟩
  have hseconds := seconds_run hinit hsteady
  have hstart : Interrupts.init.system.state.gHorloge.seconds = 12 * 3600 + 30 * 60 := by decide
  rw [show (started t as).cpu = Interrupts.init from rfl, hstart] at hseconds
  exact hseconds

def served : List Cycle := (Action.timerIsr :: List.replicate 3 (.main 0)).map fun a => ⟨some a, .write 2 0⟩

-- a timeout that was pending when the watch started
theorem clock_counts_pending :
    (run step (started { NiosSystemTimer.reset with timeoutOccurred := true }
      [.write 2 61567, .write 3 762, .write 1 7]) served).cpu.system.state.gHorloge.seconds = 45001 := by
  have hinit : NiosSystemTimer.Initialises [.write 2 61567, .write 3 762, .write 1 7] := by decide
  have hcounts := (clock_counts_cycles { NiosSystemTimer.reset with timeoutOccurred := true } hinit served
    (by decide) (by decide)).1
  rw [hcounts]
  decide

end Montre.Joint.Quartz
