import Montre.Firmware.Timekeeping
import Montre.Interrupts.Machine

namespace Montre.Interrupts

open Montre.Library Montre.Library.Runs Montre.Firmware

def interrupts : Action → Bool
  | .timerIsr => true
  | .press _ | .keysIsr | .main _ => false

def drains (s : State) : Action → Bool
  | .main _ => decide (s.pc = .clearTick)
  | .press _ | .keysIsr | .timerIsr => false

/-- The timer interrupts while its previous tick is still flagged. -/
def overruns (s : State) (a : Action) : Bool := interrupts a && s.tick1sFlag

def executed (s : State) : Action → List Event
  | .main _ => match s.pc with
    | .updateAllTime1s => [.tick]
    | .updateDisplay => [.display]
    | .branches es => es.take 1
    | _ => []
  | .press _ | .keysIsr | .timerIsr => []

def advances (s : State) (a : Action) : Bool := decide (.tick ∈ executed s a)

def Steady (s : State) (a : Action) : Prop := ∀ e ∈ executed s a, clockSet s.system e = none

instance (s : State) (a : Action) : Decidable (Steady s a) :=
  inferInstanceAs (Decidable (∀ e ∈ executed s a, _))

def Drained (s : State) : Prop := s.tick1sFlag = false ∧ s.pc ≠ .updateAllTime1s

instance (s : State) : Decidable (Drained s) := inferInstanceAs (Decidable (_ ∧ _))

def times (p : State → Action → Bool) (s : State) (as : List Action) : ℕ :=
  (trace step s as).countP fun x => p x.1 x.2

theorem times_cons (p : State → Action → Bool) (s : State) (a : Action) (as : List Action) :
    times p s (a :: as) = times p (step s a) as + (p s a).toNat := by
  rw [times, times, trace_cons, List.countP_cons]
  cases p s a <;> rfl

theorem countP_interrupts_cons (a : Action) (as : List Action) :
    (a :: as).countP interrupts = as.countP interrupts + (interrupts a).toNat := by
  rw [List.countP_cons]
  cases interrupts a <;> rfl

structure Consistent (s : State) : Prop where
  flagged : s.pc = .clearTick → s.tick1sFlag = true
  pending : ∀ es, s.pc = .branches es → Event.tick ∉ es
  coherent : Coherent s.system.state

theorem consistent_init : Consistent init := by
  constructor
  · intro h
    simp [init] at h
  · intro es h
    simp [init] at h
  · exact coherent_start

theorem tick_notMem_keyEvents (rising : UInt8) (sw : UInt16) : Event.tick ∉ keyEvents rising sw := by
  simp only [keyEvents, List.mem_append]
  split_ifs <;> simp

theorem pending_main {s : State} (h : ∀ es, s.pc = .branches es → Event.tick ∉ es) (switches : BitVec 10)
    {es : List Event} (hes : (stepMain s switches).pc = .branches es) : Event.tick ∉ es := by
  cases hp : s.pc with
  | printRising rising sw =>
      simp only [stepMain, hp, Pc.branches.injEq] at hes
      rw [← hes]
      exact tick_notMem_keyEvents rising sw
  | branches fs =>
      cases fs with
      | nil => simp [stepMain, hp] at hes
      | cons e fs =>
          simp only [stepMain, hp, Pc.branches.injEq] at hes
          rw [← hes]
          intro hmem
          apply h (e :: fs) hp
          exact List.mem_cons_of_mem e hmem
  | testTick | testKeys =>
      simp only [stepMain, hp] at hes
      split_ifs at hes
  | clearTick | updateAllTime1s | updateDisplay | clearKeys | readRising | clearRising rising
  | readSwitches rising => simp [stepMain, hp] at hes

theorem step_system (s : State) (a : Action) :
    (step s a).system = run Firmware.step s.system (executed s a) := by
  cases a with
  | press b | timerIsr => rfl
  | keysIsr => cases hk : s.keysIsr <;> simp [step, stepKeysIsr, hk, executed]
  | main switches =>
      cases hp : s.pc with
      | branches es => cases es <;> simp [step, stepMain, hp, executed]
      | testTick | testKeys | clearTick | updateAllTime1s | updateDisplay | clearKeys | readRising
      | clearRising rising | readSwitches rising | printRising rising sw =>
          simp [step, stepMain, hp, executed]

theorem consistent_step (s : State) (a : Action) (h : Consistent s) : Consistent (step s a) := by
  obtain ⟨hflag, hpend, hcoh⟩ := h
  have hsystem : Coherent (step s a).system.state := by
    rw [step_system]
    exact Runs.invariant (I := fun s : System => Coherent s.state) coherent_step hcoh _
  cases a with
  | press b => exact ⟨hflag, hpend, hsystem⟩
  | keysIsr => cases hk : s.keysIsr <;> simp only [step, stepKeysIsr, hk] <;> exact ⟨hflag, hpend, hcoh⟩
  | timerIsr => exact ⟨fun _ => rfl, hpend, hsystem⟩
  | main switches =>
      refine ⟨?_, ?_, hsystem⟩
      · intro hpc
        obtain ⟨hp, hf⟩ := (stepMain_clearTick s switches).mp hpc
        simp [step, stepMain_tick1sFlag, hp, hf]
      · intro es hes
        exact pending_main hpend switches hes

/-- Only the timer raises the flag, and only main clears it. -/
theorem tick1sFlag_step {s : State} (h : Consistent s) (a : Action) :
    s.tick1sFlag.toNat + (interrupts a).toNat =
      (drains s a).toNat + (step s a).tick1sFlag.toNat + (overruns s a).toNat := by
  cases a with
  | press b => simp [step, drains, overruns, interrupts]
  | keysIsr => cases hk : s.keysIsr <;> simp [step, stepKeysIsr, hk, drains, overruns, interrupts]
  | timerIsr => cases hf : s.tick1sFlag <;> simp [step, drains, overruns, interrupts, hf]
  | main switches =>
      by_cases hp : s.pc = .clearTick
      · simp [step, stepMain_tick1sFlag, hp, h.flagged hp, drains, overruns, interrupts]
      · simp [step, stepMain_tick1sFlag, hp, drains, overruns, interrupts]

/-- Every timer interrupt is drained, still flagged, or lost to an overrun. -/
theorem timer_balance {s : State} (h : Consistent s) (as : List Action) :
    s.tick1sFlag.toNat + as.countP interrupts =
      times drains s as + (run step s as).tick1sFlag.toNat + times overruns s as := by
  induction as generalizing s with
  | nil => simp [times]
  | cons a as ih =>
      have hrest := ih (consistent_step s a h)
      have hstep := tick1sFlag_step h a
      rw [countP_interrupts_cons, times_cons, times_cons, run_cons]
      omega

def inUpdate (s : State) : Bool := decide (s.pc = .updateAllTime1s)

theorem advances_main {s : State} (h : Consistent s) (switches : BitVec 10) :
    advances s (.main switches) = inUpdate s := by
  cases hp : s.pc with
  | branches es =>
      have htick := h.pending es hp
      cases es with
      | nil => simp [advances, executed, inUpdate, hp]
      | cons e es =>
          have he : ¬ Event.tick = e := by
            rintro rfl
            exact htick List.mem_cons_self
          simp [advances, executed, inUpdate, hp, he]
  | testTick | testKeys | clearTick | updateAllTime1s | updateDisplay | clearKeys | readRising
  | clearRising rising | readSwitches rising | printRising rising sw => simp [advances, executed, inUpdate, hp]

theorem inUpdate_step {s : State} (h : Consistent s) (a : Action) :
    (inUpdate s).toNat + (drains s a).toNat = (advances s a).toNat + (inUpdate (step s a)).toNat := by
  cases a with
  | press b | timerIsr => exact Nat.add_comm (inUpdate s).toNat 0
  | keysIsr => cases hk : s.keysIsr <;> simp [step, stepKeysIsr, hk, drains, advances, executed, inUpdate]
  | main switches =>
      rw [advances_main h]
      simp [step, inUpdate, drains, stepMain_updateAllTime1s]

theorem drain_balance {s : State} (h : Consistent s) (as : List Action) :
    (inUpdate s).toNat + times drains s as = times advances s as + (inUpdate (run step s as)).toNat := by
  induction as generalizing s with
  | nil => simp [times]
  | cons a as ih =>
      have hrest := ih (consistent_step s a h)
      have hstep := inUpdate_step h a
      rw [times_cons, times_cons, run_cons]
      omega

theorem executed_cases (s : State) (a : Action) : executed s a = [] ∨ ∃ e, executed s a = [e] := by
  cases a with
  | press b | keysIsr | timerIsr => exact .inl rfl
  | main switches =>
      cases hp : s.pc with
      | branches es => cases es <;> simp [executed, hp]
      | testTick | testKeys | clearTick | updateAllTime1s | updateDisplay | clearKeys | readRising
      | clearRising rising | readSwitches rising | printRising rising sw => simp [executed, hp]

theorem ofDay_steady {s : State} (h : Consistent s) {a : Action} (hs : Steady s a) :
    (step s a).system.state.gHorloge.ofDay = s.system.state.gHorloge.ofDay + ((advances s a).toNat : ℕ) := by
  rw [step_system]
  rcases executed_cases s a with he | ⟨e, he⟩
  · simp [he, advances]
  · have hset : clockSet s.system e = none := by
      apply hs
      simp [he]
    rw [he, run_cons, run_nil, ofDay_step h.coherent hset, advances, he]
    by_cases ht : e = .tick <;> simp [ht, eq_comm]

theorem ofDay_run {s : State} (h : Consistent s) (as : List Action) (hs : Meets step Steady s as) :
    (run step s as).system.state.gHorloge.ofDay =
      s.system.state.gHorloge.ofDay + (times advances s as : ℕ) := by
  induction as generalizing s with
  | nil => simp [times]
  | cons a as ih =>
      obtain ⟨ha, has⟩ := meets_cons.mp hs
      rw [run_cons, ih (consistent_step s a h) has, ofDay_steady h ha, times_cons, Nat.cast_add, add_assoc,
        add_comm ((times advances (step s a) as : ℕ) : ZMod 86400)]

theorem seconds_run {s : State} (h : Consistent s) (as : List Action) (hs : Meets step Steady s as) :
    (run step s as).system.state.gHorloge.seconds =
      (s.system.state.gHorloge.seconds + times advances s as) % 86400 := by
  have hend := Runs.invariant consistent_step h as
  have hday := ofDay_run h as hs
  simp only [Horloge.ofDay, ← Nat.cast_add] at hday
  have hmod := (ZMod.natCast_eq_natCast_iff' _ _ _).mp hday
  rwa [Nat.mod_eq_of_lt hend.coherent.clock.seconds_lt] at hmod

theorem times_overruns_eq_zero (s : State) (as : List Action) :
    times overruns s as = 0 ↔ Meets step (fun s a => overruns s a = false) s as := by
  simp only [times, List.countP_eq_zero, Meets, Bool.not_eq_true]

/-- No timer interrupt is lost exactly when none arrives while the previous one is still
flagged; and then the clock gains one second per timer interrupt between any two moments
at which main has served all of them. -/
theorem no_second_lost_iff (as : List Action) :
    (as.countP interrupts = times drains init as + (run step init as).tick1sFlag.toNat ↔
      Meets step (fun s a => overruns s a = false) init as) ∧
    ∀ bs, Meets step (fun s a => overruns s a = false) init (as ++ bs) →
      Drained (run step init as) → Drained (run step init (as ++ bs)) →
      Meets step Steady (run step init as) bs →
        (run step init (as ++ bs)).system.state.gHorloge.seconds =
          ((run step init as).system.state.gHorloge.seconds + bs.countP interrupts) % 86400 := by
  constructor
  · have hbal := timer_balance consistent_init as
    rw [← times_overruns_eq_zero]
    have hflag : init.tick1sFlag.toNat = 0 := rfl
    omega
  · intro bs hover hpre hpost hsteady
    rw [run_append] at hpost ⊢
    have hcons := Runs.invariant consistent_step consistent_init as
    have hno := (times_overruns_eq_zero _ bs).mpr (meets_append.mp hover).2
    have hbal := timer_balance hcons bs
    have hdrain := drain_balance hcons bs
    simp only [inUpdate, hpre.1, hpost.1, decide_eq_false hpre.2, decide_eq_false hpost.2,
      Bool.toNat_false] at hbal hdrain
    rw [seconds_run hcons bs hsteady]
    congr 2
    omega

def servedTick : List Action := .timerIsr :: List.replicate 5 (.main 0)

theorem no_second_lost_served :
    (run step init (servedTick ++ servedTick)).system.state.gHorloge.seconds = 45002 := by
  have hserved := (no_second_lost_iff servedTick).2 servedTick (by decide) (by decide) (by decide) (by decide)
  rw [hserved]
  decide

theorem second_lost :
    ¬ ∀ as : List Action, Meets step Enabled init as →
      as.countP interrupts = times drains init as + (run step init as).tick1sFlag.toNat := by
  intro h
  have hrun := h [.press 1, .keysIsr, .keysIsr, .keysIsr, .keysIsr, .main 0, .main 0, .main 0, .main 0,
    .main 0, .main 0, .timerIsr, .timerIsr] (by decide)
  exact absurd hrun (by decide)

end Montre.Interrupts
