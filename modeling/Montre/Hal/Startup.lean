import Montre.Hal.IrqHandler

namespace Montre.Hal

open Montre.Library Runs Emit

inductive Isr
  | altAvalonTimerScIrq
  | alteraAvalonJtagUartIrq
  | timerIsr
  | keysIsr
deriving DecidableEq, Repr

def jtagUart0Irq : Fin 32 := 0

def timer0Irq : Fin 32 := 1

def keysIrq : Fin 32 := 2

def timer0Base : BitVec 32 := 0x1003000

/-- The three lines that the system connects, in the order of its interrupt numbers. -/
def irqMapper (receiver0Irq receiver1Irq receiver2Irq : Bool) : BitVec 32 :=
  (BitVec.ofBool receiver2Irq ++ BitVec.ofBool receiver1Irq ++ BitVec.ofBool receiver0Irq).setWidth 32

/-- The registrations of `alt_sys_init`, with the driver state of the JTAG UART at some address. -/
def altSysInit (sp : BitVec 32) : List (Registration Isr) :=
  [⟨1, some .altAvalonTimerScIrq, timer0Base⟩, ⟨0, some .alteraAvalonJtagUartIrq, sp⟩]

def watchInit : List (Registration Isr) :=
  [⟨1, some .timerIsr, 0⟩, ⟨2, some .keysIsr, 0⟩]

theorem irq_nonneg (sp : BitVec 32) : ∀ r ∈ altSysInit sp ++ watchInit, 0 ≤ r.irq.toInt := by
  simp [altSysInit, watchInit]

def registry (sp : BitVec 32) : Iic Isr := (seq altIrqInit (registerAll (altSysInit sp ++ watchInit)) Iic.powerUp).1

theorem registered_registry (sp : BitVec 32) : Registered (registry sp) :=
  (registered_registerAll (irq_nonneg sp) registered_altIrqInit).1

-- the last store of the start-up code, with all three lines high
theorem keys_handled_at_startup :
    (((seq altIrqInit (registerAll (altSysInit 0 ++ watchInit)) Iic.powerUp).2.getLast (by decide)).altIrq
      keysIrq).handler.isSome = true :=
  interrupt_always_handled (irq_nonneg 0) _ (List.getLast_mem _) (by decide) 7 keysIrq (by decide)

theorem altIrq_registry (sp : BitVec 32) (i : Fin 32) : (registry sp).altIrq i =
    if i = keysIrq then ⟨some .keysIsr, 0⟩ else if i = timer0Irq then ⟨some .timerIsr, 0⟩
    else if i = jtagUart0Irq then ⟨some .alteraAvalonJtagUartIrq, sp⟩ else ⟨none, 0⟩ := by
  have htable := altIrq_registerAll (irq_nonneg sp) (altIrqInit Iic.powerUp).1 i
  have h0 : (0 : BitVec 32).toNat = 0 := rfl
  have h1 : (1 : BitVec 32).toNat = 1 := rfl
  have h2 : (2 : BitVec 32).toNat = 2 := rfl
  simp only [altSysInit, watchInit, List.cons_append, List.nil_append, List.foldl_cons, List.foldl_nil, h0, h1,
    h2] at htable
  refine htable.trans ?_
  simp only [keysIrq, timer0Irq, jtagUart0Irq, Fin.ext_iff]
  split_ifs <;> first | rfl | omega

theorem altAvalonTimerScIrq_unregistered (sp : BitVec 32) (i : Fin 32) :
    ((registry sp).altIrq i).handler ≠ some .altAvalonTimerScIrq := by
  rw [altIrq_registry]
  split_ifs <;> simp

section Watch

variable {δ : Type} {lines : δ → BitVec 32} {serve : Isr → BitVec 32 → δ → δ} {raise : Finset (Fin 32) → δ → δ}

/-- Whatever requests come in meanwhile, the watch's interrupts are all served, and those of the keys
only when none of the timer is pending. -/
theorem interrupts_served_timer_first (sp : BitVec 32) (hanswers : Answers lines serve (registry sp))
    (hraises : Raises lines raise) (rs : List (Finset (Fin 32))) {d : δ}
    (hpending : (registry sp).ipending (lines d) ≠ 0)
    (hpasses : (requests ((registry sp).ipending (lines d))).card + (rs.map Finset.card).sum ≤ rs.length) :
    ∃ served d', altIrqHandler lines serve (registry sp) (rs.map raise) ((registry sp).ipending (lines d)) d =
        some (served, d') ∧
      (registry sp).ipending (lines d') = 0 ∧
      (∀ i ∈ requests ((registry sp).ipending (lines d)), i ∈ served.map Prod.snd) ∧
      ∀ x ∈ served, x.2 = keysIrq → x.1.getLsbD timer0Irq.val = false := by
  obtain ⟨served, d', hcall, hquiet, hall⟩ :=
    alt_irq_handler_serves_all (registered_registry sp) hanswers hraises hpending hpasses
  refine ⟨served, d', hcall, hquiet, hall, ?_⟩
  intro x hx hkeys
  apply ((firstActive_eq_some_iff x.1 x.2).mp (served_lowest hcall x hx)).2
  rw [hkeys]
  decide

end Watch

structure Devices where
  jtagUart : Bool
  timer : Bool
  keys : Bool
deriving DecidableEq

namespace Devices

def lines (d : Devices) : BitVec 32 := irqMapper d.jtagUart d.timer d.keys

def serve : Isr → BitVec 32 → Devices → Devices
  | .altAvalonTimerScIrq, _, d => { d with timer := false }
  | .alteraAvalonJtagUartIrq, _, d => { d with jtagUart := false }
  | .timerIsr, _, d => { d with timer := false }
  | .keysIsr, _, d => { d with keys := false }

def raise (r : Finset (Fin 32)) (d : Devices) : Devices :=
  ⟨d.jtagUart || decide (jtagUart0Irq ∈ r), d.timer || decide (timer0Irq ∈ r), d.keys || decide (keysIrq ∈ r)⟩

theorem getLsbD_lines (d : Devices) (j : Fin 32) : d.lines.getLsbD j.val =
    (if j = keysIrq then d.keys else if j = timer0Irq then d.timer else if j = jtagUart0Irq then d.jtagUart
      else false) := by
  obtain ⟨jtagUart, timer, keys⟩ := d
  cases jtagUart <;> cases timer <;> cases keys <;> revert j <;> decide

theorem answers_serve (sp : BitVec 32) : Answers lines serve (registry sp) := by
  intro i handler hhandler d j
  by_cases hj : j < 32
  · have hline := getLsbD_lines d ⟨j, hj⟩
    have hafter := getLsbD_lines (serve handler ((registry sp).altIrq i).context d) ⟨j, hj⟩
    simp only at hline hafter
    rw [hline, hafter]
    rw [altIrq_registry] at hhandler
    simp only [keysIrq, timer0Irq, jtagUart0Irq, Fin.ext_iff] at hhandler ⊢
    split_ifs at hhandler <;> cases hhandler <;> simp only [serve] <;> split_ifs <;> simp_all
  · rw [BitVec.getLsbD_of_ge _ _ (by omega), BitVec.getLsbD_of_ge _ _ (by omega)]
    rfl

theorem raises_raise : Raises lines raise := by
  intro r d j
  rw [getLsbD_lines, getLsbD_lines]
  simp only [raise]
  split_ifs <;> simp_all

end Devices

theorem timer_served_before_keys : ∃ served d', altIrqHandler Devices.lines Devices.serve (registry 0)
      ([{timer0Irq}, ∅, ∅].map Devices.raise) ((registry 0).ipending (Devices.lines ⟨false, true, true⟩))
      ⟨false, true, true⟩ = some (served, d') ∧
    (registry 0).ipending d'.lines = 0 ∧ keysIrq ∈ served.map Prod.snd ∧
    ∀ x ∈ served, x.2 = keysIrq → x.1.getLsbD timer0Irq.val = false := by
  have hpending : (registry 0).ipending (Devices.lines ⟨false, true, true⟩) = 6 := by decide +kernel
  obtain ⟨served, d', hcall, hquiet, hall, hfirst⟩ := interrupts_served_timer_first 0 (Devices.answers_serve 0)
    Devices.raises_raise [{timer0Irq}, ∅, ∅] (d := ⟨false, true, true⟩)
    (by rw [hpending]; decide) (by rw [hpending]; decide)
  refine ⟨served, d', hcall, hquiet, hall keysIrq ?_, hfirst⟩
  rw [hpending]
  decide

end Montre.Hal
