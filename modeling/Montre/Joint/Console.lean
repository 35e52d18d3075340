import Montre.Hal.JtagUart
import Montre.Hal.Startup
import Montre.Interrupts.Deadline

namespace Montre.Joint

open Montre.Library Runs Montre.Hal Montre.Firmware

def ascii (t : String) : List UInt8 := t.toList.map fun c => c.toNat.toUInt8

/-- What main prints before it goes on from a point, and in the branch of KEY3 once more when it has silenced
the alarm. -/
def printf (s : Interrupts.State) (silenced : Bool) : List UInt8 :=
  if silenced then ascii "g_mode == MODE_MINUTERIE\n"
  else match s.pc with
    | .printRising rising _ =>
        ascii "rising = " ++ ascii (toString rising.toNat) ++ ascii ",  keys_rising_flags  = " ++
          ascii (toString s.keysRisingFlags.toNat) ++ ascii "\n"
    | .branches (.key0 :: _) => ascii "KEY0 pressed - Reset\n"
    | .branches (.key1 :: _) => ascii "KEY1 pressed - Changement mode\n"
    | .branches (.key2 :: _) => ascii "KEY2 pressed - Start/Stop\n"
    | .branches (.key3 _ :: _) => ascii "KEY3 pressed - Clear/Config\n"
    | _ => []

def silences (s : Interrupts.State) : Bool :=
  match s.pc with
  | .branches (.key3 _ :: _) => s.system.state.gMode = .minuterie && s.system.state.gMinut.alarmActive
  | _ => false

/-- The processor with the driver of its standard output, N bytes of buffer to it. `called` is set from the
call of `write` for the text of a point until main leaves it, and `silenced` from the write that silences the
alarm to the end of its branch. -/
structure Console (N : ℕ) where
  cpu : Interrupts.State
  uart : Uart N
  called : Bool
  silenced : Bool

inductive ConsoleAction
  | press (b : Fin 4)
  | keysIsr
  | timerIsr
  | timerSc (ac : Bool)
  | uartIrq (wi : Bool)
  | host
  | main (switches : BitVec 10)
deriving DecidableEq

namespace Console

variable {N : ℕ} [NeZero N]

def init : Console N := ⟨Interrupts.init, Uart.init, false, false⟩

def defaultTimeout : ℕ := 10

def uartAction (s : Console N) : ConsoleAction → List UartAction
  | .press _ | .keysIsr | .timerIsr => []
  | .timerSc ac => [.timeout ac]
  | .uartIrq wi => [.irq wi]
  | .host => [.host]
  | .main _ =>
      if s.called = false ∧ printf s.cpu s.silenced ≠ [] then [.call (printf s.cpu s.silenced) false]
      else if s.uart.writer ≠ .idle then [.writer]
      else []

def cpuAction : ConsoleAction → Option Interrupts.Action
  | .press b => some (.press b)
  | .keysIsr => some .keysIsr
  | .timerIsr => some .timerIsr
  | .main switches => some (.main switches)
  | .timerSc _ | .uartIrq _ | .host => none

/-- Main goes on only when nothing is left to print. -/
def step (s : Console N) (a : ConsoleAction) : Console N :=
  let uart := run (Uart.step defaultTimeout) s.uart (uartAction s a)
  match a with
  | .main switches =>
      if uartAction s (.main switches) ≠ [] then { s with uart := uart, called := true }
      else if s.silenced then { s with uart := uart, called := false, silenced := false }
      else ⟨Interrupts.step s.cpu (.main switches), uart, false, silences s.cpu⟩
  | a => { s with cpu := (cpuAction a).elim s.cpu (Interrupts.step s.cpu), uart := uart }

/-- One routine at a time: an interrupt routine runs to its end, and those of the HAL only where the
table has them. -/
def Enabled (sp : BitVec 32) (s : Console N) : ConsoleAction → Prop
  | .press _ | .host => True
  | .keysIsr => s.uart.irq = .idle
  | .timerIsr | .main _ => s.uart.irq = .idle ∧ s.cpu.keysIsr = .idle
  | .timerSc _ => (s.uart.irq = .idle ∧ s.cpu.keysIsr = .idle) ∧
      ∃ i, ((registry sp).altIrq i).handler = some .altAvalonTimerScIrq
  | .uartIrq wi => s.cpu.keysIsr = .idle ∧ (wi = true → s.uart.we = true)

instance (sp : BitVec 32) (s : Console N) (a : ConsoleAction) : Decidable (Enabled sp s a) :=
  match a with
  | .press _ | .host => isTrue trivial
  | .keysIsr => inferInstanceAs (Decidable (_ = _))
  | .timerIsr | .main _ | .timerSc _ | .uartIrq _ => inferInstanceAs (Decidable (_ ∧ _))

theorem uart_step (s : Console N) (a : ConsoleAction) :
    (step s a).uart = run (Uart.step defaultTimeout) s.uart (uartAction s a) := by
  cases a with
  | press b | keysIsr | timerIsr | timerSc ac | uartIrq wi | host => rfl
  | main switches =>
      simp only [step]
      split_ifs <;> rfl

/-- The write of a point is called once, and main leaves the point when it has returned. -/
def Idle (s : Console N) : Prop := s.called = false → s.uart.writer = .idle

theorem idle_step (s : Console N) (a : ConsoleAction) (h : Idle s) : Idle (step s a) := by
  cases a with
  | press b | keysIsr | timerIsr | timerSc ac | host => exact h
  | uartIrq wi =>
      intro hcalled
      exact (Uart.stepIrq_writer wi s.uart).trans (h hcalled)
  | main switches =>
      intro hcalled
      have hnothing : uartAction s (.main switches) = [] := by
        by_contra hne
        simp only [step, if_pos hne, Bool.true_eq_false] at hcalled
      rw [uart_step, hnothing]
      simp only [uartAction] at hnothing
      split_ifs at hnothing with hcall hwriter
      simpa using hwriter

structure Unclocked (s : Uart N) (a : UartAction) : Prop where
  enabled : Uart.Enabled s a
  blocking : Uart.nonblocking a = false
  noTimeout : ∀ ac, a ≠ .timeout ac

theorem unclocked_uartAction {sp : BitVec 32} {s : Console N} (hidle : Idle s) {a : ConsoleAction}
    (h : Enabled sp s a) : Meets (Uart.step defaultTimeout) Unclocked s.uart (uartAction s a) := by
  have hone {b : UartAction} (hb : Unclocked s.uart b) :
      Meets (Uart.step defaultTimeout) Unclocked s.uart [b] := meets_cons.mpr ⟨hb, by simp [Meets]⟩
  cases a with
  | press b | keysIsr | timerIsr => simp [uartAction, Meets]
  | timerSc ac =>
      obtain ⟨-, i, hi⟩ := h
      exact absurd hi (altAvalonTimerScIrq_unregistered sp i)
  | uartIrq wi => exact hone ⟨h.2, rfl, by simp⟩
  | host => exact hone ⟨trivial, rfl, by simp⟩
  | main switches =>
      simp only [uartAction]
      split_ifs with hcall hwriter
      · exact hone ⟨⟨hidle hcall.1, h.1⟩, rfl, by simp⟩
      · exact hone ⟨h.1, rfl, by simp⟩
      · simp [Meets]

theorem patient_of_unclocked {as : List UartAction}
    (h : Meets (Uart.step defaultTimeout) Unclocked (Uart.init : Uart N) as) :
    Meets (Uart.step defaultTimeout) (Uart.Patient defaultTimeout) (Uart.init : Uart N) as := by
  have hinactive := h.trace_invariant (I := fun s : Uart N => s.hostInactive = 0) ?_ rfl
  · intro x hx
    obtain ⟨henabled, hblocking, -⟩ := h x hx
    exact ⟨henabled, by rw [hinactive x hx]; decide, hblocking⟩
  · intro s a hs ha
    cases a with
    | call data nonblock | host => exact hs
    | timeout ac => exact absurd rfl (ha.noTimeout ac)
    | irq wi => exact (Uart.stepIrq_hostInactive wi s).trans hs
    | writer => exact (Uart.stepWriter_hostInactive _ s).trans hs

def uartActions (as : List ConsoleAction) : List UartAction :=
  (trace step (init : Console N) as).flatMap fun x => uartAction x.1 x.2

def printed (N : ℕ) [NeZero N] (as : List ConsoleAction) : List UInt8 :=
  ((uartActions (N := N) as).flatMap Uart.begun).flatten

theorem patient_uartActions {sp : BitVec 32} {as : List ConsoleAction}
    (h : Meets step (Enabled sp) (init : Console N) as) :
    Meets (Uart.step defaultTimeout) (Uart.Patient defaultTimeout) (Uart.init : Uart N) (uartActions (N := N) as) := by
  apply patient_of_unclocked
  have hidle : ∀ x ∈ trace step (init : Console N) as, Idle x.1 := trace_invariant idle_step (fun _ => rfl) as
  have hboth : Meets step (fun s a => Idle s ∧ Enabled sp s a) (init : Console N) as :=
    fun x hx => ⟨hidle x hx, h x hx⟩
  exact meets_project (φ := fun s : Console N => s.uart) uart_step (fun s a hs => unclocked_uartAction hs.1 hs.2) hboth

theorem host_notMem_uartActions {as : List ConsoleAction} (h : .host ∉ as) :
    .host ∉ uartActions (N := N) as := by
  intro hmem
  obtain ⟨x, hx, hmem⟩ := List.mem_flatMap.mp hmem
  have haction := mem_of_mem_trace hx
  cases ha : x.2 with
  | host => exact h (ha ▸ haction)
  | press b | keysIsr | timerIsr | timerSc ac | uartIrq wi => simp [uartAction, ha] at hmem
  | main switches =>
      simp only [uartAction, ha] at hmem
      split_ifs at hmem <;> simp at hmem

theorem writer_ne_idle {sp : BitVec 32} {as : List ConsoleAction}
    (h : Meets step (Enabled sp) (init : Console N) as) (hhost : .host ∉ as)
    (hprinted : N + Uart.depth ≤ (printed N as).length) : (run step (init : Console N) as).uart.writer ≠ .idle := by
  intro hwriter
  have hpatient := patient_uartActions h
  have hlt := Uart.returned_lt defaultTimeout hpatient (host_notMem_uartActions hhost)
  have hcalls := Uart.calls_run defaultTimeout (hpatient.mono fun s a ha => ha.enabled)
  have huart : (run step (init : Console N) as).uart =
      run (Uart.step defaultTimeout) (Uart.init : Uart N) (uartActions (N := N) as) :=
    run_project (φ := fun s : Console N => s.uart) uart_step init as
  rw [← huart, hwriter, Writer.call, List.map_nil, List.append_nil] at hcalls
  rw [hcalls] at hlt
  rw [printed] at hprinted
  omega

theorem system_of_writer_ne_idle {s : Console N} (h : s.uart.writer ≠ .idle) (a : ConsoleAction) :
    (step s a).cpu.pc = s.cpu.pc ∧ (step s a).cpu.system = s.cpu.system := by
  cases a with
  | press b | timerIsr | timerSc ac | uartIrq wi | host => exact ⟨rfl, rfl⟩
  | keysIsr => exact ⟨Interrupts.stepKeysIsr_pc s.cpu, Interrupts.step_system s.cpu .keysIsr⟩
  | main switches =>
      have hprinting : uartAction s (.main switches) ≠ [] := by
        simp only [uartAction]
        split_ifs <;> simp
      simp only [step, if_pos hprinting, and_self]

/-- Without a host the watch stops for good. Its own routine takes the place of the HAL's on the timer, so
that the driver never gives the host up; once main has printed more than the buffer and the FIFO hold,
2112 bytes with the default buffer, it never leaves the `printf` again, and no tick and no key has any
effect. -/
theorem watch_stops_without_host (sp : BitVec 32) (as bs : List ConsoleAction)
    (h : Meets step (Enabled sp) (init : Console N) (as ++ bs)) (hhost : .host ∉ as ++ bs)
    (hprinted : N + Uart.depth ≤ (printed N as).length) :
    (run step (init : Console N) (as ++ bs)).cpu.pc = (run step (init : Console N) as).cpu.pc ∧
      (run step (init : Console N) (as ++ bs)).cpu.system = (run step (init : Console N) as).cpu.system := by
  induction bs using List.reverseRecOn with
  | nil => rw [List.append_nil]; exact ⟨rfl, rfl⟩
  | append_singleton bs a ih =>
      rw [← List.append_assoc] at h hhost ⊢
      obtain ⟨hbefore, -⟩ := meets_snoc.mp h
      have hquiet : .host ∉ as ++ bs := fun hmem => hhost (List.mem_append_left _ hmem)
      obtain ⟨hpc, hsystem⟩ := ih hbefore hquiet
      have hwriter : (run step (init : Console N) (as ++ bs)).uart.writer ≠ .idle := by
        apply writer_ne_idle hbefore hquiet
        rw [printed, uartActions, trace_append, List.flatMap_append, List.flatMap_append, List.flatten_append,
          List.length_append]
        exact hprinted.trans (Nat.le_add_right _ _)
      rw [run_snoc]
      obtain ⟨hpc', hsystem'⟩ := system_of_writer_ne_idle hwriter a
      exact ⟨hpc'.trans hpc, hsystem'.trans hsystem⟩

def pressed (b : Fin 4) : List ConsoleAction := .press b :: List.replicate 4 .keysIsr

def twoPresses (b : Fin 4) : List ConsoleAction :=
  pressed b ++ List.replicate 60 (.main 0) ++ [.uartIrq false, .uartIrq true] ++ List.replicate 41 (.uartIrq false) ++
    List.replicate 40 (.main 0) ++ pressed b ++ List.replicate 20 (.main 0)

theorem two_presses_stop : (run step (init : Console 39) (twoPresses 1 ++ [.timerIsr, .main 0, .main 0])).cpu.system =
    (run step (init : Console 39) (twoPresses 1)).cpu.system :=
  (watch_stops_without_host (N := 39) 0 (twoPresses 1) [.timerIsr, .main 0, .main 0] (by decide +kernel) (by decide +kernel)
    (by decide +kernel)).2

end Console

end Montre.Joint
