import Montre.Joint.Board

namespace Montre.Joint

open Montre.Library Montre.Library.Runs Montre.Library.Emit Montre.Firmware Montre.Hardware

def Restarts (b : Board) (i : Input) : Prop := i = .event .key2 ∧ b.state.gMode = .chrono

instance (b : Board) (i : Input) : Decidable (Restarts b i) := inferInstanceAs (Decidable (_ ∧ _))

structure Zero (s : BcdCounter) : Prop where
  unities : s.sigUnities = 0
  tens : s.sigTens = 0
  hundreds : s.sigHundreds = 0
  thousnds : s.sigThousnds = 0

def AtZero (p : Peripherals) : Prop := p.chrono.start = false ∧ Zero p.chrono.chrono.process

def NoStart (w : Iowr) : Prop := w.base = .chrono0 → w.data.getLsbD 0 = false

/-- The stopwatch shows 00:00 and is not being started, neither by the control register nor
by a write on its way to it. -/
structure Cleared (b : Board) : Prop where
  stopped : b.state.gChrono.running = false
  safe : b.Safe AtZero NoStart

structure Clearing (b : Board) : Prop where
  stopped : b.state.gChrono.running = false
  pending : b.pending = [⟨.chrono0, 0xFFFFFFFE⟩]

theorem zero_cycle {g : Generics} {s : Hardware.Chrono} (h : Zero s.process) (rst rst' : Bool) :
    Zero (Chrono.cycle g rst rst' false s).process := by
  by_cases hreset : (rst || rst') = true
  · rw [Chrono.cycle, Prescaled.cycle_reset _ _ hreset]
    exact ⟨rfl, rfl, rfl, rfl⟩
  · obtain ⟨rfl, rfl⟩ : rst = false ∧ rst' = false := by simpa using hreset
    exact ⟨h.unities, h.tens, h.hundreds, h.thousnds⟩

theorem start_step {g : Generics} {s : ChronoAvalonInterface} (h : s.start = false) {w : Option Iowr}
    (hw : ∀ x, w = some x → NoStart x) : (s.step g (busCycle w)).start = false := by
  cases w with
  | none => exact h
  | some x =>
      obtain ⟨base, data⟩ := x
      by_cases hb : base = .chrono0
      · subst hb
        exact hw _ rfl rfl
      · have hbus : busCycle (some ⟨base, data⟩) = ⟨false, false, false, 0, 0⟩ := by
          cases base <;> first | rfl | exact absurd rfl hb
        rw [hbus]
        exact h

theorem atZero_cycle {g : Generics} (p : Peripherals) (w : Option Iowr) (h : AtZero p)
    (hw : ∀ x, w = some x → NoStart x) : AtZero (p.cycle g w) := by
  obtain ⟨hstart, hzero⟩ := h
  constructor
  · exact start_step hstart hw
  · have hcycle := zero_cycle (g := g) hzero p.chrono.rstChrono (p.chrono.step g (busCycle w)).rstChrono
    rw [← hstart] at hcycle
    exact hcycle

/-- The clear asserts the reset of CHRONO at the edge that takes it, running or not. -/
theorem atZero_clear (g : Generics) (p : Peripherals) : AtZero (p.cycle g (some ⟨.chrono0, 0xFFFFFFFE⟩)) := by
  constructor
  · change (0xFFFFFFFE : BitVec 32).getLsbD 0 = false
    decide
  · have hrst : (p.chrono.step g (busCycle (some ⟨.chrono0, 0xFFFFFFFE⟩))).rstChrono = true := by
      change (0xFFFFFFFE : BitVec 32).getLsbD 1 = true
      decide
    rw [Peripherals.cycle, ChronoAvalonInterface.step_chrono, ChronoAvalonInterface.resets, hrst, Bool.or_true,
      if_pos rfl]
    exact ⟨rfl, rfl, rfl, rfl⟩

theorem cleared_step {g : Generics} (b : Board) (i : Input) (h : Cleared b) (hi : ¬ Restarts b i) :
    Cleared (step g b i) := by
  obtain ⟨hstopped, hsafe⟩ := h
  cases i with
  | event e =>
      constructor
      · apply stopped_step (s := system b) hstopped
        rintro ⟨rfl, hm⟩
        exact hi ⟨rfl, hm⟩
      · apply hsafe.emit
        intro w hw hb
        have hrun := running_of_start_written b.state e w hw hb
        rw [hstopped] at hrun
        simpa using hrun
  | idle => exact ⟨hstopped, hsafe.hold atZero_cycle⟩
  | access => exact ⟨hstopped, hsafe.issue atZero_cycle⟩

theorem clearing_key3 {g : Generics} {b : Board} (hpending : b.pending = []) (hm : b.state.gMode = .chrono)
    (sw : UInt16) : Clearing (step g b (.event (.key3 sw))) := by
  constructor
  · exact congrArg (fun s : System => s.state.gChrono.running) (step_key3_chrono (s := system b) hm)
  · simp only [step, Buffered.emit, hpending, Event.program, key3, hm]
    rfl

theorem clearing_idle {g : Generics} {b : Board} (h : Clearing b) : Clearing (step g b .idle) :=
  ⟨h.stopped, h.pending⟩

theorem cleared_access {g : Generics} {b : Board} (h : Clearing b) : Cleared (step g b .access) := by
  obtain ⟨hstopped, hpending⟩ := h
  refine ⟨hstopped, ?_, ?_⟩
  · simp only [step, Buffered.issue, hpending, List.head?_cons]
    exact atZero_clear g b.env
  · simp only [step, Buffered.issue, hpending, List.tail_cons]
    intro w hw
    exact absurd hw (by simp)

theorem cleared_run {g : Generics} {b : Board} (h : Clearing b) {js : List Input}
    (hjs : Meets (step g) (fun b i => Enabled b i ∧ ¬ Restarts b i) b js) (hw : .access ∈ js) :
    Cleared (run (step g) b js) := by
  induction js generalizing b with
  | nil => exact absurd hw (by simp)
  | cons i js ih =>
      obtain ⟨⟨henabled, -⟩, hrest⟩ := meets_cons.mp hjs
      rw [run_cons]
      cases i with
      | event e =>
          have hnil : b.pending = [] := henabled
          rw [h.pending] at hnil
          exact absurd hnil (by simp)
      | idle =>
          apply ih (clearing_idle h) hrest
          simpa using hw
      | access =>
          apply (hrest.mono fun b i h => h.2).invariant (I := Cleared) cleared_step
          exact cleared_access h

/-- A cleared stopwatch stays at 00:00 until KEY2 restarts it: in every run of the board, at
every edge from the one that takes the clearing write. -/
theorem cleared_stays_zero (g : Generics) (is js : List Input) (sw : UInt16)
    (hpending : (board g is).pending = []) (hmode : (board g is).state.gMode = .chrono)
    (hjs : Meets (step g) (fun b i => Enabled b i ∧ ¬ Restarts b i)
      (board g (is ++ [.event (.key3 sw)])) js) (hw : .access ∈ js) :
    Zero (board g (is ++ [.event (.key3 sw)] ++ js)).env.chrono.chrono.process ∧
      digitsOf (Chrono.fromChrono (board g (is ++ [.event (.key3 sw)] ++ js)).env.chrono.chrono) =
        ⟨0, 0, 0, 0⟩ := by
  have hclearing : Clearing (board g (is ++ [.event (.key3 sw)])) := by
    rw [board, run_snoc]
    exact clearing_key3 hpending hmode sw
  have hcleared := cleared_run hclearing hjs hw
  rw [board, ← run_append] at hcleared
  obtain ⟨-, hzero⟩ := hcleared.safe.env
  refine ⟨hzero, ?_⟩
  rw [Chrono.fromChrono, digitsOf_append, board, hzero.unities, hzero.tens, hzero.hundreds, hzero.thousnds]
  rfl

def counting : List Input :=
  List.replicate 6 .access ++ [.event .key1, .access, .event .key2, .event .tick, .event .display] ++
    List.replicate 3 .access ++ List.replicate 5 .idle

theorem cleared_stays_zero_after_counting :
    Zero (board ChronoAvalonInterface.twoEdgesPerSecond (counting ++ [.event (.key3 0)] ++
      [.idle, .access, .event .display, .access, .access])).env.chrono.chrono.process := by
  have hzero := cleared_stays_zero ChronoAvalonInterface.twoEdgesPerSecond counting
    [.idle, .access, .event .display, .access, .access] 0 (by decide +kernel) (by decide +kernel)
    (by decide +kernel) (by decide)
  exact hzero.1

end Montre.Joint
