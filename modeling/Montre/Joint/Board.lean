import Montre.Firmware.ControlState
import Montre.Hardware.ByteEnables
import Montre.Hardware.TopLevel
import Montre.Library.Buffered

namespace Montre.Joint

open Montre.Library Montre.Library.Runs Montre.Library.Emit Montre.Firmware Montre.Hardware

structure Peripherals where
  registers : Registers
  chrono : ChronoAvalonInterface
deriving DecidableEq

def busCycle : Option Iowr → BusCycle
  | some ⟨.chrono0, data⟩ => ⟨true, false, true, data, 0xF⟩
  | _ => ⟨false, false, false, 0, 0⟩

theorem whole_word_busCycle {w : Option Iowr} (h : (busCycle w).accepted = true) : (busCycle w).byteenable = 0xF := by
  unfold busCycle at h ⊢
  split at h
  · rfl
  · exact absurd h (by decide)

def Peripherals.cycle (g : Generics) (p : Peripherals) (w : Option Iowr) : Peripherals where
  registers := w.elim p.registers p.registers.write
  chrono := p.chrono.step g (busCycle w)

abbrev Board := Buffered Watch Iowr Peripherals

/-- The firmware computes a branch between two edges; each edge passes with or without
the next of its accesses. -/
inductive Input
  | event (e : Event)
  | idle
  | access
deriving DecidableEq

def powerUp (g : Generics) : Board :=
  ⟨(watchInit .bss).1, (watchInit .bss).2, ⟨.reset, ChronoAvalonInterface.reset g⟩⟩

/-- The firmware goes on only when its accesses are made. -/
def Enabled (b : Board) : Input → Prop
  | .event _ => b.pending = []
  | .idle | .access => True

instance (b : Board) (i : Input) : Decidable (Enabled b i) :=
  match i with
  | .event _ => inferInstanceAs (Decidable (_ = _))
  | .idle | .access => isTrue trivial

def step (g : Generics) (b : Board) : Input → Board
  | .event e => b.emit e.program
  | .idle => b.hold (Peripherals.cycle g)
  | .access => b.issue (Peripherals.cycle g)

def board (g : Generics) (is : List Input) : Board := run (step g) (powerUp g) is

def routed (b : Board) : Digits :=
  digits b.env.registers.startChrono (Chrono.fromChrono b.env.chrono.chrono) b.env.registers.hexs

/-- The firmware and its registers, once every access is made. -/
def system (b : Board) : System := b.flush Registers.write Peripherals.registers

section Steps

variable (g : Generics) (b : Board)

theorem system_event (e : Event) : system (step g b (.event e)) = Firmware.step (system b) e :=
  Buffered.flush_emit e.program b

theorem system_idle : system (step g b .idle) = system b :=
  Buffered.flush_hold (fun _ => rfl) b

theorem system_access : system (step g b .access) = system b :=
  Buffered.flush_issue (fun _ => rfl) (fun _ _ => rfl) b

theorem system_powerUp : system (powerUp g) = start := rfl

end Steps

theorem system_invariant {I : System → Prop} (hstep : ∀ s e, I s → I (Firmware.step s e)) (hstart : I start)
    (g : Generics) (is : List Input) : I (system (board g is)) := by
  apply invariant (I := fun b => I (system b))
  · intro b i hb
    cases i with
    | event e =>
        rw [system_event]
        exact hstep (system b) e hb
    | idle => rwa [system_idle]
    | access => rwa [system_access]
  · rwa [system_powerUp]

theorem system_quiet (g : Generics) (b : Board) {js : List Input} (hjs : ∀ i ∈ js, i = .idle ∨ i = .access) :
    system (run (step g) b js) = system b := by
  induction js generalizing b with
  | nil => rfl
  | cons i js ih =>
      obtain ⟨hi, hrest⟩ := List.forall_mem_cons.mp hjs
      rw [run_cons, ih (step g b i) hrest]
      rcases hi with rfl | rfl
      · exact system_idle g b
      · exact system_access g b

theorem system_of_pending_nil {b : Board} (h : b.pending = []) : system b = ⟨b.state, b.env.registers⟩ :=
  Buffered.flush_of_pending_nil h

theorem control_cycle (g : Generics) {p : Peripherals} (h : p.chrono.writedataReg = p.registers.chrono0)
    (w : Option Iowr) : (p.cycle g w).chrono.writedataReg = (p.cycle g w).registers.chrono0 := by
  cases w with
  | none => exact h
  | some x =>
      obtain ⟨base, data⟩ := x
      cases base <;> first | rfl | exact h

theorem control_board (g : Generics) (is : List Input) :
    (board g is).env.chrono.writedataReg = (board g is).env.registers.chrono0 := by
  apply invariant (I := fun b : Board => b.env.chrono.writedataReg = b.env.registers.chrono0)
  · intro b i hb
    cases i with
    | event e => exact hb
    | idle => exact control_cycle g hb none
    | access => exact control_cycle g hb b.pending.head?
  · rfl

def busCycles (b : Board) : Input → List BusCycle
  | .event _ => []
  | .idle => [busCycle none]
  | .access => [busCycle b.pending.head?]

def cycles (g : Generics) (is : List Input) : List BusCycle :=
  (trace (step g) (powerUp g) is).flatMap fun x => busCycles x.1 x.2

theorem chrono_step (g : Generics) (b : Board) (i : Input) : (step g b i).env.chrono =
    run (ChronoAvalonInterface.step g) b.env.chrono (busCycles b i) := by
  cases i <;> rfl

theorem chrono_board (g : Generics) (is : List Input) : (board g is).env.chrono =
    run (ChronoAvalonInterface.step g) (ChronoAvalonInterface.reset g) (cycles g is) :=
  run_project (φ := fun b : Board => b.env.chrono) (chrono_step g) (powerUp g) is

/-- The seconds that the stopwatch has counted since its last reset. -/
def seconds (g : Generics) (is : List Input) : ℕ :=
  ChronoAvalonInterface.ticksOver g.divisorMs (ChronoAvalonInterface.startSince g (cycles g is)) / g.n.val

/-- The digits that CHRONO gives out after S seconds, each cut to four bits. -/
def chronoDigits (S : ℕ) : Digits where
  digitMM1 := BitVec.ofNat 4 (S % 10)
  digitMM2 := BitVec.ofNat 4 (S / 10 % 6)
  digitHH1 := BitVec.ofNat 4 (S / 60 % 10)
  digitHH2 := BitVec.ofNat 4 (S / 600 % 2 ^ 31)

theorem digitsOf_chrono (g : Generics) (is : List Input) :
    digitsOf (Chrono.fromChrono (board g is).env.chrono.chrono) = chronoDigits (seconds g is) := by
  rw [chrono_board, ChronoAvalonInterface.chrono_run, Chrono.fromChrono, digitsOf_append]
  rfl

theorem chronoDigits_decimal_iff (S : ℕ) : (chronoDigits S).Decimal ↔ S / 600 % 16 ≤ 9 := by
  constructor
  · intro h
    have hthousnds := h.digitHH2
    simp only [chronoDigits, BitVec.toNat_ofNat] at hthousnds
    omega
  · intro h
    constructor <;> simp only [chronoDigits, BitVec.toNat_ofNat] <;> omega

theorem chronoDigits_eq_zero_iff (S : ℕ) : chronoDigits S = ⟨0, 0, 0, 0⟩ ↔ 9600 ∣ S := by
  have hzero : (0 : BitVec 4).toNat = 0 := rfl
  simp only [chronoDigits, Digits.mk.injEq, ← BitVec.toNat_inj, BitVec.toNat_ofNat, hzero]
  constructor
  · rintro ⟨h₀, h₁, h₂, h₃⟩
    omega
  · intro h
    omega

end Montre.Joint
