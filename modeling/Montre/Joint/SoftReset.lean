import Montre.Joint.Board

namespace Montre.Joint

open Montre.Library Montre.Library.Runs Montre.Library.Emit Montre.Firmware Montre.Hardware

/-- The globals, the registers and the stopwatch digits of the hardware reset and `watch_init`. -/
structure Restored (b : Board) : Prop where
  watch : b.state = start.state
  ledg : b.env.registers.ledg = start.env.ledg
  alarmBell0 : b.env.registers.alarmBell0 = start.env.alarmBell0
  startChrono : b.env.registers.startChrono = start.env.startChrono
  control : b.env.chrono.writedataReg = start.env.chrono0
  digits : digitsOf (Chrono.fromChrono b.env.chrono.chrono) = ⟨0, 0, 0, 0⟩

def keyInputs (rising : UInt8) (switches : BitVec 10) : List Input :=
  (keyEvents rising (readSwitches switches)).map .event

theorem system_soft_reset (g : Generics) (is js : List Input) (switches : BitVec 10)
    (hpending : (board g is).pending = []) (hjs : ∀ i ∈ js, i = .idle ∨ i = .access) :
    system (board g (is ++ keyInputs 0x1 switches ++ js)) =
      ⟨start.state, { (board g is).env.registers with alarmBell0 := 0, chrono0 := 0, startChrono := 0 }⟩ := by
  rw [board, run_append, system_quiet g _ hjs, run_append]
  change system (step g (board g is) (.event .key0)) = _
  rw [system_event, system_of_pending_nil hpending]
  rfl

/-- KEY0 restores the state of the start exactly when LEDG is already that of the clock mode,
and the stopwatch, which KEY0 stops and does not clear, has counted a multiple of 9600 seconds. -/
theorem soft_reset_restores_iff (g : Generics) (is js : List Input) (switches : BitVec 10)
    (hpending : (board g is).pending = []) (hjs : ∀ i ∈ js, i = .idle ∨ i = .access)
    (hdone : (board g (is ++ keyInputs 0x1 switches ++ js)).pending = []) :
    Restored (board g (is ++ keyInputs 0x1 switches ++ js)) ↔
      (board g is).env.registers.ledg = 1 ∧ 9600 ∣ seconds g (is ++ keyInputs 0x1 switches ++ js) := by
  have hsystem := system_soft_reset g is js switches hpending hjs
  rw [system_of_pending_nil hdone, Coupled.mk.injEq] at hsystem
  obtain ⟨hstate, hregisters⟩ := hsystem
  have hcontrol := control_board g (is ++ keyInputs 0x1 switches ++ js)
  rw [hregisters] at hcontrol
  rw [← chronoDigits_eq_zero_iff, ← digitsOf_chrono]
  constructor
  · intro h
    have hledg := h.ledg
    rw [hregisters] at hledg
    exact ⟨hledg, h.digits⟩
  · rintro ⟨hledg, hdigits⟩
    constructor
    · exact hstate
    · rw [hregisters]
      exact hledg
    · rw [hregisters]
      rfl
    · rw [hregisters]
      rfl
    · exact hcontrol
    · exact hdigits

def initialised : List Input := List.replicate 6 .access

/-- The clock is set to 7:20 and the alarm armed for 8:15, the stopwatch runs for some edges and is cleared,
and KEY1 leads back to the clock mode. -/
def used : List Input :=
  initialised ++ [.event (.key3 244), .event .key1, .access, .event .key1, .access, .event (.key3 271), .event .key2,
    .event .key1, .access, .event .key1, .access, .event .key2, .event .tick, .event .display] ++
  List.replicate 12 .access ++ [.event (.key3 0), .access, .event .tick, .event .display] ++ List.replicate 3 .access ++
  [.event .key1, .access, .event .key1, .access]

-- the second of the three accesses of KEY0 writes to CHRONO
theorem soft_reset_restores_iff_once_used :
    (board ChronoAvalonInterface.twoEdgesPerSecond used).state =
        ⟨.horloge, ⟨7, 20, 2⟩, ⟨false, false⟩, ⟨8, 15, 0, true, false⟩⟩ ∧
      seconds ChronoAvalonInterface.twoEdgesPerSecond (used ++ keyInputs 0x1 0 ++ List.replicate 2 .access) = 0 ∧
      Restored (board ChronoAvalonInterface.twoEdgesPerSecond
        (used ++ keyInputs 0x1 0 ++ List.replicate 3 .access)) := by
  refine ⟨by decide +kernel, by decide +kernel, ?_⟩
  have h := soft_reset_restores_iff ChronoAvalonInterface.twoEdgesPerSecond used (List.replicate 3 .access) 0
    (by decide +kernel) (by decide) (by decide +kernel)
  exact h.mpr ⟨by decide +kernel, by decide +kernel⟩

theorem soft_reset_keeps_ledg :
    ¬ ∀ (g : Generics) (is js : List Input) (switches : BitVec 10),
      Meets (step g) Enabled (powerUp g) (is ++ keyInputs 0x1 switches ++ js) →
      (board g is).pending = [] → (∀ i ∈ js, i = .idle ∨ i = .access) →
      (board g (is ++ keyInputs 0x1 switches ++ js)).pending = [] →
        Restored (board g (is ++ keyInputs 0x1 switches ++ js)) := by
  intro h
  have hrestored := h ChronoAvalonInterface.twoEdgesPerSecond (initialised ++ [.event .key1, .access])
    (List.replicate 3 .access) 0 (by decide) (by decide) (by decide) (by decide)
  exact absurd hrestored.ledg (by decide)

end Montre.Joint
