import Montre.Hardware.AlarmBellAvalonInterface
import Montre.Joint.Board

namespace Montre.Joint.Lights

open Montre.Library Montre.Library.Runs Montre.Library.Emit Montre.Library.Waveform Montre.Firmware Montre.Hardware

structure Bell where
  registers : Registers
  alarmBell : AlarmBellAvalonInterface
deriving DecidableEq

def busCycle : Option Iowr → BusCycle
  | some ⟨.alarmBell0, data⟩ => ⟨true, false, true, data, 0xF⟩
  | _ => ⟨false, false, false, 0, 0⟩

def Bell.cycle (g : Generics) (p : Bell) (w : Option Iowr) : Bell where
  registers := w.elim p.registers p.registers.write
  alarmBell := p.alarmBell.step g (busCycle w)

abbrev BellBoard := Buffered Watch Iowr Bell

def powerUp (g : Generics) : BellBoard :=
  ⟨(watchInit .bss).1, (watchInit .bss).2, ⟨.reset, AlarmBellAvalonInterface.reset g⟩⟩

def step (g : Generics) (b : BellBoard) : Input → BellBoard
  | .event e => b.emit e.program
  | .idle => b.hold (Bell.cycle g)
  | .access => b.issue (Bell.cycle g)

def board (g : Generics) (is : List Input) : BellBoard := run (step g) (powerUp g) is

def system (b : BellBoard) : System := b.flush Registers.write Bell.registers

def ledr (b : BellBoard) : BitVec 8 := (AlarmBellAvalonInterface.fromAlarmBell b.env.alarmBell.alarmBell).setWidth 8

def isEdge : Input → Bool
  | .event _ => false
  | .idle | .access => true

/-- START, as each edge of a step finds it. -/
def levels (b : BellBoard) (i : Input) : List Bool := if isEdge i then [b.env.alarmBell.start] else []

/-- The edges since START was last low. -/
def rung (g : Generics) (is : List Input) : ℕ :=
  highs ((trace (step g) (powerUp g) is).flatMap fun x => levels x.1 x.2)

def Settled (b : BellBoard) : Prop := ∀ w ∈ b.pending, w.base ≠ .alarmBell0

instance (b : BellBoard) : Decidable (Settled b) := inferInstanceAs (Decidable (∀ w ∈ _, _))

structure Controlled (b : BellBoard) : Prop where
  slave : b.env.alarmBell.writedataReg = b.env.registers.alarmBell0
  control : ControlState (system b)

theorem slave_cycle (g : Generics) {p : Bell} (h : p.alarmBell.writedataReg = p.registers.alarmBell0)
    (w : Option Iowr) : (p.cycle g w).alarmBell.writedataReg = (p.cycle g w).registers.alarmBell0 := by
  cases w with
  | none => exact h
  | some x =>
      obtain ⟨base, data⟩ := x
      cases base <;> first | rfl | exact h

theorem controlled_step (g : Generics) (b : BellBoard) (i : Input) (h : Controlled b) :
    Controlled (step g b i) := by
  obtain ⟨hslave, hcontrol⟩ := h
  cases i with
  | event e =>
      refine ⟨hslave, ?_⟩
      rw [system, step, Buffered.flush_emit]
      exact control_step _ e hcontrol
  | idle =>
      refine ⟨slave_cycle g hslave none, ?_⟩
      rw [system, step, Buffered.flush_hold fun _ => rfl]
      exact hcontrol
  | access =>
      refine ⟨slave_cycle g hslave b.pending.head?, ?_⟩
      rw [system, step, Buffered.flush_issue (fun _ => rfl) fun _ _ => rfl]
      exact hcontrol

theorem controlled_powerUp (g : Generics) : Controlled (powerUp g) := ⟨rfl, control_start⟩

/-- START is the flag of the alarm, once the last write to ALARM_BELL is made. -/
theorem start_eq {b : BellBoard} (h : Controlled b) (hsettled : Settled b) :
    b.env.alarmBell.start = b.state.gMinut.alarmActive := by
  have hspared : ∀ w ∈ b.pending, ∀ r : Registers, (r.write w).alarmBell0 = r.alarmBell0 := by
    intro w hw r
    have hbase := hsettled w hw
    obtain ⟨base, data⟩ := w
    cases base <;> first | rfl | exact absurd rfl hbase
  have hbell : b.env.registers.alarmBell0 = flag b.state.gMinut.alarmActive :=
    (Buffered.flush_of_spared (φ := Bell.registers) hspared).symm.trans h.control.bell
  rw [AlarmBellAvalonInterface.start, h.slave, hbell]
  cases b.state.gMinut.alarmActive <;> rfl

theorem alarmBell_step (g : Generics) (b : BellBoard) (i : Input) : (step g b i).env.alarmBell.alarmBell =
    run (AlarmBell.step g) b.env.alarmBell.alarmBell (levels b i) := by
  cases i <;> rfl

theorem ledr_board (g : Generics) (is : List Input) :
    (ledr (board g is)).toNat = ledAfter ((rung g is - 2) / (g.n.val * g.divisorMs)) := by
  have hbell : (board g is).env.alarmBell.alarmBell = AlarmBell.after g (rung g is) := by
    rw [rung, ← AlarmBell.run_eq_after]
    exact run_project (φ := fun b : BellBoard => b.env.alarmBell.alarmBell) (alarmBell_step g) (powerUp g) is
  rw [ledr, hbell, AlarmBellAvalonInterface.fromAlarmBell, BitVec.setWidth_setWidth_of_le _ (by decide),
    BitVec.setWidth_eq]
  exact AlarmBellAvalonInterface.led_after g _

theorem levels_settled {g : Generics} {is js : List Input} {a : Bool}
    (h : Meets (step g) (fun b _ => Settled b ∧ b.state.gMinut.alarmActive = a) (board g is) js) :
    ((trace (step g) (board g is) js).flatMap fun x => levels x.1 x.2) =
      List.replicate (js.countP isEdge) a := by
  have hcontrolled : Controlled (board g is) := invariant (controlled_step g) (controlled_powerUp g) is
  generalize board g is = b at h hcontrolled ⊢
  induction js generalizing b with
  | nil => rfl
  | cons i js ih =>
      obtain ⟨⟨hsettled, hactive⟩, hrest⟩ := meets_cons.mp h
      rw [trace_cons, List.flatMap_cons, ih _ hrest (controlled_step g b i hcontrolled), levels, List.countP_cons,
        start_eq hcontrolled hsettled, hactive]
      cases i with
      | event e => rfl
      | idle | access => rfl

/-- The lights run exactly while the alarm is active: as long as it stays so, and its writes to ALARM_BELL
are made, they follow the pattern from where it stood; and once it is not, the next edge puts them out. -/
theorem lights_follow_alarm (g : Generics) (is js : List Input) {a : Bool}
    (h : Meets (step g) (fun b _ => Settled b ∧ b.state.gMinut.alarmActive = a) (board g is) js) :
    (ledr (board g (is ++ js))).toNat =
      if a then ledAfter ((rung g is + js.countP isEdge - 2) / (g.n.val * g.divisorMs))
      else if js.countP isEdge = 0 then (ledr (board g is)).toNat else 0 := by
  rw [ledr_board, ledr_board, rung, trace_append, List.flatMap_append]
  change ledAfter ((highs (_ ++ ((trace (step g) (board g is) js).flatMap fun x => levels x.1 x.2)) - 2) / _) = _
  rw [levels_settled h]
  cases a with
  | true => rw [highs_append_highs, if_pos rfl, rung]
  | false =>
      rw [highs_append_lows, if_neg Bool.false_ne_true]
      split_ifs with hnone
      · rfl
      · rw [Nat.zero_sub, Nat.zero_div]
        rfl

theorem positive_two : 0 < 2 ∧ 2 < 2 ^ 31 := by
  decide

def briefGenerics : Generics := ⟨⟨2, positive_two⟩, ⟨1, positive_one⟩, ⟨1, positive_one⟩, by decide⟩

def firing : List Input :=
  List.replicate 6 .access ++ [.event (.key3 384), .event .key1, .event .key1, .event (.key3 385), .event .key2] ++
    List.replicate 2 .access ++ List.replicate 60 (.event .tick) ++ List.replicate 2 .access

theorem lights_run_after_firing :
    (ledr (board briefGenerics (firing ++ List.replicate 8 .idle))).toNat = 3 := by
  have hlights := lights_follow_alarm briefGenerics firing (List.replicate 8 .idle) (a := true) (by decide +kernel)
  rw [hlights]
  decide +kernel

end Montre.Joint.Lights
