import Montre.Hardware.AlarmBell
import Montre.Hardware.ChronoAvalonInterface

namespace Montre.Hardware

open Montre.Library Runs Waveform

structure AlarmBellAvalonInterface where
  writedataReg : BitVec 32
  byteenableReg : BitVec 4
  readdataReg : BitVec 32
  alarmBell : AlarmBell
deriving DecidableEq

namespace AlarmBellAvalonInterface

def reset (g : Generics) : AlarmBellAvalonInterface := ⟨0, 0, 0, AlarmBell.reset g⟩

def start (s : AlarmBellAvalonInterface) : Bool := s.writedataReg.getLsbD 0

/-- The lights; nothing drives the 24 upper bits of the word. -/
def fromAlarmBell (s : AlarmBell) : BitVec 32 := s.process.led.setWidth 32

/-- One clock cycle once resetn is released, so that RST of ALARM_BELL is low. -/
def step (g : Generics) (s : AlarmBellAvalonInterface) (c : BusCycle) : AlarmBellAvalonInterface where
  writedataReg := if c.chipselect && c.write then c.writedata else s.writedataReg
  byteenableReg := if c.chipselect && c.write then c.byteenable else s.byteenableReg
  readdataReg := if c.chipselect && c.read then fromAlarmBell s.alarmBell else s.readdataReg
  alarmBell := AlarmBell.step g s.alarmBell s.start

theorem led_after (g : Generics) (n : ℕ) :
    (AlarmBell.after g n).process.led.toNat = ledAfter ((n - 2) / (g.n.val * g.divisorMs)) := by
  have hk : Fdiv.ticks g.divisorMs n / g.n.val = (n - 2) / (g.n.val * g.divisorMs) := by
    rw [Fdiv.ticks, Nat.div_div_eq_div_mul, Nat.mul_comm]
  simp only [AlarmBell.after, Prescaled.after, Chenilliard.after, hk, BitVec.toNat_ofNat]
  apply Nat.mod_eq_of_lt
  exact ledAfter_lt _

end AlarmBellAvalonInterface

end Montre.Hardware
