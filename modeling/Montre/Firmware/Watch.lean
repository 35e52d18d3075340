import Montre.Library.Emit

namespace Montre.Firmware

open Montre.Library

inductive WatchMode
  | horloge
  | chrono
  | minuterie
deriving DecidableEq, Repr

structure Horloge where
  heures : UInt8
  minutes : UInt8
  secondes : UInt8
deriving DecidableEq, Repr

/-- `chrono_t`. Its fields, and the last two of `minuterie_t`, are declared 0/1. -/
structure Chrono where
  running : Bool
  chronoActif : Bool
deriving DecidableEq, Repr

structure Minuterie where
  heures : UInt8
  minutes : UInt8
  secondes : UInt8
  running : Bool
  alarmActive : Bool
deriving DecidableEq, Repr

structure Watch where
  gMode : WatchMode
  gHorloge : Horloge
  gChrono : Chrono
  gMinut : Minuterie
deriving DecidableEq, Repr

/-- The globals as the C start-up code leaves them, before `watch_init`. -/
def Watch.bss : Watch :=
  ⟨.horloge, ⟨0, 0, 0⟩, ⟨false, false⟩, ⟨0, 0, 0, false, false⟩⟩

inductive Base
  | timerPeriodl
  | timerPeriodh
  | timerControl
  | keysEdgeCap
  | keysIrqMask
  | ledg
  | alarmBell0
  | chrono0
  | startChrono
  | hexs
deriving DecidableEq, Repr

structure Iowr where
  base : Base
  data : BitVec 32
deriving DecidableEq, Repr

/-- The output registers seen by `TOP_LEVEL` and by the two custom components,
with the widths of the generated peripherals. -/
structure Registers where
  ledg : BitVec 8
  alarmBell0 : BitVec 32
  chrono0 : BitVec 32
  startChrono : BitVec 8
  hexs : BitVec 16
deriving DecidableEq, Repr

def Registers.reset : Registers := ⟨0, 0, 0, 0, 0⟩

def Registers.write (r : Registers) (w : Iowr) : Registers :=
  match w.base with
  | .ledg => { r with ledg := w.data.setWidth 8 }
  | .alarmBell0 => { r with alarmBell0 := w.data }
  | .chrono0 => { r with chrono0 := w.data }
  | .startChrono => { r with startChrono := w.data.setWidth 8 }
  | .hexs => { r with hexs := w.data.setWidth 16 }
  | .timerPeriodl | .timerPeriodh | .timerControl | .keysEdgeCap | .keysIrqMask => r

def flag (b : Bool) : BitVec 32 := if b then 1 else 0

abbrev Routine := Emit.Prog Watch Iowr

abbrev System := Emit.Coupled Watch Registers

def exec (p : Routine) (s : System) : System := Emit.exec Registers.write p s

@[simp] theorem exec_state (p : Routine) (s : System) : (exec p s).state = (p s.state).1 := rfl

@[simp] theorem exec_env (p : Routine) (s : System) :
    (exec p s).env = (p s.state).2.foldl Registers.write s.env := rfl

end Montre.Firmware
