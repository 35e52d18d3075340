import Montre.Firmware.Events

namespace Montre.Interrupts

open Montre.Library Montre.Library.Runs Montre.Firmware

/-- The points of `main` between two accesses to what the interrupt routines share with it. -/
inductive Pc
  | testTick
  | clearTick
  | updateAllTime1s
  | updateDisplay
  | testKeys
  | clearKeys
  | readRising
  | clearRising (rising : UInt8)
  | readSwitches (rising : UInt8)
  | printRising (rising : UInt8) (sw : UInt16)
  | branches (es : List Event)
deriving DecidableEq

/-- `keys_isr`: not running, or with its local `edge_capture` after the read of EDGE_CAP,
after the write that clears it, or after the store into `keys_rising_flags`. -/
inductive KeysIsr
  | idle
  | fetched (edgeCapture : UInt32)
  | cleared (edgeCapture : UInt32)
  | stored
deriving DecidableEq

structure State where
  pc : Pc
  keysIsr : KeysIsr
  edgeCap : BitVec 4
  tick1sFlag : Bool
  keysRisingFlags : UInt8
  keysInterruptFlag : Bool
  system : System
deriving DecidableEq

def init : State := ⟨.testTick, .idle, 0, false, 0, false, start⟩

inductive Action
  | press (b : Fin 4)
  | keysIsr
  | timerIsr
  | main (switches : BitVec 10)
deriving DecidableEq

/-- The processor runs one routine at a time: main waits for `keys_isr` to return,
and so does `timer_isr`. Keys are pressed at any moment. -/
def Enabled (s : State) : Action → Prop
  | .press _ | .keysIsr => True
  | .timerIsr | .main _ => s.keysIsr = .idle

instance (s : State) (a : Action) : Decidable (Enabled s a) :=
  match a with
  | .press _ | .keysIsr => isTrue trivial
  | .timerIsr | .main _ => inferInstanceAs (Decidable (_ = _))

def stepKeysIsr (s : State) : State :=
  match s.keysIsr with
  | .idle => { s with keysIsr := .fetched ⟨s.edgeCap.setWidth 32⟩ }
  | .fetched edgeCapture => { s with keysIsr := .cleared edgeCapture, edgeCap := 0 }
  | .cleared edgeCapture =>
      { s with keysIsr := .stored, keysRisingFlags := (edgeCapture &&& 0xF).toUInt8 }
  | .stored => { s with keysIsr := .idle, keysInterruptFlag := true }

def stepMain (s : State) (switches : BitVec 10) : State :=
  match s.pc with
  | .testTick => { s with pc := if s.tick1sFlag then .clearTick else .testKeys }
  | .clearTick => { s with pc := .updateAllTime1s, tick1sFlag := false }
  | .updateAllTime1s => { s with pc := .updateDisplay, system := Firmware.step s.system .tick }
  | .updateDisplay => { s with pc := .testKeys, system := Firmware.step s.system .display }
  | .testKeys => { s with pc := if s.keysInterruptFlag then .clearKeys else .testTick }
  | .clearKeys => { s with pc := .readRising, keysInterruptFlag := false }
  | .readRising => { s with pc := .clearRising s.keysRisingFlags }
  | .clearRising rising => { s with pc := .readSwitches rising, keysRisingFlags := 0 }
  | .readSwitches rising => { s with pc := .printRising rising (Firmware.readSwitches switches) }
  | .printRising rising sw => { s with pc := .branches (keyEvents rising sw) }
  | .branches [] => { s with pc := .testTick }
  | .branches (e :: es) => { s with pc := .branches es, system := Firmware.step s.system e }

def step (s : State) : Action → State
  | .press b => { s with edgeCap := s.edgeCap ||| (1#4 <<< b.val) }
  | .keysIsr => stepKeysIsr s
  | .timerIsr => { s with tick1sFlag := true }
  | .main switches => stepMain s switches

/-- Main is between its read of `keys_rising_flags` and the write that clears it. -/
def Pc.consuming : Pc → Bool
  | .clearRising _ => true
  | _ => false

section Main

variable (s : State) (switches : BitVec 10)

@[simp] theorem stepMain_keysIsr : (stepMain s switches).keysIsr = s.keysIsr := by
  unfold stepMain
  split <;> rfl

@[simp] theorem stepMain_edgeCap : (stepMain s switches).edgeCap = s.edgeCap := by
  unfold stepMain
  split <;> rfl

theorem stepMain_tick1sFlag :
    (stepMain s switches).tick1sFlag = if s.pc = .clearTick then false else s.tick1sFlag := by
  unfold stepMain
  split <;> simp [*]

theorem stepMain_keysRisingFlags :
    (stepMain s switches).keysRisingFlags = if s.pc.consuming then 0 else s.keysRisingFlags := by
  unfold stepMain
  split <;> simp [*, Pc.consuming]

theorem stepMain_consuming : (stepMain s switches).pc.consuming = decide (s.pc = .readRising) := by
  unfold stepMain
  split <;> simp [*, Pc.consuming]
  · split_ifs <;> rfl
  · split_ifs <;> rfl

theorem stepMain_keysInterruptFlag :
    (stepMain s switches).keysInterruptFlag = if s.pc = .clearKeys then false else s.keysInterruptFlag := by
  unfold stepMain
  split <;> simp [*]

theorem stepMain_readRising : (stepMain s switches).pc = .readRising ↔ s.pc = .clearKeys := by
  unfold stepMain
  split <;> simp [*]
  · split_ifs <;> simp
  · split_ifs <;> simp

theorem stepMain_clearTick :
    (stepMain s switches).pc = .clearTick ↔ s.pc = .testTick ∧ s.tick1sFlag = true := by
  unfold stepMain
  split <;> simp [*]
  split_ifs <;> simp

theorem stepMain_updateAllTime1s :
    (stepMain s switches).pc = .updateAllTime1s ↔ s.pc = .clearTick := by
  unfold stepMain
  split <;> simp [*]
  · split_ifs <;> simp
  · split_ifs <;> simp

end Main

end Montre.Interrupts
