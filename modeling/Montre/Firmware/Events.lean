import Montre.Firmware.Program
import Montre.Library.Runs

namespace Montre.Firmware

open Montre.Library Montre.Library.Runs

inductive Call
  | updateAllTime1s
  | updateDisplay
  | handleKeysAndSwitches (rising : UInt8) (switches : BitVec 10)
deriving DecidableEq, Repr

def Call.program : Call → Routine
  | .updateAllTime1s => Firmware.updateAllTime1s
  | .updateDisplay => Firmware.updateDisplay
  | .handleKeysAndSwitches rising switches => Firmware.handleKeysAndSwitches rising switches

/-- The parts a call is made of: a key event is one branch of the key handler. -/
inductive Event
  | tick
  | display
  | key0
  | key1
  | key2
  | key3 (sw : UInt16)
deriving DecidableEq, Repr

def Event.program : Event → Routine
  | .tick => updateAllTime1s
  | .display => updateDisplay
  | .key0 => Firmware.key0
  | .key1 => Firmware.key1
  | .key2 => Firmware.key2
  | .key3 sw => Firmware.key3 sw

def keyEvents (rising : UInt8) (sw : UInt16) : List Event :=
  (if rising &&& 0x1 ≠ 0 then [.key0] else []) ++ (if rising &&& 0x2 ≠ 0 then [.key1] else []) ++
    (if rising &&& 0x4 ≠ 0 then [.key2] else []) ++ (if rising &&& 0x8 ≠ 0 then [.key3 sw] else [])

def Call.events : Call → List Event
  | .updateAllTime1s => [.tick]
  | .updateDisplay => [.display]
  | .handleKeysAndSwitches rising switches => keyEvents rising (readSwitches switches)

def step (s : System) (e : Event) : System := exec e.program s

def call (s : System) (c : Call) : System := exec c.program s

def start : System := exec watchInit ⟨.bss, .reset⟩

def events (cs : List Call) : List Event := cs.flatMap Call.events

theorem exec_seq (p q : Routine) (s : System) : exec (Emit.seq p q) s = exec q (exec p s) :=
  Emit.exec_seq Registers.write p q s

theorem exec_when (c : Prop) [Decidable c] (e : Event) (s : System) :
    exec (Emit.when c e.program) s = run step s (if c then [e] else []) := by
  rw [exec, Emit.exec_when]
  by_cases h : c
  · simp only [h, decide_true, if_true, run_cons, run_nil]
    rfl
  · simp only [h, decide_false, Bool.false_eq_true, if_false, run_nil]

/-- The handler runs the branches of its mask one after the other. -/
theorem call_eq_run (s : System) (c : Call) : call s c = run step s c.events := by
  cases c with
  | updateAllTime1s | updateDisplay => rfl
  | handleKeysAndSwitches rising switches =>
      by_cases h : rising = 0
      · subst h; rfl
      · have h0 := exec_when (rising &&& 0x1 ≠ 0) .key0
        have h1 := exec_when (rising &&& 0x2 ≠ 0) .key1
        have h2 := exec_when (rising &&& 0x4 ≠ 0) .key2
        have h3 := exec_when (rising &&& 0x8 ≠ 0) (.key3 (readSwitches switches))
        have hc : call s (.handleKeysAndSwitches rising switches) =
            exec (Emit.seq (Emit.when (rising &&& 0x1 ≠ 0) key0)
              (Emit.seq (Emit.when (rising &&& 0x2 ≠ 0) key1)
                (Emit.seq (Emit.when (rising &&& 0x4 ≠ 0) key2)
                  (Emit.when (rising &&& 0x8 ≠ 0) (key3 (readSwitches switches)))))) s := by
          simp [call, Call.program, Firmware.handleKeysAndSwitches, exec, Emit.exec, h]
        rw [hc, exec_seq, exec_seq, exec_seq]
        simp only [Event.program] at h0 h1 h2 h3
        rw [h0, h1, h2, h3]
        simp only [Call.events, keyEvents, run_append]

theorem run_calls (s : System) (cs : List Call) : run call s cs = run step s (events cs) := by
  induction cs generalizing s with
  | nil => rfl
  | cons c cs ih => rw [run_cons, ih, call_eq_run, ← run_append, events, events, List.flatMap_cons]

end Montre.Firmware
