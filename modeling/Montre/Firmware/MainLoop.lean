import Montre.Firmware.Frames

namespace Montre.Firmware

open Montre.Library Montre.Library.Runs

/-- What one pass of `while (1)` may do: serve a tick, or serve the keys. -/
inductive LoopEvent
  | tick
  | keys (rising : UInt8) (switches : BitVec 10)
deriving DecidableEq, Repr

def LoopEvent.calls : LoopEvent → List Call
  | .tick => [.updateAllTime1s, .updateDisplay]
  | .keys rising switches => [.handleKeysAndSwitches rising switches]

def loopStep (s : System) (e : LoopEvent) : System := run call s e.calls

theorem loopStep_tick (s : System) : loopStep s .tick = step (step s .tick) .display := rfl

theorem loopStep_keys (s : System) (rising : UInt8) (switches : BitVec 10) :
    loopStep s (.keys rising switches) = run step s (keyEvents rising (readSwitches switches)) :=
  call_eq_run s (.handleKeysAndSwitches rising switches)

theorem run_loop (s : System) (es : List LoopEvent) :
    run loopStep s es = run call s (es.flatMap LoopEvent.calls) := by
  induction es generalizing s with
  | nil => rfl
  | cons e es ih => rw [run_cons, ih, loopStep, List.flatMap_cons, run_append]

theorem keys_invariant {I : System → Prop} (h0 : ∀ s, I s → I (step s .key0))
    (h1 : ∀ s, I s → I (step s .key1)) (h2 : ∀ s, I s → I (step s .key2))
    (h3 : ∀ s sw, I s → I (step s (.key3 sw))) {s : System} (hs : I s) (rising : UInt8)
    (switches : BitVec 10) : I (loopStep s (.keys rising switches)) := by
  rw [loopStep_keys, keyEvents, run_append, run_append, run_append]
  have hif (c : Prop) [Decidable c] (e : Event) (he : ∀ s, I s → I (step s e)) (t : System) (ht : I t) :
      I (run step t (if c then [e] else [])) := by
    split_ifs
    · exact he t ht
    · exact ht
  apply hif _ _ fun t => h3 t _
  apply hif _ _ h2
  apply hif _ _ h1
  apply hif _ _ h0
  exact hs

end Montre.Firmware
