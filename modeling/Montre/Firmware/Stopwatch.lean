import Montre.Firmware.MainLoop

namespace Montre.Firmware

open Montre.Library Montre.Library.Runs

/-- Bit 0 of the CHRONO control register, the START input of the CHRONO component. -/
def startBit (s : System) : Bool := s.env.chrono0.getLsbD 0

def StartAgrees (s : System) : Prop := startBit s = s.state.gChrono.running

def StartSettled (s : System) : Prop := s.state.gMode ≠ .chrono → StartAgrees s

/-- The steps that leave the control register as it should be: KEY1 does not leave the
stopwatch or the alarm mode with START set, unless KEY0 in the same mask clears it, and
the alarm does not fire in the stopwatch mode before a change of `running` has been written. -/
def Forwarded (s : System) : LoopEvent → Prop
  | .tick => Fires s.state → s.state.gMode = .chrono → StartAgrees s
  | .keys rising _ => rising &&& 0x1 = 0 → rising &&& 0x2 ≠ 0 → s.state.gMode ≠ .horloge → startBit s = false

instance (s : System) : Decidable (StartAgrees s) := inferInstanceAs (Decidable (_ = _))

instance (s : System) (e : LoopEvent) : Decidable (Forwarded s e) :=
  match e with
  | .tick => inferInstanceAs (Decidable (_ → _ → _))
  | .keys _ _ => inferInstanceAs (Decidable (_ → _ → _ → _))

theorem tail_gMode (s : System) (rising : UInt8) (sw : UInt16) :
    (run step s ((if rising &&& 0x4 ≠ 0 then [.key2] else []) ++
      (if rising &&& 0x8 ≠ 0 then [.key3 sw] else []))).state.gMode = s.state.gMode := by
  split_ifs <;> simp

section Frames

variable {s : System} (h : s.state.gMode ≠ .chrono)

include h

theorem key2_keeps_stopwatch :
    (step s .key2).state.gChrono = s.state.gChrono ∧ startBit (step s .key2) = startBit s := by
  rcases step_key2_cases s with ⟨hm, -⟩ | ⟨-, -, hs⟩ | ⟨-, hs⟩
  · exact absurd hm h
  · rw [hs]
    exact ⟨rfl, rfl⟩
  · rw [hs]
    exact ⟨rfl, rfl⟩

theorem key3_keeps_stopwatch (sw : UInt16) :
    (step s (.key3 sw)).state.gChrono = s.state.gChrono ∧ startBit (step s (.key3 sw)) = startBit s := by
  rcases step_key3_cases s sw with ⟨-, hs⟩ | ⟨hm, -⟩ | ⟨-, -, hs⟩ | ⟨-, -, -, hs⟩ | ⟨-, -, -, hs⟩
  · rw [hs]
    exact ⟨rfl, rfl⟩
  · exact absurd hm h
  · rw [hs]
    exact ⟨rfl, rfl⟩
  · rw [hs]
    exact ⟨rfl, rfl⟩
  · rw [hs]
    exact ⟨rfl, rfl⟩

theorem tail_keeps_stopwatch (rising : UInt8) (sw : UInt16) :
    (run step s ((if rising &&& 0x4 ≠ 0 then [.key2] else []) ++
      (if rising &&& 0x8 ≠ 0 then [.key3 sw] else []))).state.gChrono = s.state.gChrono ∧
    startBit (run step s ((if rising &&& 0x4 ≠ 0 then [.key2] else []) ++
      (if rising &&& 0x8 ≠ 0 then [.key3 sw] else []))) = startBit s := by
  obtain ⟨hc₂, hb₂⟩ := key2_keeps_stopwatch h
  have hm₂ : (step s .key2).state.gMode ≠ .chrono := by rwa [step_key2_gMode]
  obtain ⟨hc₃, hb₃⟩ := key3_keeps_stopwatch h sw
  obtain ⟨hc₂₃, hb₂₃⟩ := key3_keeps_stopwatch hm₂ sw
  split_ifs <;> simp [hc₂, hb₂, hc₃, hb₃, hc₂₃, hb₂₃]

end Frames

theorem settled_start : StartSettled start := by
  intro _
  rfl

theorem settled_head {s : System} (h : StartSettled s) {rising : UInt8} {switches : BitVec 10}
    (hf : Forwarded s (.keys rising switches)) :
    StartSettled (run step s ((if rising &&& 0x1 ≠ 0 then [.key0] else []) ++
      (if rising &&& 0x2 ≠ 0 then [.key1] else []))) := by
  have hreset : StartSettled (step s .key0) := by
    intro _
    simp [StartAgrees, startBit, start, exec, Emit.exec, watchInit]
  by_cases h0 : rising &&& 0x1 = 0 <;> by_cases h1 : rising &&& 0x2 = 0 <;>
    simp only [h0, h1, ne_eq, not_true_eq_false, not_false_eq_true, if_true, if_false, List.nil_append,
      List.append_nil, List.cons_append, run_cons, run_nil]
  · exact h
  · by_cases hm : s.state.gMode = .horloge
    · simp [StartSettled, hm, WatchMode.next]
    · intro _
      exact hf h0 h1 hm
  · exact hreset
  · simp [StartSettled, start, exec, Emit.exec, watchInit, WatchMode.next]

theorem settled_keys {s : System} (h : StartSettled s) {rising : UInt8} {switches : BitVec 10}
    (hf : Forwarded s (.keys rising switches)) : StartSettled (loopStep s (.keys rising switches)) := by
  have hhead := settled_head h hf
  rw [loopStep_keys, keyEvents, List.append_assoc, run_append]
  generalize run step s _ = t at hhead ⊢
  intro hm
  by_cases ht : t.state.gMode = .chrono
  · exact absurd ((tail_gMode t rising _).trans ht) hm
  · obtain ⟨hc, hb⟩ := tail_keeps_stopwatch ht rising (readSwitches switches)
    rw [StartAgrees, hc, hb]
    exact hhead ht

theorem agrees_display_iff (s : System) :
    StartAgrees (step s .display) ↔ s.state.gMode = .chrono ∨ StartAgrees s := by
  rw [StartAgrees, startBit, step_display_state, step_display_env]
  by_cases hm : s.state.gMode = .chrono
  · cases hr : s.state.gChrono.running <;> simp [hm, flag]
  · simp [hm, StartAgrees, startBit]

theorem agrees_tick_iff (s : System) : StartAgrees (step s .tick) ↔ StartAgrees s := by
  by_cases hf : Fires s.state
  · rw [step_tick_of_fires hf]
    rfl
  · rw [step_tick_of_not_fires hf]
    rfl

theorem gMode_tick (s : System) :
    (step s .tick).state.gMode = if Fires s.state then .minuterie else s.state.gMode := by
  split_ifs with hf
  · rw [step_tick_of_fires hf]
  · rw [step_tick_of_not_fires hf]

theorem agrees_loop_tick_iff (s : System) :
    StartAgrees (loopStep s .tick) ↔ (¬ Fires s.state ∧ s.state.gMode = .chrono) ∨ StartAgrees s := by
  rw [loopStep_tick, agrees_display_iff, agrees_tick_iff, gMode_tick]
  split_ifs with hf <;> simp [hf]

theorem agrees_after_tick {s : System} (h : StartSettled s) (hf : Forwarded s .tick) :
    StartAgrees (loopStep s .tick) := by
  rw [agrees_loop_tick_iff]
  by_cases hm : s.state.gMode = .chrono
  · by_cases hfire : Fires s.state
    · right
      exact hf hfire hm
    · left
      exact ⟨hfire, hm⟩
  · right
    exact h hm

theorem settled_loopStep (s : System) (e : LoopEvent) (h : StartSettled s) (hf : Forwarded s e) :
    StartSettled (loopStep s e) := by
  cases e with
  | keys rising switches => exact settled_keys h hf
  | tick =>
      intro _
      exact agrees_after_tick h hf

theorem stale_keys {s : System} {rising : UInt8} {switches : BitVec 10}
    (h : ¬ Forwarded s (.keys rising switches)) :
    (loopStep s (.keys rising switches)).state.gMode ≠ .chrono ∧
      ¬ StartAgrees (loopStep s (.keys rising switches)) := by
  obtain ⟨h0, h1, hm, hb⟩ : rising &&& 0x1 = 0 ∧ rising &&& 0x2 ≠ 0 ∧ s.state.gMode ≠ .horloge ∧
      startBit s = true := by
    simpa only [Forwarded, Classical.not_imp, Bool.not_eq_false] using h
  have hnext : (step s .key1).state.gMode ≠ .chrono := by
    cases hmode : s.state.gMode <;> simp_all [WatchMode.next]
  have hrun : loopStep s (.keys rising switches) =
      run step (step s .key1) ((if rising &&& 0x4 ≠ 0 then [.key2] else []) ++
        (if rising &&& 0x8 ≠ 0 then [.key3 (readSwitches switches)] else [])) := by
    rw [loopStep_keys, keyEvents, List.append_assoc, run_append, if_neg (by simpa using h0), if_pos h1]
    rfl
  obtain ⟨hc, ht⟩ := tail_keeps_stopwatch hnext rising (readSwitches switches)
  rw [hrun, tail_gMode]
  constructor
  · exact hnext
  · rw [StartAgrees, hc, ht]
    simpa [startBit] using hb

/-- While every change of the stopwatch is forwarded, START agrees with `running` after each
display; a step that forgets it is followed by a disagreement by the next tick. -/
theorem start_agrees_while_forwarded (es : List LoopEvent) :
    (Meets loopStep Forwarded start es →
      Meets loopStep (fun s e => e = .tick → StartAgrees (loopStep s e)) start es) ∧
    ∀ e, ¬ Forwarded (run loopStep start es) e →
      ¬ Meets loopStep (fun s e => e = .tick → StartAgrees (loopStep s e)) start (es ++ [e, .tick]) := by
  constructor
  · intro h x hx he
    have hs := h.trace_invariant (I := StartSettled) settled_loopStep settled_start x hx
    have hf := h x hx
    rw [he] at hf ⊢
    exact agrees_after_tick hs hf
  · intro e he h
    obtain ⟨h₁, h₂, -⟩ := (meets_cons.trans (and_congr_right' meets_cons)).mp (meets_append.mp h).2
    cases e with
    | tick =>
        obtain ⟨hfire, hm, hn⟩ : Fires (run loopStep start es).state ∧
            (run loopStep start es).state.gMode = .chrono ∧ ¬ StartAgrees (run loopStep start es) := by
          simpa only [Forwarded, Classical.not_imp] using he
        rcases (agrees_loop_tick_iff _).mp (h₁ rfl) with hc | hc
        · exact hc.1 hfire
        · exact hn hc
    | keys rising switches =>
        obtain ⟨hm, hn⟩ := stale_keys he
        rcases (agrees_loop_tick_iff _).mp (h₂ rfl) with hc | hc
        · exact hm hc.2
        · exact hn hc

def started : List LoopEvent := [.keys 0x2 0, .keys 0x4 0, .tick]

theorem start_agrees_while_forwarded_started :
    Meets loopStep (fun s e => e = .tick → StartAgrees (loopStep s e)) start started ∧
      ¬ Meets loopStep (fun s e => e = .tick → StartAgrees (loopStep s e)) start
        (started ++ [.keys 0x2 0, .tick]) := by
  obtain ⟨hagree, hstale⟩ := start_agrees_while_forwarded started
  constructor
  · apply hagree
    decide
  · apply hstale
    decide

theorem start_stale_after_key1 :
    ¬ ∀ es : List LoopEvent,
      Meets loopStep (fun s e => e = .tick → StartAgrees (loopStep s e)) start es := by
  intro h
  have hrun := h (started ++ [.keys 0x2 0, .tick])
  exact absurd hrun (by decide)

end Montre.Firmware
