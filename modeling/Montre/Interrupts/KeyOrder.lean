import Montre.Interrupts.Machine

namespace Montre.Interrupts

open Montre.Library Montre.Library.Runs Montre.Firmware

/-- The value that an execution of `keys_isr` stores into `keys_rising_flags`. -/
def stored (x : State × Action) : Option UInt8 :=
  match x.2, x.1.keysIsr with
  | .keysIsr, .cleared edgeCapture => some (edgeCapture &&& 0xF).toUInt8
  | _, _ => none

/-- The value that a call of the handler takes into `rising`, when it is not 0. -/
def taken (x : State × Action) : Option UInt8 :=
  match x.2 with
  | .main _ => if x.1.pc = .readRising ∧ x.1.keysRisingFlags ≠ 0 then some x.1.keysRisingFlags else none
  | .press _ | .keysIsr | .timerIsr => none

/-- What the next call would take. A value that is already read is about to be cleared. -/
def waiting (s : State) : List UInt8 :=
  if s.pc.consuming = true ∨ s.keysRisingFlags = 0 then [] else [s.keysRisingFlags]

/-- A pending press is announced, about to be announced, or about to be taken. -/
def NotStranded (s : State) : Prop :=
  s.keysRisingFlags ≠ 0 →
    s.keysInterruptFlag = true ∨ s.keysIsr = .stored ∨ s.pc = .readRising ∨ s.pc.consuming = true

theorem waiting_sublist (s : State) : List.Sublist (waiting s) [s.keysRisingFlags] := by
  rw [waiting]
  split_ifs
  · exact List.nil_sublist _
  · exact List.Sublist.refl _

theorem channel_keysIsr (s : State) : List.Sublist ((taken (s, .keysIsr)).toList ++ waiting (stepKeysIsr s))
    (waiting s ++ (stored (s, .keysIsr)).toList) := by
  cases hk : s.keysIsr with
  | idle | fetched edgeCapture | stored => simp [stepKeysIsr, hk, taken, Interrupts.stored, waiting]
  | cleared edgeCapture =>
      have hstore := waiting_sublist (stepKeysIsr s)
      simp only [taken, Interrupts.stored, hk, Option.toList_none, Option.toList_some, List.nil_append]
      rw [show (stepKeysIsr s).keysRisingFlags = (edgeCapture &&& 0xF).toUInt8 by rw [stepKeysIsr, hk]] at hstore
      exact hstore.trans (List.sublist_append_right _ _)

theorem channel_main (s : State) (switches : BitVec 10) :
    List.Sublist ((taken (s, .main switches)).toList ++ waiting (stepMain s switches))
      (waiting s ++ (stored (s, .main switches)).toList) := by
  simp only [taken, stored, waiting, stepMain_consuming, stepMain_keysRisingFlags]
  by_cases hr : s.pc = .readRising
  · by_cases hf : s.keysRisingFlags = 0 <;> simp [hr, hf, Pc.consuming]
  · cases hc : s.pc.consuming
    · simp [hr]
    · simp [hr]

theorem channel_step (s : State) (a : Action) :
    List.Sublist ((taken (s, a)).toList ++ waiting (step s a)) (waiting s ++ (stored (s, a)).toList) := by
  cases a with
  | press b => exact List.sublist_append_left _ _
  | keysIsr => exact channel_keysIsr s
  | timerIsr => exact List.sublist_append_left _ _
  | main switches => exact channel_main s switches

theorem notStranded_keysIsr {s : State} (h : NotStranded s) : NotStranded (stepKeysIsr s) := by
  intro hf
  cases hk : s.keysIsr with
  | idle | fetched edgeCapture =>
      simp only [NotStranded, stepKeysIsr, hk, reduceCtorEq, false_or] at h hf ⊢
      exact h hf
  | cleared edgeCapture => simp [stepKeysIsr, hk]
  | stored => simp [stepKeysIsr, hk]

theorem notStranded_main {s : State} (h : NotStranded s) (switches : BitVec 10) :
    NotStranded (stepMain s switches) := by
  intro hf
  rw [stepMain_keysRisingFlags] at hf
  split_ifs at hf with hc
  · exact absurd rfl hf
  · rw [stepMain_keysInterruptFlag, stepMain_keysIsr, stepMain_readRising, stepMain_consuming]
    rcases h hf with h | h | h | h
    · by_cases hk : s.pc = .clearKeys
      · simp [hk]
      · simp [hk, h]
    · simp [h]
    · simp [h]
    · exact absurd h hc

theorem notStranded_step (s : State) (a : Action) (h : NotStranded s) : NotStranded (step s a) := by
  cases a with
  | press b => exact h
  | keysIsr => exact notStranded_keysIsr h
  | timerIsr => exact h
  | main switches => exact notStranded_main h switches

/-- In every interleaving the handler takes values in the order of their stores, each store at
most once, and at the head of the loop a pending press is always announced. -/
theorem presses_taken_in_order (as : List Action) :
    List.Sublist ((trace step init as).filterMap taken) ((trace step init as).filterMap stored) ∧
      ((run step init as).pc = .testTick → (run step init as).keysIsr = .idle →
        (run step init as).keysRisingFlags ≠ 0 → (run step init as).keysInterruptFlag = true) := by
  constructor
  · have hchannel := takes_sublist_puts channel_step init as
    exact (List.sublist_append_left _ _).trans hchannel
  · intro hpc hisr hf
    have hflag := invariant (I := NotStranded) notStranded_step (by simp [NotStranded, init]) as hf
    simpa [hpc, hisr, Pc.consuming] using hflag

theorem presses_taken_in_order_key1 :
    (run step init (.press 1 :: List.replicate 4 .keysIsr)).keysInterruptFlag = true :=
  (presses_taken_in_order (.press 1 :: List.replicate 4 .keysIsr)).2 (by decide) (by decide) (by decide)

end Montre.Interrupts
