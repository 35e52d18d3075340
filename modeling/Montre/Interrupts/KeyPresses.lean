import Montre.Interrupts.Machine
import Mathlib.Data.Fintype.Basic
import Mathlib.Tactic.FinCases

namespace Montre.Interrupts

open Montre.Library Montre.Library.Runs Montre.Firmware

def KeysIsr.carried : KeysIsr → UInt32
  | .fetched edgeCapture | .cleared edgeCapture => edgeCapture
  | .idle | .stored => 0

/-- A press of key b is still in EDGE_CAP, in the value `keys_isr` carries, or in `keys_rising_flags`. -/
def InFlight (b : Fin 4) (s : State) : Prop :=
  s.edgeCap.getLsbD b ∨ s.keysIsr.carried.toBitVec.getLsbD b ∨ s.keysRisingFlags.toBitVec.getLsbD b

instance (b : Fin 4) (s : State) : Decidable (InFlight b s) := inferInstanceAs (Decidable (_ ∨ _ ∨ _))

def Sees (b : Fin 4) (s : State) : Action → Prop
  | .main _ => s.pc = .readRising ∧ s.keysRisingFlags.toBitVec.getLsbD b
  | .press _ | .keysIsr | .timerIsr => False

instance (b : Fin 4) (s : State) (a : Action) : Decidable (Sees b s a) :=
  match a with
  | .main _ => inferInstanceAs (Decidable (_ ∧ _))
  | .press _ | .keysIsr | .timerIsr => isFalse id

/-- The next step of `keys_isr` loses nothing. Clearing EDGE_CAP loses no key pressed since the
read, unless it is pending in the flags anyway; storing overwrites no pending key, unless it is
carried along or pressed again; and no store falls between the read and the clear of main. -/
def KeepsPresses (s : State) : KeysIsr → Prop
  | .fetched edgeCapture => ∀ b : Fin 4, s.edgeCap.getLsbD b →
      edgeCapture.toBitVec.getLsbD b ∨ (s.pc.consuming = false ∧ s.keysRisingFlags.toBitVec.getLsbD b)
  | .cleared edgeCapture => ∀ b : Fin 4,
      if s.pc.consuming then edgeCapture.toBitVec.getLsbD b → s.edgeCap.getLsbD b
      else s.keysRisingFlags.toBitVec.getLsbD b → edgeCapture.toBitVec.getLsbD b ∨ s.edgeCap.getLsbD b
  | .idle | .stored => True

def Careful (s : State) : Action → Prop
  | .keysIsr => KeepsPresses s s.keysIsr
  | .press _ | .timerIsr | .main _ => True

instance (s : State) (k : KeysIsr) : Decidable (KeepsPresses s k) :=
  match k with
  | .fetched _ | .cleared _ => inferInstanceAs (Decidable (∀ _ : Fin 4, _))
  | .idle | .stored => isTrue trivial

instance (s : State) (a : Action) : Decidable (Careful s a) :=
  match a with
  | .keysIsr => inferInstanceAs (Decidable (KeepsPresses s s.keysIsr))
  | .press _ | .timerIsr | .main _ => isTrue trivial

/-- The places from which a pending press still reaches the handler: the flags count
only while main is not about to clear them. -/
def Held (b : Fin 4) (s : State) : Prop :=
  s.edgeCap.getLsbD b ∨ s.keysIsr.carried.toBitVec.getLsbD b ∨
    (s.pc.consuming = false ∧ s.keysRisingFlags.toBitVec.getLsbD b)

theorem held_inFlight {b : Fin 4} {s : State} (h : Held b s) : InFlight b s := by
  rcases h with h | h | ⟨-, h⟩
  · exact .inl h
  · exact .inr (.inl h)
  · exact .inr (.inr h)

theorem stored_bit (edgeCapture : UInt32) (b : Fin 4) :
    (edgeCapture &&& 0xF).toUInt8.toBitVec.getLsbD b = edgeCapture.toBitVec.getLsbD b := by
  fin_cases b <;> simp

theorem held_press (b : Fin 4) (s : State) : Held b (step s (.press b)) := by
  left
  fin_cases b <;> simp [step]

theorem held_keysIsr {b : Fin 4} {s : State} (h : Held b s) (hc : Careful s .keysIsr) :
    Held b (stepKeysIsr s) := by
  cases hk : s.keysIsr with
  | idle =>
      simp only [stepKeysIsr, Held, hk, KeysIsr.carried] at h ⊢
      rcases h with h | h | h
      · exact .inl h
      · simp at h
      · exact .inr (.inr h)
  | fetched edgeCapture =>
      simp only [stepKeysIsr, Held, Careful, KeepsPresses, hk, KeysIsr.carried] at h hc ⊢
      rcases h with h | h | h
      · exact .inr (hc b h)
      · exact .inr (.inl h)
      · exact .inr (.inr h)
  | cleared edgeCapture =>
      simp only [stepKeysIsr, Held, Careful, KeepsPresses, hk, KeysIsr.carried, stored_bit] at h hc ⊢
      have hb := hc b
      cases hp : s.pc.consuming <;> simp only [hp, if_true, if_false, Bool.false_eq_true] at h hb ⊢
      · rcases h with h | h | h
        · exact .inl h
        · exact .inr (.inr ⟨trivial, h⟩)
        · rcases hb h.2 with hb | hb
          · exact .inr (.inr ⟨trivial, hb⟩)
          · exact .inl hb
      · rcases h with h | h | h
        · exact .inl h
        · exact .inl (hb h)
        · exact absurd h.1 (by decide)
  | stored =>
      simp only [stepKeysIsr, Held, hk, KeysIsr.carried] at h ⊢
      exact h

theorem held_main {b : Fin 4} {s : State} (h : Held b s) (switches : BitVec 10)
    (hs : ¬ Sees b s (.main switches)) : Held b (stepMain s switches) := by
  simp only [Held, stepMain_edgeCap, stepMain_keysIsr, stepMain_consuming, stepMain_keysRisingFlags] at h ⊢
  rcases h with h | h | ⟨hc, hf⟩
  · left
    exact h
  · right
    left
    exact h
  · by_cases hr : s.pc = .readRising
    · -- this very step would see it
      exact absurd ⟨hr, hf⟩ hs
    · right
      right
      simpa [hr, hc] using hf

theorem held_step {b : Fin 4} (s : State) (a : Action) (h : Held b s)
    (ha : Careful s a ∧ ¬ Sees b s a) : Held b (step s a) := by
  cases a with
  | press c =>
      rcases h with h | h
      · left
        simp only [step, BitVec.getLsbD_or, h, Bool.true_or]
      · exact .inr h
  | keysIsr => exact held_keysIsr h ha.1
  | timerIsr => exact h
  | main switches => exact held_main h switches ha.2

/-- In every interleaving whose `keys_isr` steps are careful, a press stays in flight
until a call of the handler sees it. -/
theorem press_kept_while_careful (as bs : List Action) (b : Fin 4)
    (h : Meets step (fun s a => Enabled s a ∧ Careful s a) init (as ++ .press b :: bs))
    (hns : Meets step (fun s a => ¬ Sees b s a) (run step init (as ++ [.press b])) bs) :
    InFlight b (run step init (as ++ .press b :: bs)) := by
  rw [List.append_cons] at h ⊢
  have hbs : Meets step (fun s a => Careful s a ∧ ¬ Sees b s a) (run step init (as ++ [.press b])) bs := by
    intro x hx
    obtain ⟨-, hcare⟩ := (meets_append.mp h).2 x hx
    exact ⟨hcare, hns x hx⟩
  rw [run_append]
  apply held_inFlight
  apply hbs.invariant (I := Held b) held_step
  rw [run_snoc]
  exact held_press b _

def servingKey1 : List Action :=
  [.press 1, .keysIsr, .keysIsr, .keysIsr, .keysIsr, .main 0, .main 0, .main 0, .main 0, .main 0, .main 0]

theorem press_kept_while_careful_key2 :
    InFlight 2 (run step init (servingKey1 ++ .press 2 :: [.keysIsr, .keysIsr, .keysIsr, .keysIsr, .main 0])) := by
  apply press_kept_while_careful
  · decide
  · decide

/-- KEY2 is pressed and stored while the handler prints; KEY3 is pressed before the handler
is called again, and its store erases KEY2. -/
theorem press_lost :
    ¬ ∀ (as bs : List Action) (b : Fin 4), Meets step Enabled init (as ++ .press b :: bs) →
      Meets step (fun s a => ¬ Sees b s a) (run step init (as ++ [.press b])) bs →
        InFlight b (run step init (as ++ .press b :: bs)) := by
  intro h
  have hkey := h servingKey1
    [.keysIsr, .keysIsr, .keysIsr, .keysIsr, .press 3, .keysIsr, .keysIsr, .keysIsr, .keysIsr] 2
    (by decide) (by decide)
  exact absurd hkey (by decide)

end Montre.Interrupts
