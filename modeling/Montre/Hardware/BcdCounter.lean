import Montre.Hardware.Prescaled
import Mathlib.Tactic.SplitIfs

namespace Montre.Hardware

structure BcdCounter where
  tickN1ms : ℕ
  sigUnities : ℕ
  sigTens : ℕ
  sigHundreds : ℕ
  sigThousnds : ℕ
  rstFdiv : Bool
deriving DecidableEq

namespace BcdCounter

def reset : BcdCounter := ⟨0, 0, 0, 0, 0, true⟩

def carry (s : BcdCounter) : BcdCounter :=
  if s.sigUnities = 9 then
    if s.sigTens = 5 ∧ s.sigUnities = 9 then
      if s.sigHundreds = 9 then
        if (s.sigThousnds = 2 ∧ s.sigHundreds = 3) ∧ (s.sigTens = 5 ∧ s.sigUnities = 9) then
          { s with sigUnities := 0, sigTens := 0, sigThousnds := 0, sigHundreds := 0 }
        else
          { s with sigUnities := 0, sigTens := 0, sigHundreds := 0, sigThousnds := natIncr s.sigThousnds }
      else { s with sigUnities := 0, sigTens := 0, sigHundreds := natIncr s.sigHundreds }
    else { s with sigUnities := 0, sigTens := natIncr s.sigTens }
  else { s with sigUnities := natIncr s.sigUnities }

def edge (N : ℕ) (start tick1ms : Bool) (s : BcdCounter) : BcdCounter :=
  if start then
    let s := { s with rstFdiv := false }
    if tick1ms then
      if s.tickN1ms = N - 1 then { s.carry with tickN1ms := 0 }
      else { s with tickN1ms := natIncr s.tickN1ms }
    else s
  else { s with rstFdiv := true }

def process (N : ℕ) : TickProcess BcdCounter := ⟨reset, edge N, rstFdiv⟩

def after (N t : ℕ) (r : Bool) : BcdCounter :=
  ⟨t % N, t / N % 10, t / N / 10 % 6, t / N / 60 % 10, t / N / 600 % 2 ^ 31, r⟩

theorem after_zero (N : ℕ) : after N 0 true = reset := by
  simp [after, reset]

/-- The branch that would wrap after 23 is never taken: it asks HUNDREDS to be 9 and 3. -/
theorem carry_digits (S t : ℕ) (r : Bool) :
    carry ⟨t, S % 10, S / 10 % 6, S / 60 % 10, S / 600 % 2 ^ 31, r⟩ =
      ⟨t, (S + 1) % 10, (S + 1) / 10 % 6, (S + 1) / 60 % 10, (S + 1) / 600 % 2 ^ 31, r⟩ := by
  simp only [carry, natIncr]
  split_ifs with h₁ h₂ h₃ h₄
  · omega
  · simp only [mk.injEq, true_and, and_true]
    omega
  · simp only [mk.injEq, true_and, and_true]
    omega
  · simp only [mk.injEq, true_and, and_true]
    omega
  · simp only [mk.injEq, true_and, and_true]
    omega

theorem edge_after (N : Positive) (t : ℕ) (r tick : Bool) :
    (after N.val t r).edge N.val true tick = after N.val (t + tick.toNat) false := by
  cases tick with
  | false => rfl
  | true =>
      have hlt := N.property.2
      rcases succ_div_mod N.property.1 t with ⟨h, hm, hq, -⟩ | ⟨h, hm, hq, -⟩
      · have hincr : natIncr (t % N.val) = t % N.val + 1 := Nat.mod_eq_of_lt (by omega)
        simp [edge, after, hm, hq, hincr, show t % N.val ≠ N.val - 1 by omega]
      · simp only [edge, after, Bool.toNat_true, hm, hq, h, carry_digits, if_true]

end BcdCounter

end Montre.Hardware
