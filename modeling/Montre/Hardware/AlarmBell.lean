import Montre.Hardware.Prescaled
import Montre.Library.Waveform
import Mathlib.Data.BitVec
import Mathlib.Tactic.IntervalCases

namespace Montre.Hardware

open Montre.Library Runs Waveform

structure Chenilliard where
  cnt : ℕ
  tickN1ms : ℕ
  etat : Fin 2
  led : BitVec 8
  rstFdiv : Bool
deriving DecidableEq

def nbMotif : ℕ := 9

def motifChenilliard : List (BitVec 8) := [0x00, 0x01, 0x03, 0x07, 0x0F, 0x1F, 0x3F, 0x7F, 0xFF]

namespace Chenilliard

def reset : Chenilliard := ⟨0, 0, 0, 0, true⟩

def advance (s : Chenilliard) : Chenilliard :=
  let motif := motifChenilliard.getD s.cnt 0
  if s.etat = 0 then
    if s.cnt = nbMotif - 1 then { s with led := motif, etat := 1 }
    else { s with led := motif, cnt := s.cnt + 1 }
  else
    if s.cnt = 0 then { s with led := ~~~motif, etat := 0 }
    else { s with led := ~~~motif, cnt := s.cnt - 1 }

def edge (N : ℕ) (start tick1ms : Bool) (s : Chenilliard) : Chenilliard :=
  if start then
    let s := { s with rstFdiv := false }
    if tick1ms then
      if s.tickN1ms = N - 1 then { s.advance with tickN1ms := 0 }
      else { s with tickN1ms := natIncr s.tickN1ms }
    else s
  else { s with rstFdiv := true, cnt := 0, etat := 0, led := 0, tickN1ms := 0 }

def process (N : ℕ) : TickProcess Chenilliard := ⟨reset, edge N, rstFdiv⟩

end Chenilliard

abbrev AlarmBell := Prescaled Chenilliard

namespace AlarmBell

def reset (g : Generics) : AlarmBell := Prescaled.reset (Chenilliard.process g.n.val)

/-- One clock cycle once RST is released. -/
def step (g : Generics) (s : AlarmBell) (start : Bool) : AlarmBell :=
  s.cycle (Chenilliard.process g.n.val) g.divisorMs false false start

end AlarmBell

/-- The pattern has a period of 18 motifs: up, the last one twice, down, the first one twice. -/
def cntAfter (k : ℕ) : ℕ := if k % 18 < 9 then k % 18 else 17 - k % 18

def etatAfter (k : ℕ) : Fin 2 := if k % 18 < 9 then 0 else 1

def ledAfter (k : ℕ) : ℕ :=
  if k = 0 then 0
  else if (k - 1) % 18 < 9 then 2 ^ ((k - 1) % 18) - 1
  else 256 - 2 ^ (17 - (k - 1) % 18)

theorem cntAfter_le (k : ℕ) : cntAfter k ≤ 8 := by
  unfold cntAfter
  split_ifs <;> omega

theorem ledAfter_lt (k : ℕ) : ledAfter k < 256 := by
  unfold ledAfter
  split_ifs with h₀ h
  · decide
  · have hpow : 2 ^ ((k - 1) % 18) ≤ 2 ^ 8 := Nat.pow_le_pow_right (by decide) (by omega)
    omega
  · have hpow := Nat.two_pow_pos (17 - (k - 1) % 18)
    omega

namespace Chenilliard

theorem advance_after (k t : ℕ) (led : BitVec 8) (r : Bool) :
    advance ⟨cntAfter k, t, etatAfter k, led, r⟩ =
      ⟨cntAfter (k + 1), t, etatAfter (k + 1), BitVec.ofNat 8 (ledAfter (k + 1)), r⟩ := by
  have hp : k % 18 < 18 := Nat.mod_lt k (by decide)
  have hnext : (k + 1) % 18 = (k % 18 + 1) % 18 := by omega
  simp only [cntAfter, etatAfter, ledAfter, hnext, Nat.add_sub_cancel, if_neg (Nat.succ_ne_zero k)]
  generalize k % 18 = p at hp
  interval_cases p <;> simp [advance, motifChenilliard, nbMotif]

def after (N t : ℕ) (r : Bool) : Chenilliard :=
  ⟨cntAfter (t / N), t % N, etatAfter (t / N), BitVec.ofNat 8 (ledAfter (t / N)), r⟩

theorem edge_after (N : Positive) (t : ℕ) (r tick : Bool) :
    (after N.val t r).edge N.val true tick = after N.val (t + tick.toNat) false := by
  cases tick with
  | false => rfl
  | true =>
      have hlt := N.property.2
      rcases succ_div_mod N.property.1 t with ⟨h, hm, hq, -⟩ | ⟨h, hm, hq, -⟩
      · have hincr : natIncr (t % N.val) = t % N.val + 1 := Nat.mod_eq_of_lt (by omega)
        simp [edge, after, hm, hq, hincr, show t % N.val ≠ N.val - 1 by omega]
      · simp [edge, after, hm, hq, h, advance_after]

end Chenilliard

namespace AlarmBell

def after (g : Generics) (n : ℕ) : AlarmBell :=
  Prescaled.after g.divisorMs (Chenilliard.after g.n.val) n (Fdiv.ticks g.divisorMs n)

theorem step_low (g : Generics) (s : AlarmBell) : step g s false = reset g := rfl

theorem after_zero (g : Generics) : after g 0 = reset g := by
  simp [after, reset, Prescaled.after, Prescaled.reset, Fdiv.after_zero, Fdiv.ticks, Chenilliard.process,
    Chenilliard.after, Chenilliard.reset, cntAfter, etatAfter, ledAfter]

theorem step_high (g : Generics) (n : ℕ) : step g (after g n) true = after g (n + 1) := by
  rw [after, after, Fdiv.ticks_succ g.divisorMs_pos]
  apply Prescaled.cycle_high
  · intro t r
    rfl
  · exact Chenilliard.edge_after g.n
  · exact g.divisorMs_pos

theorem run_eq_after (g : Generics) (w : List Bool) : run (step g) (reset g) w = after g (highs w) := by
  rw [← after_zero g]
  apply run_of_low_resets
  · intro s
    rw [step_low, after_zero]
  · intro n
    exact step_high g n

/-- The light pattern in closed form, after any waveform of START. -/
theorem led_closed_form (g : Generics) (w : List Bool) :
    (run (step g) (reset g) w).process.led.toNat = ledAfter ((highs w - 2) / (g.n.val * g.divisorMs)) ∧
      (run (step g) (reset g) w).process.cnt ≤ 8 ∧
      run (step g) (reset g) (w ++ [false]) = reset g := by
  rw [run_snoc, run_eq_after]
  refine ⟨?_, ?_, ?_⟩
  · have hk : Fdiv.ticks g.divisorMs (highs w) / g.n.val = (highs w - 2) / (g.n.val * g.divisorMs) := by
      rw [Fdiv.ticks, Nat.div_div_eq_div_mul, Nat.mul_comm]
    simp only [after, Prescaled.after, Chenilliard.after, hk, BitVec.toNat_ofNat]
    apply Nat.mod_eq_of_lt
    exact ledAfter_lt _
  · apply cntAfter_le
  · apply step_low

end AlarmBell

end Montre.Hardware
