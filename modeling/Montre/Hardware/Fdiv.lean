import Mathlib.Data.Nat.ModEq

namespace Montre.Hardware

/-- The subtype `positive` of the 31-bit `Natural`. -/
def Positive := {n : ℕ // 0 < n ∧ n < 2 ^ 31}

theorem positive_one : 0 < 1 ∧ 1 < 2 ^ 31 := by
  decide

-- a 31-bit register wraps where a simulation would stop
def natIncr (n : ℕ) : ℕ := (n + 1) % 2 ^ 31

/-- The generics of the components; `Divisor_ms` must be positive as well. -/
structure Generics where
  fclock : Positive
  fTick : Positive
  n : Positive
  fTick_le : fTick.val ≤ fclock.val

def Generics.divisorMs (g : Generics) : ℕ := g.fclock.val / g.fTick.val

theorem Generics.divisorMs_pos (g : Generics) : 0 < g.divisorMs :=
  Nat.div_pos g.fTick_le g.fTick.property.1

structure Fdiv where
  count : ℕ
  tick1ms : Bool
deriving DecidableEq

theorem succ_div_mod {D : ℕ} (hD : 0 < D) (n : ℕ) :
    (n % D < D - 1 ∧ (n + 1) % D = n % D + 1 ∧ (n + 1) / D = n / D ∧ ¬ D ∣ n + 1) ∨
      (n % D = D - 1 ∧ (n + 1) % D = 0 ∧ (n + 1) / D = n / D + 1 ∧ D ∣ n + 1) := by
  have hlt := Nat.mod_lt n hD
  have hmod := Nat.mod_add_mod n D 1
  rw [Nat.succ_div]
  by_cases h : n % D < D - 1
  · rw [Nat.mod_eq_of_lt (by omega)] at hmod
    have hdvd : ¬ D ∣ n + 1 := by
      intro hdvd
      have := Nat.mod_eq_zero_of_dvd hdvd
      omega
    exact .inl ⟨h, hmod.symm, by rw [if_neg hdvd, Nat.add_zero], hdvd⟩
  · have hfull : n % D + 1 = D := by omega
    rw [hfull, Nat.mod_self] at hmod
    have hdvd := Nat.dvd_of_mod_eq_zero hmod.symm
    exact .inr ⟨by omega, hmod.symm, by rw [if_pos hdvd], hdvd⟩

namespace Fdiv

def reset : Fdiv := ⟨0, false⟩

def edge (D : ℕ) (rst : Bool) (s : Fdiv) : Fdiv :=
  if rst then reset
  else if s.count < D - 1 then ⟨s.count + 1, false⟩
  else ⟨0, true⟩

/-- RST is asynchronous: it also acts when it rises between two edges. -/
def settle (rst : Bool) (s : Fdiv) : Fdiv := if rst then reset else s

/-- The divider after n edges with START high. It is released by the first of them,
which it still spends in reset. -/
def after (D n : ℕ) : Fdiv := ⟨(n - 1) % D, decide (1 < n ∧ D ∣ n - 1)⟩

theorem after_zero (D : ℕ) : after D 0 = reset := by
  simp [after, reset]

theorem edge_after {D : ℕ} (hD : 0 < D) (n : ℕ) : (after D n).edge D (n == 0) = after D (n + 1) := by
  cases n with
  | zero => simp [edge, after, reset]
  | succ n =>
      rcases succ_div_mod hD n with ⟨h, hm, -, hd⟩ | ⟨h, hm, -, hd⟩
      · simp [edge, after, h, hm, hd]
      · simp [edge, after, h, hm, hd]

def ticks (D n : ℕ) : ℕ := (n - 2) / D

theorem ticks_succ {D : ℕ} (hD : 0 < D) (n : ℕ) :
    ticks D (n + 1) = ticks D n + (after D n).tick1ms.toNat := by
  rcases n with _ | _ | m
  · simp [ticks, after]
  · simp [ticks, after]
  · rcases succ_div_mod hD m with ⟨-, -, hq, hd⟩ | ⟨-, -, hq, hd⟩
    · simp [ticks, after, hq, hd]
    · simp [ticks, after, hq, hd]

end Fdiv

end Montre.Hardware
