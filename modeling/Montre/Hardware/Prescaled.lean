import Montre.Hardware.Fdiv

namespace Montre.Hardware

/-- A process that counts the ticks of FDIV, and resets FDIV through its registered
output `rst_FDIV`. -/
structure TickProcess (κ : Type) where
  reset : κ
  edge (start tick1ms : Bool) (s : κ) : κ
  rstFdiv : κ → Bool

structure Prescaled (κ : Type) where
  process : κ
  fdiv : Fdiv
deriving DecidableEq

namespace Prescaled

variable {κ : Type} (p : TickProcess κ) (D : ℕ)

def reset : Prescaled κ := ⟨p.reset, .reset⟩

/-- The wiring of CHRONO and of ALARM_BELL. At an edge of CLK both processes read the
values of before it. -/
def edge (rst start : Bool) (s : Prescaled κ) : Prescaled κ where
  process := if rst then p.reset else p.edge start s.fdiv.tick1ms s.process
  fdiv := s.fdiv.edge D (rst || p.rstFdiv s.process)

def settle (rst : Bool) (s : Prescaled κ) : Prescaled κ :=
  let process := if rst then p.reset else s.process
  ⟨process, s.fdiv.settle (rst || p.rstFdiv process)⟩

def cycle (rst rst' start : Bool) (s : Prescaled κ) : Prescaled κ := settle p rst' (edge p D rst start s)

theorem cycle_reset {rst rst' : Bool} (h : (rst || rst') = true) (start : Bool) (s : Prescaled κ) :
    cycle p D rst rst' start s = reset p := by
  cases rst with
  | true => cases rst' <;> simp [cycle, settle, edge, reset, Fdiv.settle, Fdiv.edge]
  | false =>
      obtain rfl : rst' = true := h
      simp [cycle, settle, reset, Fdiv.settle]

/-- The process after t ticks, and after n consecutive edges with START high. -/
def after (a : ℕ → Bool → κ) (n t : ℕ) : Prescaled κ := ⟨a t (n == 0), .after D n⟩

variable {p D}

theorem cycle_high {a : ℕ → Bool → κ} (hrst : ∀ t r, p.rstFdiv (a t r) = r)
    (hhigh : ∀ t r tick, p.edge true tick (a t r) = a (t + tick.toNat) false) (hD : 0 < D) (n t : ℕ) :
    cycle p D false false true (after D a n t) =
      after D a (n + 1) (t + (Fdiv.after D n).tick1ms.toNat) := by
  have hfdiv := Fdiv.edge_after hD n
  have hprocess := hhigh t (n == 0) (Fdiv.after D n).tick1ms
  simp only [cycle, settle, edge, after, Bool.false_or, Bool.false_eq_true, if_false, hrst, hprocess, hfdiv]
  rfl

end Prescaled

end Montre.Hardware
