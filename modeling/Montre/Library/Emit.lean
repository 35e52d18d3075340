import Mathlib.Data.List.Basic

namespace Montre.Library.Emit

variable {σ ω ρ : Type}

abbrev Prog (σ ω : Type) := σ → σ × List ω

def skip : Prog σ ω := fun s => (s, [])

def seq (p q : Prog σ ω) : Prog σ ω := fun s => ((q (p s).1).1, (p s).2 ++ (q (p s).1).2)

def when (c : Bool) (p : Prog σ ω) : Prog σ ω := if c then p else skip

structure Coupled (σ ρ : Type) where
  state : σ
  env : ρ
deriving DecidableEq

def exec (write : ρ → ω → ρ) (p : Prog σ ω) (s : Coupled σ ρ) : Coupled σ ρ :=
  ⟨(p s.state).1, (p s.state).2.foldl write s.env⟩

@[simp] theorem exec_state (write : ρ → ω → ρ) (p : Prog σ ω) (s : Coupled σ ρ) :
    (exec write p s).state = (p s.state).1 := rfl

@[simp] theorem exec_env (write : ρ → ω → ρ) (p : Prog σ ω) (s : Coupled σ ρ) :
    (exec write p s).env = (p s.state).2.foldl write s.env := rfl

theorem exec_seq (write : ρ → ω → ρ) (p q : Prog σ ω) (s : Coupled σ ρ) :
    exec write (seq p q) s = exec write q (exec write p s) := by
  simp only [exec, seq, List.foldl_append]

theorem exec_when (write : ρ → ω → ρ) (c : Bool) (p : Prog σ ω) (s : Coupled σ ρ) :
    exec write (when c p) s = if c then exec write p s else s := by
  cases c <;> rfl

end Montre.Library.Emit
