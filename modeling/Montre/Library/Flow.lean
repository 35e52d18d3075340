import Montre.Library.Runs
import Mathlib.Algebra.Ring.Nat

namespace Montre.Library.Flow

open Runs

variable {σ α : Type} {f : σ → α → σ}

/-- What a quantity measured at each step of a run amounts to. -/
def total (f : σ → α → σ) (q : σ → α → ℕ) (s : σ) (as : List α) : ℕ :=
  ((trace f s as).map fun x => q x.1 x.2).sum

section Total

variable (q r : σ → α → ℕ) (s : σ)

@[simp] theorem total_nil : total f q s [] = 0 := rfl

theorem total_cons (a : α) (as : List α) : total f q s (a :: as) = q s a + total f q (f s a) as := by
  rw [total, trace_cons, List.map_cons, List.sum_cons, total]

theorem total_append (as bs : List α) :
    total f q s (as ++ bs) = total f q s as + total f q (run f s as) bs := by
  rw [total, trace_append, List.map_append, List.sum_append, total, total]

theorem total_add (as : List α) :
    total f (fun s a => q s a + r s a) s as = total f q s as + total f r s as := by
  induction as generalizing s with
  | nil => rfl
  | cons a as ih =>
      rw [total_cons, total_cons, total_cons, ih]
      omega

end Total

theorem total_eq_zero_iff {q : σ → α → ℕ} {s : σ} {as : List α} :
    total f q s as = 0 ↔ Meets f (fun s a => q s a = 0) s as := by
  induction as generalizing s with
  | nil => simp [Meets]
  | cons a as ih => rw [total_cons, Nat.add_eq_zero_iff, ih, meets_cons]

/-- The conservation law of a run: what its steps bring in is what they take out, up to
the change of what is held. -/
theorem conserved {I : σ → Prop} {C : σ → α → Prop} {held : σ → ℕ} {gain loss : σ → α → ℕ}
    (hkeep : ∀ s a, I s → C s a → I (f s a))
    (hstep : ∀ s a, I s → C s a → held s + gain s a = loss s a + held (f s a)) (s : σ) (as : List α)
    (hs : I s) (h : Meets f C s as) :
    held s + total f gain s as = total f loss s as + held (run f s as) := by
  induction as generalizing s with
  | nil => rw [total_nil, total_nil, run_nil, Nat.add_comm]
  | cons a as ih =>
      obtain ⟨ha, has⟩ := meets_cons.mp h
      have hrest := ih (f s a) (hkeep s a hs ha) has
      have hfirst := hstep s a hs ha
      rw [total_cons, total_cons, run_cons]
      omega

end Montre.Library.Flow
