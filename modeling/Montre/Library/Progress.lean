import Montre.Library.Runs

namespace Montre.Library.Progress

open Runs

variable {σ α : Type} {f : σ → α → σ}

/-- The progress rule: a goal that is not lost again, and that a rank falling at every counted
step approaches, is reached after more counted steps than the rank at the start. -/
theorem reaches {I P : σ → Prop} {C : σ → α → Prop} {r : σ → ℕ} {c : α → Bool}
    (hkeep : ∀ s a, I s → C s a → I (f s a)) (hstay : ∀ s a, P s → C s a → P (f s a))
    (hfall : ∀ s a, I s → C s a → ¬ P s → P (f s a) ∨ r (f s a) + (c a).toNat ≤ r s)
    (s : σ) (as : List α) (hs : I s) (h : Meets f C s as) (hcount : r s < as.countP c) :
    P (run f s as) := by
  induction as generalizing s with
  | nil => exact absurd hcount (Nat.not_lt_zero _)
  | cons a as ih =>
      obtain ⟨ha, has⟩ := meets_cons.mp h
      rw [run_cons]
      have hdone (hp : P (f s a)) : P (run f (f s a) as) := has.invariant hstay hp
      by_cases hp : P s
      · apply hdone
        exact hstay s a hp ha
      · rcases hfall s a hs ha hp with hp | hrank
        · exact hdone hp
        · apply ih (f s a) (hkeep s a hs ha) has
          rw [List.countP_cons] at hcount
          cases hc : c a <;> simp only [hc, Bool.toNat_true, Bool.toNat_false, if_true,
            Bool.false_eq_true, if_false] at hcount hrank <;> omega

theorem exists_last_occurrence {a : α} {as : List α} (h : a ∈ as) :
    ∃ before after, as = before ++ a :: after ∧ a ∉ after := by
  obtain ⟨after, before, heq, hnot⟩ := List.eq_append_cons_of_mem (List.mem_reverse.mpr h)
  refine ⟨before.reverse, after.reverse, ?_, ?_⟩
  · rw [← List.reverse_reverse as, heq]
    simp
  · rwa [List.mem_reverse]

end Montre.Library.Progress
