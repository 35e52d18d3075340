import Mathlib.Computability.StateTransition

namespace Montre.Library

open StateTransition

variable {σ : Type} {f : σ → Option σ} {P Q : σ → Prop} {s : σ}

/-- Total correctness: from s the system gets, without a fault, to a state where Q holds. -/
def Leads (f : σ → Option σ) (Q : σ → Prop) (s : σ) : Prop := ∃ t, Reaches f s t ∧ Q t

namespace Leads

theorem done (h : Q s) : Leads f Q s := ⟨s, Relation.ReflTransGen.refl, h⟩

theorem next {t : σ} (hf : f s = some t) (h : Leads f Q t) : Leads f Q s := by
  obtain ⟨u, hu, hq⟩ := h
  exact ⟨u, Relation.ReflTransGen.head hf hu, hq⟩

theorem trans (h : Leads f P s) (hPQ : ∀ t, P t → Leads f Q t) : Leads f Q s := by
  obtain ⟨t, ht, hp⟩ := h
  obtain ⟨u, hu, hq⟩ := hPQ t hp
  exact ⟨u, ht.trans hu, hq⟩

theorem mono (h : Leads f P s) (hPQ : ∀ t, P t → Q t) : Leads f Q s :=
  h.trans fun t ht => done (hPQ t ht)

/-- A loop whose every turn from a state of rank n gets to Q or to a state of smaller rank. -/
theorem loop {I : ℕ → σ → Prop} (hturn : ∀ n s, I n s → Leads f (fun t => Q t ∨ ∃ m < n, I m t) s) {n : ℕ}
    (h : I n s) : Leads f Q s := by
  induction n using Nat.strong_induction_on generalizing s with
  | h n ih =>
      apply (hturn n s h).trans
      rintro t (hq | ⟨m, hm, hi⟩)
      · exact done hq
      · exact ih m hm hi

end Leads

end Montre.Library
