import Mathlib.Data.List.Basic
import Mathlib.Data.List.Induction

namespace Montre.Library.Runs

variable {σ τ α β : Type}

def run (f : σ → α → σ) (s : σ) (as : List α) : σ := as.foldl f s

def trace (f : σ → α → σ) : σ → List α → List (σ × α)
  | _, [] => []
  | s, a :: as => (s, a) :: trace f (f s a) as

/-- Every step of the run is taken in a state where the condition holds. -/
def Meets (f : σ → α → σ) (C : σ → α → Prop) (s : σ) (as : List α) : Prop :=
  ∀ x ∈ trace f s as, C x.1 x.2

instance {f : σ → α → σ} {C : σ → α → Prop} [∀ s a, Decidable (C s a)] (s : σ) (as : List α) :
    Decidable (Meets f C s as) :=
  inferInstanceAs (Decidable (∀ x ∈ trace f s as, C x.1 x.2))

@[simp] theorem run_nil (f : σ → α → σ) (s : σ) : run f s [] = s := rfl

@[simp] theorem run_cons (f : σ → α → σ) (s : σ) (a : α) (as : List α) :
    run f s (a :: as) = run f (f s a) as := rfl

theorem run_append (f : σ → α → σ) (s : σ) (as bs : List α) :
    run f s (as ++ bs) = run f (run f s as) bs := List.foldl_append ..

theorem run_snoc (f : σ → α → σ) (s : σ) (as : List α) (a : α) :
    run f s (as ++ [a]) = f (run f s as) a := by
  rw [run_append, run_cons, run_nil]

@[simp] theorem trace_nil (f : σ → α → σ) (s : σ) : trace f s [] = [] := rfl

@[simp] theorem trace_cons (f : σ → α → σ) (s : σ) (a : α) (as : List α) :
    trace f s (a :: as) = (s, a) :: trace f (f s a) as := rfl

theorem trace_append (f : σ → α → σ) (s : σ) (as bs : List α) :
    trace f s (as ++ bs) = trace f s as ++ trace f (run f s as) bs := by
  induction as generalizing s with
  | nil => rfl
  | cons a as ih => simp only [List.cons_append, trace_cons, run_cons, ih]

theorem trace_snoc (f : σ → α → σ) (s : σ) (as : List α) (a : α) :
    trace f s (as ++ [a]) = trace f s as ++ [(run f s as, a)] := by
  rw [trace_append, trace_cons, trace_nil]

section Meets

variable {f : σ → α → σ} {C D : σ → α → Prop} {I : σ → Prop} {s : σ} {a : α} {as bs : List α}

theorem trace_split {before after : List (σ × α)} {x : σ × α} (h : trace f s as = before ++ x :: after) :
    ∃ pre post, as = pre ++ x.2 :: post ∧ before = trace f s pre ∧ x.1 = run f s pre ∧
      after = trace f (f x.1 x.2) post := by
  induction as generalizing s before with
  | nil => simp at h
  | cons a as ih =>
      cases before with
      | nil =>
          obtain ⟨rfl, rfl⟩ := List.cons.inj h
          exact ⟨[], as, rfl, rfl, rfl, rfl⟩
      | cons y before =>
          obtain ⟨rfl, ht⟩ := List.cons.inj h
          obtain ⟨pre, post, rfl, rfl, hx, ha⟩ := ih ht
          exact ⟨a :: pre, post, rfl, rfl, hx, ha⟩

theorem meets_append : Meets f C s (as ++ bs) ↔ Meets f C s as ∧ Meets f C (run f s as) bs := by
  simp only [Meets, trace_append, List.mem_append, or_imp, forall_and]

theorem meets_cons : Meets f C s (a :: as) ↔ C s a ∧ Meets f C (f s a) as := by
  simp only [Meets, trace_cons, List.mem_cons, forall_eq_or_imp]

theorem meets_snoc : Meets f C s (as ++ [a]) ↔ Meets f C s as ∧ C (run f s as) a := by
  rw [meets_append, meets_cons]
  simp [Meets]

theorem Meets.mono (h : Meets f C s as) (hCD : ∀ t a, C t a → D t a) : Meets f D s as := by
  intro x hx
  apply hCD
  exact h x hx

/-- The induction over runs: what one admissible step preserves holds at the end. -/
theorem Meets.invariant (hstep : ∀ s a, I s → C s a → I (f s a)) (hs : I s) (h : Meets f C s as) :
    I (run f s as) := by
  induction as generalizing s with
  | nil => exact hs
  | cons a as ih =>
      obtain ⟨ha, has⟩ := meets_cons.mp h
      apply ih
      · exact hstep s a hs ha
      · exact has

theorem Meets.trace_invariant (hstep : ∀ s a, I s → C s a → I (f s a)) (hs : I s) (h : Meets f C s as) :
    ∀ x ∈ trace f s as, I x.1 := by
  intro x hx
  obtain ⟨before, after, ht⟩ := List.append_of_mem hx
  obtain ⟨pre, post, rfl, -, hpre, -⟩ := trace_split ht
  rw [hpre]
  exact (meets_append.mp h).1.invariant hstep hs

/-- Along a run that keeps an invariant, two conditions on the steps that agree under it
are met by the same runs. -/
theorem meets_iff (hkeep : ∀ s a, I s → C s a → I (f s a)) (hiff : ∀ s a, I s → (D s a ↔ C s a))
    (hs : I s) : Meets f D s as ↔ Meets f C s as := by
  induction as generalizing s with
  | nil => simp [Meets]
  | cons a as ih =>
      rw [meets_cons, meets_cons, hiff s a hs]
      apply and_congr_right
      intro ha
      exact ih (hkeep s a hs ha)

theorem mem_of_mem_trace {x : σ × α} (h : x ∈ trace f s as) : x.2 ∈ as := by
  obtain ⟨before, after, ht⟩ := List.append_of_mem h
  obtain ⟨pre, post, rfl, -⟩ := trace_split ht
  exact List.mem_append_right pre List.mem_cons_self

theorem meets_true (f : σ → α → σ) (s : σ) (as : List α) : Meets f (fun _ _ => True) s as := by
  intro x hx
  trivial

theorem invariant (hstep : ∀ s a, I s → I (f s a)) (hs : I s) (as : List α) : I (run f s as) := by
  refine (meets_true f s as).invariant ?_ hs
  intro t a ht _
  exact hstep t a ht

theorem trace_invariant (hstep : ∀ s a, I s → I (f s a)) (hs : I s) (as : List α) :
    ∀ x ∈ trace f s as, I x.1 := by
  refine (meets_true f s as).trace_invariant ?_ hs
  intro t a ht _
  exact hstep t a ht

/-- The induction over runs whose inputs all satisfy a condition. -/
theorem invariant_of_forall {P : α → Prop} (hstep : ∀ s a, I s → P a → I (f s a)) (hs : I s)
    (has : ∀ a ∈ as, P a) : I (run f s as) := by
  induction as generalizing s with
  | nil => exact hs
  | cons a as ih =>
      obtain ⟨ha, has⟩ := List.forall_mem_cons.mp has
      apply ih
      · exact hstep s a hs ha
      · exact has

theorem meets_of_forall {P : α → Prop} (h : ∀ a ∈ as, P a) : Meets f (fun _ a => P a) s as := by
  induction as generalizing s with
  | nil => simp [Meets]
  | cons a as ih =>
      obtain ⟨ha, has⟩ := List.forall_mem_cons.mp h
      exact meets_cons.mpr ⟨ha, ih has⟩

/-- A property that fails at the start and holds at the end was established by
some step, and has held without interruption since that step. -/
theorem exists_last_rise {P : σ → Prop} [DecidablePred P] (hs : ¬ P s) (he : P (run f s as)) :
    ∃ before x after, trace f s as = before ++ x :: after ∧ ¬ P x.1 ∧ P (f x.1 x.2) ∧
      ∀ y ∈ after, P y.1 ∧ P (f y.1 y.2) := by
  induction as using List.reverseRecOn with
  | nil => exact absurd he hs
  | append_singleton as a ih =>
      rw [run_snoc] at he
      by_cases hp : P (run f s as)
      · obtain ⟨before, x, after, ht, hx, hfx, hall⟩ := ih hp
        refine ⟨before, x, after ++ [(run f s as, a)], ?_, hx, hfx, ?_⟩
        · rw [trace_snoc, ht, List.append_assoc, List.cons_append]
        · intro y hy
          rcases List.mem_append.mp hy with hy | hy
          · exact hall y hy
          · obtain rfl := List.mem_singleton.mp hy
            exact ⟨hp, he⟩
      · exact ⟨trace f s as, (run f s as, a), [], trace_snoc f s as a, hp, he, by simp⟩

end Meets

section Simulation

variable {f : σ → α → σ} {g : τ → β → τ} {φ : σ → τ} {ψ : σ → α → β} {I : σ → Prop}

theorem trace_simulates (hstep : ∀ s a, I s → I (f s a))
    (hsim : ∀ s a, I s → φ (f s a) = g (φ s) (ψ s a)) {s : σ} (hs : I s) (as : List α) :
    trace g (φ s) ((trace f s as).map fun x => ψ x.1 x.2) =
      (trace f s as).map fun x => (φ x.1, ψ x.1 x.2) := by
  induction as generalizing s with
  | nil => rfl
  | cons a as ih =>
      simp only [trace_cons, List.map_cons, ← hsim s a hs, ih (hstep s a hs)]

theorem run_simulates (hstep : ∀ s a, I s → I (f s a))
    (hsim : ∀ s a, I s → φ (f s a) = g (φ s) (ψ s a)) {s : σ} (hs : I s) (as : List α) :
    φ (run f s as) = run g (φ s) ((trace f s as).map fun x => ψ x.1 x.2) := by
  induction as generalizing s with
  | nil => rfl
  | cons a as ih =>
      simp only [trace_cons, List.map_cons, run_cons, ← hsim s a hs, ih (hstep s a hs)]

/-- A part of the state that takes any number of its own steps at each step of the whole. -/
theorem run_project {ψ : σ → α → List β} (hproj : ∀ s a, φ (f s a) = run g (φ s) (ψ s a)) (s : σ)
    (as : List α) : φ (run f s as) = run g (φ s) ((trace f s as).flatMap fun x => ψ x.1 x.2) := by
  induction as generalizing s with
  | nil => rfl
  | cons a as ih => rw [run_cons, ih, trace_cons, List.flatMap_cons, run_append, hproj]

theorem trace_project {ψ : σ → α → List β} (hproj : ∀ s a, φ (f s a) = run g (φ s) (ψ s a)) (s : σ)
    (as : List α) : trace g (φ s) ((trace f s as).flatMap fun x => ψ x.1 x.2) =
      (trace f s as).flatMap fun x => trace g (φ x.1) (ψ x.1 x.2) := by
  induction as generalizing s with
  | nil => rfl
  | cons a as ih => rw [trace_cons, List.flatMap_cons, List.flatMap_cons, trace_append, ← hproj, ih]

theorem meets_project {ψ : σ → α → List β} {C : σ → α → Prop} {D : τ → β → Prop}
    (hproj : ∀ s a, φ (f s a) = run g (φ s) (ψ s a)) (hmeets : ∀ s a, C s a → Meets g D (φ s) (ψ s a)) {s : σ}
    {as : List α} (h : Meets f C s as) : Meets g D (φ s) ((trace f s as).flatMap fun x => ψ x.1 x.2) := by
  intro y hy
  rw [trace_project hproj, List.mem_flatMap] at hy
  obtain ⟨x, hx, hy⟩ := hy
  exact hmeets x.1 x.2 (h x hx) y hy

end Simulation

section Channel

variable {f : σ → α → σ} {put take : σ × α → Option β} {held : σ → List β}

/-- A channel that may lose values, but takes out in order, and once, what was put in. -/
theorem takes_sublist_puts (hstep : ∀ s a,
      List.Sublist ((take (s, a)).toList ++ held (f s a)) (held s ++ (put (s, a)).toList))
    (s : σ) (as : List α) :
    List.Sublist ((trace f s as).filterMap take ++ held (run f s as))
      (held s ++ (trace f s as).filterMap put) := by
  simp only [List.filterMap_eq_flatMap_toList]
  induction as generalizing s with
  | nil => simp
  | cons a as ih =>
      simp only [trace_cons, List.flatMap_cons, run_cons, List.append_assoc]
      have htake := (ih (f s a)).append_left (take (s, a)).toList
      have hput := (hstep s a).append_right ((trace f (f s a) as).flatMap fun x => (put x).toList)
      rw [List.append_assoc, List.append_assoc] at hput
      exact htake.trans hput

/-- What a run brings out, step by step. -/
def outputs (f : σ → α → σ) (q : σ → α → List β) (s : σ) (as : List α) : List β :=
  (trace f s as).flatMap fun x => q x.1 x.2

theorem outputs_cons (q : σ → α → List β) (s : σ) (a : α) (as : List α) :
    outputs f q s (a :: as) = q s a ++ outputs f q (f s a) as := rfl

theorem outputs_input (q : α → List β) (s : σ) (as : List α) : outputs f (fun _ a => q a) s as = as.flatMap q := by
  induction as generalizing s with
  | nil => rfl
  | cons a as ih => rw [outputs_cons, ih, List.flatMap_cons]

/-- A channel that loses nothing: what was taken out and what is held is what was put in, in order. -/
theorem takes_eq_puts (put take : σ → α → List β) (held : σ → List β) {I : σ → Prop} {C : σ → α → Prop}
    (hkeep : ∀ s a, I s → C s a → I (f s a))
    (hstep : ∀ s a, I s → C s a → take s a ++ held (f s a) = held s ++ put s a) {s : σ} {as : List α}
    (hs : I s) (h : Meets f C s as) :
    outputs f take s as ++ held (run f s as) = held s ++ outputs f put s as := by
  induction as generalizing s with
  | nil => simp [outputs]
  | cons a as ih =>
      obtain ⟨ha, has⟩ := meets_cons.mp h
      rw [outputs_cons, outputs_cons, run_cons, List.append_assoc, ih (hkeep s a hs ha) has, ← List.append_assoc,
        hstep s a hs ha, List.append_assoc]

end Channel

end Montre.Library.Runs
