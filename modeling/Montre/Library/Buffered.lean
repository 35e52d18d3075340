import Montre.Library.Emit

namespace Montre.Library.Emit

variable {σ ω ρ τ : Type}

/-- A program whose outputs wait in a queue until the environment takes them one at a time. -/
structure Buffered (σ ω ρ : Type) where
  state : σ
  pending : List ω
  env : ρ
deriving DecidableEq

namespace Buffered

def emit (p : Prog σ ω) (s : Buffered σ ω ρ) : Buffered σ ω ρ :=
  ⟨(p s.state).1, s.pending ++ (p s.state).2, s.env⟩

/-- The environment moves on its own. -/
def hold (cycle : ρ → Option ω → ρ) (s : Buffered σ ω ρ) : Buffered σ ω ρ :=
  ⟨s.state, s.pending, cycle s.env none⟩

def issue (cycle : ρ → Option ω → ρ) (s : Buffered σ ω ρ) : Buffered σ ω ρ :=
  ⟨s.state, s.pending.tail, cycle s.env s.pending.head?⟩

/-- What a part of the environment becomes once the queue is empty. -/
def flush (write : τ → ω → τ) (φ : ρ → τ) (s : Buffered σ ω ρ) : Coupled σ τ :=
  ⟨s.state, s.pending.foldl write (φ s.env)⟩

section Flush

variable {write : τ → ω → τ} {φ : ρ → τ} {cycle : ρ → Option ω → ρ}

theorem flush_emit (p : Prog σ ω) (s : Buffered σ ω ρ) :
    (s.emit p).flush write φ = exec write p (s.flush write φ) := by
  simp only [flush, emit, exec, List.foldl_append]

theorem flush_hold (hnone : ∀ r, φ (cycle r none) = φ r) (s : Buffered σ ω ρ) :
    (s.hold cycle).flush write φ = s.flush write φ := by
  simp only [flush, hold, hnone]

theorem flush_issue (hnone : ∀ r, φ (cycle r none) = φ r)
    (hsome : ∀ r w, φ (cycle r (some w)) = write (φ r) w) (s : Buffered σ ω ρ) :
    (s.issue cycle).flush write φ = s.flush write φ := by
  obtain ⟨state, pending, env⟩ := s
  cases pending with
  | nil => simp only [flush, issue, List.tail_nil, List.head?_nil, List.foldl_nil, hnone]
  | cons w ws => simp only [flush, issue, List.tail_cons, List.head?_cons, List.foldl_cons, hsome]

theorem flush_of_pending_nil {s : Buffered σ ω ρ} (h : s.pending = []) :
    s.flush write φ = ⟨s.state, φ s.env⟩ := by
  rw [flush, h, List.foldl_nil]

/-- A part of the environment that none of the waiting outputs touches is already what it will be. -/
theorem flush_of_spared {υ : Type} {part : τ → υ} {s : Buffered σ ω ρ}
    (hspared : ∀ w ∈ s.pending, ∀ t, part (write t w) = part t) :
    part (s.flush write φ).env = part (φ s.env) := by
  change part (s.pending.foldl write (φ s.env)) = part (φ s.env)
  obtain ⟨state, pending, env⟩ := s
  generalize φ env = t
  induction pending generalizing t with
  | nil => rfl
  | cons w ws ih =>
      obtain ⟨hw, hws⟩ := List.forall_mem_cons.mp hspared
      rw [List.foldl_cons, ih hws, hw]

end Flush

/-- The environment is as it should be, and so are the outputs still on their way to it. -/
structure Safe (E : ρ → Prop) (W : ω → Prop) (s : Buffered σ ω ρ) : Prop where
  env : E s.env
  pending : ∀ w ∈ s.pending, W w

section Safe

variable {E : ρ → Prop} {W : ω → Prop} {cycle : ρ → Option ω → ρ} {s : Buffered σ ω ρ}

theorem Safe.emit (h : s.Safe E W) {p : Prog σ ω} (hp : ∀ w ∈ (p s.state).2, W w) :
    (s.emit p).Safe E W := by
  refine ⟨h.env, ?_⟩
  intro w hw
  rcases List.mem_append.mp hw with hw | hw
  · exact h.pending w hw
  · exact hp w hw

theorem Safe.hold (h : s.Safe E W) (hcycle : ∀ r o, E r → (∀ w, o = some w → W w) → E (cycle r o)) :
    (s.hold cycle).Safe E W := by
  refine ⟨?_, h.pending⟩
  apply hcycle s.env none h.env
  intro w hw
  exact absurd hw (by simp)

theorem Safe.issue (h : s.Safe E W) (hcycle : ∀ r o, E r → (∀ w, o = some w → W w) → E (cycle r o)) :
    (s.issue cycle).Safe E W := by
  constructor
  · apply hcycle s.env s.pending.head? h.env
    intro w hw
    exact h.pending w (List.mem_of_head? hw)
  · intro w hw
    exact h.pending w (List.mem_of_mem_tail hw)

end Safe

end Buffered

end Montre.Library.Emit
