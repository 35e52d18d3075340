import Montre.Hardware.Fdiv
import Montre.Library.Runs
import Mathlib.Data.List.DropRight

namespace Montre.Hardware.Fdiv

open Montre.Library Runs

/-- What the process (RST, CLK) reacts to: a rising edge of CLK with RST at some level,
or RST going high between two edges. -/
inductive Event
  | clk (rst : Bool)
  | rst
deriving DecidableEq

def step (D : ℕ) (s : Fdiv) : Event → Fdiv
  | .clk rst => s.edge D rst
  | .rst => s.settle true

def edgesSinceRst (es : List Event) : ℕ := (es.rtakeWhile (· = .clk false)).length

/-- The edges since RST was last asserted that leave Tick1ms high. -/
def ticksSinceRst (D : ℕ) (s : Fdiv) (es : List Event) : ℕ :=
  ((trace (step D) s es).rtakeWhile fun x => x.2 = .clk false).countP fun x => (step D x.1 x.2).tick1ms

def divided (D c : ℕ) : Fdiv := ⟨c % D, decide (0 < c ∧ D ∣ c)⟩

theorem edgesSinceRst_snoc (es : List Event) (e : Event) :
    edgesSinceRst (es ++ [e]) = if e = .clk false then edgesSinceRst es + 1 else 0 := by
  rw [edgesSinceRst, List.rtakeWhile_concat]
  split_ifs with h₁ h₂ h₂
  · rw [List.length_append]
    rfl
  · exact absurd (of_decide_eq_true h₁) h₂
  · exact absurd (decide_eq_true h₂) h₁
  · rfl

theorem ticksSinceRst_snoc (D : ℕ) (s : Fdiv) (es : List Event) (e : Event) :
    ticksSinceRst D s (es ++ [e]) =
      if e = .clk false then ticksSinceRst D s es + ((run (step D) s es).edge D false).tick1ms.toNat
      else 0 := by
  rw [ticksSinceRst, trace_snoc, List.rtakeWhile_concat]
  by_cases he : e = .clk false
  · subst he
    rw [if_pos (decide_eq_true rfl), if_pos rfl, List.countP_append, ticksSinceRst, List.countP_singleton]
    cases h : ((run (step D) s es).edge D false).tick1ms <;> simp [step, h]
  · rw [if_neg (by simpa using he), if_neg he]
    rfl

theorem edge_divided {D : ℕ} (hD : 0 < D) (c : ℕ) : (divided D c).edge D false = divided D (c + 1) := by
  rcases succ_div_mod hD c with ⟨h, hm, -, hd⟩ | ⟨h, hm, -, hd⟩
  · simp [edge, divided, h, hm, hd]
  · simp [edge, divided, h, hm, hd]

theorem step_of_ne {D : ℕ} {e : Event} (he : e ≠ .clk false) (s : Fdiv) : step D s e = divided D 0 := by
  have hreset : reset = divided D 0 := by simp [reset, divided]
  rcases e with (_ | _) | _
  · exact absurd rfl he
  · exact hreset
  · exact hreset

theorem run_eq_divided {D : ℕ} (hD : 0 < D) (s : Fdiv) (es : List Event) :
    run (step D) s (.rst :: es) = divided D (edgesSinceRst (.rst :: es)) := by
  induction es using List.reverseRecOn with
  | nil => exact step_of_ne (e := .rst) (by decide) s
  | append_singleton es e ih =>
      rw [← List.cons_append, run_snoc, edgesSinceRst_snoc, ih]
      split_ifs with he
      · subst he
        exact edge_divided hD _
      · exact step_of_ne he _

theorem ticksSinceRst_eq {D : ℕ} (hD : 0 < D) (s : Fdiv) (es : List Event) :
    ticksSinceRst D s (.rst :: es) = edgesSinceRst (.rst :: es) / D := by
  induction es using List.reverseRecOn with
  | nil => exact (Nat.zero_div D).symm
  | append_singleton es e ih =>
      rw [← List.cons_append, ticksSinceRst_snoc, edgesSinceRst_snoc, ih, run_eq_divided hD, edge_divided hD]
      split_ifs with he
      · rcases succ_div_mod hD (edgesSinceRst (.rst :: es)) with ⟨-, -, hq, hd⟩ | ⟨-, -, hq, hd⟩
        · simp [divided, hq, hd]
        · simp [divided, hq, hd]
      · exact (Nat.zero_div D).symm

/-- FDIV divides exactly, whatever its power-up contents and the pattern of resets. -/
theorem divides_exactly {fclock fTick : ℕ} (hTick : 1 ≤ fTick) (hclock : fTick ≤ fclock) (s : Fdiv)
    (es : List Event) :
    (run (step (fclock / fTick)) s (.rst :: es)).count = edgesSinceRst (.rst :: es) % (fclock / fTick) ∧
      (run (step (fclock / fTick)) s (.rst :: es)).count < fclock / fTick ∧
      ((run (step (fclock / fTick)) s (.rst :: es)).tick1ms = true ↔
        0 < edgesSinceRst (.rst :: es) ∧ fclock / fTick ∣ edgesSinceRst (.rst :: es)) ∧
      ticksSinceRst (fclock / fTick) s (.rst :: es) = edgesSinceRst (.rst :: es) / (fclock / fTick) := by
  have hD : 0 < fclock / fTick := Nat.div_pos hclock hTick
  rw [run_eq_divided hD]
  refine ⟨rfl, Nat.mod_lt _ hD, ?_, ticksSinceRst_eq hD s es⟩
  exact decide_eq_true_iff

theorem divides_exactly_by_one :
    ticksSinceRst (3 / 3) ⟨7, true⟩ [.rst, .clk false, .clk true, .clk false, .clk false] = 2 :=
  (divides_exactly (by decide) (by decide) ⟨7, true⟩ [.clk false, .clk true, .clk false, .clk false]).2.2.2

end Montre.Hardware.Fdiv
