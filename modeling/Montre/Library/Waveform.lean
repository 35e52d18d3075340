import Montre.Library.Runs
import Mathlib.Data.List.DropRight
import Mathlib.Algebra.Ring.Nat

namespace Montre.Library.Waveform

open Runs

def highs (w : List Bool) : ℕ := (w.rtakeWhile id).length

/-- The lengths of the maximal runs of high samples. -/
def highRuns (w : List Bool) : List ℕ := ((w.splitOn false).map List.length).filter (0 < ·)

@[simp] theorem highs_low (w : List Bool) : highs (w ++ [false]) = 0 := by
  simp [highs]

@[simp] theorem highs_high (w : List Bool) : highs (w ++ [true]) = highs w + 1 := by
  simp [highs]

theorem highs_append_highs (w : List Bool) (n : ℕ) : highs (w ++ List.replicate n true) = highs w + n := by
  induction n with
  | zero => simp
  | succ n ih => rw [List.replicate_succ', ← List.append_assoc, highs_high, ih, Nat.add_assoc]

theorem highs_append_lows (w : List Bool) (n : ℕ) :
    highs (w ++ List.replicate n false) = if n = 0 then highs w else 0 := by
  cases n with
  | zero => simp
  | succ n => rw [List.replicate_succ', ← List.append_assoc, highs_low, if_neg n.succ_ne_zero]

/-- A machine that every low sample resets depends on the last run of high samples only. -/
theorem run_of_low_resets {σ : Type} {f : σ → Bool → σ} {after : ℕ → σ}
    (hlow : ∀ s, f s false = after 0) (hhigh : ∀ n, f (after n) true = after (n + 1)) (w : List Bool) :
    run f (after 0) w = after (highs w) := by
  induction w using List.reverseRecOn with
  | nil => rfl
  | append_singleton w b ih =>
      rw [run_snoc]
      cases b with
      | false => rw [hlow, highs_low]
      | true => rw [ih, hhigh, highs_high]

theorem eq_high_or_append (w : List Bool) :
    w = List.replicate (highs w) true ∨ ∃ u, w = u ++ false :: List.replicate (highs w) true := by
  induction w using List.reverseRecOn with
  | nil => exact .inl rfl
  | append_singleton w b ih =>
      cases b with
      | false => exact .inr ⟨w, by simp⟩
      | true =>
          rw [highs_high, List.replicate_succ']
          rcases ih with ih | ⟨u, ih⟩
          · left
            rw [← ih]
          · right
            exact ⟨u, by rw [← List.cons_append, ← List.append_assoc, ← ih]⟩

section Sums

variable {f : ℕ → ℕ}

theorem sum_highRuns (hf : f 0 = 0) (w : List Bool) :
    ((highRuns w).map f).sum = ((w.splitOn false).map fun r => f r.length).sum := by
  rw [highRuns]
  induction w.splitOn false with
  | nil => rfl
  | cons r rs ih =>
      rw [List.map_cons, List.map_cons, List.sum_cons, ← ih, List.filter_cons]
      by_cases hr : 0 < r.length
      · rw [if_pos (decide_eq_true hr), List.map_cons, List.sum_cons]
      · rw [if_neg (by simpa using hr), Nat.eq_zero_of_not_pos hr, hf, Nat.zero_add]

theorem splitOn_high (n : ℕ) : (List.replicate n true).splitOn false = [List.replicate n true] := by
  rw [List.splitOn_eq_splitOnP]
  exact List.splitOnP_eq_singleton fun x hx => by rw [List.eq_of_mem_replicate hx]; rfl

theorem splitOn_append_low (u v : List Bool) :
    (u ++ false :: v).splitOn false = u.splitOn false ++ v.splitOn false := by
  simp only [List.splitOn_eq_splitOnP]
  exact List.splitOnP_append_cons u v rfl

theorem sum_highRuns_low (hf : f 0 = 0) (w : List Bool) :
    ((highRuns (w ++ [false])).map f).sum = ((highRuns w).map f).sum := by
  rw [sum_highRuns hf, sum_highRuns hf, splitOn_append_low]
  simp [hf]

theorem sum_highRuns_high (hf : f 0 = 0) (w : List Bool) :
    ((highRuns (w ++ [true])).map f).sum + f (highs w) =
      ((highRuns w).map f).sum + f (highs w + 1) := by
  rw [sum_highRuns hf, sum_highRuns hf]
  have hw := eq_high_or_append w
  generalize highs w = n at hw ⊢
  rcases hw with rfl | ⟨u, rfl⟩
  · rw [← List.replicate_succ', splitOn_high, splitOn_high]
    simp only [List.map_cons, List.map_nil, List.sum_cons, List.sum_nil, List.length_replicate]
    omega
  · rw [List.append_assoc, List.cons_append, ← List.replicate_succ', splitOn_append_low,
      splitOn_append_low, splitOn_high, splitOn_high]
    simp only [List.map_append, List.map_cons, List.map_nil, List.sum_append, List.sum_cons, List.sum_nil,
      List.length_replicate]
    omega

end Sums

theorem sum_highRuns_eq_count (w : List Bool) : (highRuns w).sum = w.count true := by
  induction w using List.reverseRecOn with
  | nil => rfl
  | append_singleton w b ih =>
      cases b with
      | false =>
          have hlow := sum_highRuns_low (f := id) rfl w
          rw [List.map_id, List.map_id] at hlow
          simp [hlow, ih]
      | true =>
          have hhigh := sum_highRuns_high (f := id) rfl w
          simp only [List.map_id, id_eq] at hhigh
          have hcount : (w ++ [true]).count true = w.count true + 1 := by simp
          omega

end Montre.Library.Waveform
