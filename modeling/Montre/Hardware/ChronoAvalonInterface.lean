import Montre.Hardware.BcdCounter
import Montre.Library.Waveform
import Mathlib.Data.BitVec

namespace Montre.Hardware

open Montre.Library Runs Waveform

abbrev Chrono := Prescaled BcdCounter

namespace Chrono

def reset (g : Generics) : Chrono := Prescaled.reset (BcdCounter.process g.n.val)

def cycle (g : Generics) (rst rst' start : Bool) (s : Chrono) : Chrono :=
  Prescaled.cycle (BcdCounter.process g.n.val) g.divisorMs rst rst' start s

/-- The four digits, each cut to four bits; nothing drives the upper half of the word. -/
def fromChrono (s : Chrono) : BitVec 32 :=
  (BitVec.ofNat 4 s.process.sigThousnds ++ BitVec.ofNat 4 s.process.sigHundreds ++
    BitVec.ofNat 4 s.process.sigTens ++ BitVec.ofNat 4 s.process.sigUnities).setWidth 32

/-- The component after t counted ticks, and n consecutive edges with START high. -/
def after (g : Generics) (n t : ℕ) : Chrono :=
  Prescaled.after g.divisorMs (BcdCounter.after g.n.val) n t

theorem after_zero (g : Generics) : after g 0 0 = reset g := by
  rw [after, reset, Prescaled.after, Prescaled.reset, Fdiv.after_zero, BcdCounter.process,
    ← BcdCounter.after_zero g.n.val]
  rfl

theorem cycle_high (g : Generics) (n t : ℕ) : cycle g false false true (after g n t) =
    after g (n + 1) (t + (Fdiv.after g.divisorMs n).tick1ms.toNat) := by
  apply Prescaled.cycle_high
  · intro t r
    rfl
  · exact BcdCounter.edge_after g.n
  · exact g.divisorMs_pos

/-- Stopping keeps the count and the partial second, and resets the divider. -/
theorem cycle_low (g : Generics) (n t : ℕ) : cycle g false false false (after g n t) = after g 0 t := by
  rw [after, after, Prescaled.after, Prescaled.after, Fdiv.after_zero]
  rfl

end Chrono

structure BusCycle where
  chipselect : Bool
  read : Bool
  write : Bool
  writedata : BitVec 32
  byteenable : BitVec 4
deriving DecidableEq

structure ChronoAvalonInterface where
  writedataReg : BitVec 32
  byteenableReg : BitVec 4
  readdataReg : BitVec 32
  chrono : Chrono
deriving DecidableEq

namespace ChronoAvalonInterface

def reset (g : Generics) : ChronoAvalonInterface := ⟨0, 0, 0, Chrono.reset g⟩

def start (s : ChronoAvalonInterface) : Bool := s.writedataReg.getLsbD 0

def rstChrono (s : ChronoAvalonInterface) : Bool := s.writedataReg.getLsbD 1

/-- One clock cycle once resetn is released. CHRONO sees the register of before the edge,
but its asynchronous reset follows the register at once. -/
def step (g : Generics) (s : ChronoAvalonInterface) (c : BusCycle) : ChronoAvalonInterface :=
  let s' := { s with
    writedataReg := if c.chipselect && c.write then c.writedata else s.writedataReg
    byteenableReg := if c.chipselect && c.write then c.byteenable else s.byteenableReg
    readdataReg := if c.chipselect && c.read then Chrono.fromChrono s.chrono else s.readdataReg }
  { s' with chrono := Chrono.cycle g s.rstChrono s'.rstChrono s.start s.chrono }

/-- rst_chrono is asserted at the edge: already before it, or by the write it samples. -/
def resets (g : Generics) (s : ChronoAvalonInterface) (c : BusCycle) : Bool :=
  s.rstChrono || (s.step g c).rstChrono

/-- START as sampled at the edges since the last one at which rst_chrono was asserted. -/
def startSince (g : Generics) (cs : List BusCycle) : List Bool :=
  ((trace (step g) (reset g) cs).rtakeWhile fun x => !x.1.resets g x.2).map fun x => x.1.start

def ticksOver (D : ℕ) (w : List Bool) : ℕ := ((highRuns w).map fun n => (n - 2) / D).sum

theorem ticksOver_low (D : ℕ) (w : List Bool) : ticksOver D (w ++ [false]) = ticksOver D w :=
  sum_highRuns_low (Nat.zero_div D) w

theorem ticksOver_high {D : ℕ} (hD : 0 < D) (w : List Bool) :
    ticksOver D (w ++ [true]) = ticksOver D w + (Fdiv.after D (highs w)).tick1ms.toNat := by
  have hsum := sum_highRuns_high (f := fun n => (n - 2) / D) (Nat.zero_div D) w
  have hticks := Fdiv.ticks_succ hD (highs w)
  simp only [ticksOver, Fdiv.ticks] at hsum hticks ⊢
  omega

theorem startSince_snoc (g : Generics) (cs : List BusCycle) (c : BusCycle) :
    startSince g (cs ++ [c]) =
      if (run (step g) (reset g) cs).resets g c then [] else startSince g cs ++ [(run (step g) (reset g) cs).start] := by
  rw [startSince, trace_snoc, List.rtakeWhile_concat]
  cases (run (step g) (reset g) cs).resets g c <;> simp [startSince]

theorem step_chrono (g : Generics) (s : ChronoAvalonInterface) (c : BusCycle) :
    (s.step g c).chrono =
      if s.resets g c then Chrono.reset g else Chrono.cycle g false false s.start s.chrono := by
  have hs : (s.step g c).chrono = Chrono.cycle g s.rstChrono (s.step g c).rstChrono s.start s.chrono := rfl
  by_cases h : s.resets g c = true
  · rw [if_pos h, hs]
    exact Prescaled.cycle_reset _ _ h _ _
  · have hboth := h
    rw [resets, Bool.or_eq_true, not_or, Bool.not_eq_true, Bool.not_eq_true] at hboth
    rw [if_neg h, hs, hboth.1, hboth.2]

theorem chrono_run (g : Generics) (cs : List BusCycle) :
    (run (step g) (reset g) cs).chrono =
      Chrono.after g (highs (startSince g cs)) (ticksOver g.divisorMs (startSince g cs)) := by
  induction cs using List.reverseRecOn with
  | nil => exact (Chrono.after_zero g).symm
  | append_singleton cs c ih =>
      rw [run_snoc, step_chrono, startSince_snoc, ih]
      by_cases hreset : (run (step g) (reset g) cs).resets g c = true
      · rw [if_pos hreset, if_pos hreset]
        exact (Chrono.after_zero g).symm
      · rw [if_neg hreset, if_neg hreset]
        cases (run (step g) (reset g) cs).start with
        | false => rw [Chrono.cycle_low, ticksOver_low, highs_low]
        | true => rw [Chrono.cycle_high, ticksOver_high g.divisorMs_pos, highs_high]

theorem ticksOver_bounds {D : ℕ} (hD : 0 < D) (w : List Bool) :
    ticksOver D w * D ≤ w.count true ∧
      w.count true ≤ ticksOver D w * D + (highRuns w).length * (D + 1) := by
  rw [← sum_highRuns_eq_count, ticksOver]
  induction highRuns w with
  | nil => simp
  | cons n ns ih =>
      have hdiv := Nat.div_add_mod (n - 2) D
      have hmod := Nat.mod_lt (n - 2) hD
      rw [Nat.mul_comm] at hdiv
      simp only [List.map_cons, List.sum_cons, List.length_cons, Nat.add_mul, Nat.one_mul]
      omega

/-- The stopwatch counts the ticks of its runs since the last reset, in any history of the bus. -/
theorem chrono_closed_form (g : Generics) (cs : List BusCycle)
    (h : ticksOver g.divisorMs (startSince g cs) / g.n.val / 600 < 2 ^ 31) :
    ((run (step g) (reset g) cs).chrono.process.tickN1ms =
        ticksOver g.divisorMs (startSince g cs) % g.n.val ∧
      (run (step g) (reset g) cs).chrono.process.sigUnities =
        ticksOver g.divisorMs (startSince g cs) / g.n.val % 10 ∧
      (run (step g) (reset g) cs).chrono.process.sigTens =
        ticksOver g.divisorMs (startSince g cs) / g.n.val / 10 % 6 ∧
      (run (step g) (reset g) cs).chrono.process.sigHundreds =
        ticksOver g.divisorMs (startSince g cs) / g.n.val / 60 % 10 ∧
      (run (step g) (reset g) cs).chrono.process.sigThousnds =
        ticksOver g.divisorMs (startSince g cs) / g.n.val / 600) ∧
    ticksOver g.divisorMs (startSince g cs) * g.divisorMs ≤ (startSince g cs).count true ∧
    (startSince g cs).count true ≤ ticksOver g.divisorMs (startSince g cs) * g.divisorMs +
      (highRuns (startSince g cs)).length * (g.divisorMs + 1) ∧
    ∀ c, (run (step g) (reset g) cs).start = false → (run (step g) (reset g) cs).resets g c = false →
      (run (step g) (reset g) (cs ++ [c])).chrono.process =
        { (run (step g) (reset g) cs).chrono.process with rstFdiv := true } := by
  obtain ⟨hfast, hslow⟩ := ticksOver_bounds g.divisorMs_pos (startSince g cs)
  refine ⟨?_, hfast, hslow, ?_⟩
  · rw [chrono_run]
    refine ⟨rfl, rfl, rfl, rfl, ?_⟩
    apply Nat.mod_eq_of_lt
    exact h
  · intro c hstart hreset
    rw [run_snoc, step_chrono, hreset, hstart, chrono_run, if_neg Bool.false_ne_true, Chrono.cycle_low]
    rfl

def twoEdgesPerSecond : Generics :=
  ⟨⟨2, by decide⟩, ⟨1, by decide⟩, ⟨1, by decide⟩, by decide⟩

def startThenWait : List BusCycle :=
  ⟨true, false, true, 1, 0xF⟩ :: List.replicate 7 ⟨false, false, false, 0, 0⟩

theorem chrono_closed_form_two_seconds :
    (run (step twoEdgesPerSecond) (reset twoEdgesPerSecond) startThenWait).chrono.process.sigUnities = 2 := by
  have h := chrono_closed_form twoEdgesPerSecond startThenWait (by decide +kernel)
  exact h.1.2.1.trans (by decide +kernel)

end ChronoAvalonInterface

end Montre.Hardware
