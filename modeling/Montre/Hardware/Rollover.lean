import Montre.Hardware.BcdCounter
import Montre.Library.Runs

namespace Montre.Hardware

open Montre.Library Montre.Library.Runs

namespace BcdCounter

def unities (s : BcdCounter) : BitVec 4 := BitVec.ofNat 4 s.sigUnities

def tens (s : BcdCounter) : BitVec 4 := BitVec.ofNat 4 s.sigTens

def hundreds (s : BcdCounter) : BitVec 4 := BitVec.ofNat 4 s.sigHundreds

def thousnds (s : BcdCounter) : BitVec 4 := BitVec.ofNat 4 s.sigThousnds

structure Sample where
  start : Bool
  tick1ms : Bool
deriving DecidableEq

def sample (N : ℕ) (s : BcdCounter) (i : Sample) : BcdCounter := s.edge N i.start i.tick1ms

/-- The ticks seen with START high, and the counts they make. -/
def counted (is : List Sample) : ℕ := is.countP fun i => i.start && i.tick1ms

def counts (N : ℕ) (is : List Sample) : ℕ := counted is / N

structure Reads (s : BcdCounter) (n : ℕ) : Prop where
  thousnds : s.thousnds.toNat = n / 60 / 10
  hundreds : s.hundreds.toNat = n / 60 % 10
  tens : s.tens.toNat = n % 60 / 10
  unities : s.unities.toNat = n % 60 % 10

theorem edge_low (N t : ℕ) (r tick : Bool) : (after N t r).edge N false tick = after N t true := rfl

theorem counted_snoc (is : List Sample) (i : Sample) :
    counted (is ++ [i]) = counted is + (i.start && i.tick1ms).toNat := by
  rw [counted, List.countP_append, List.countP_singleton, counted]
  cases i.start && i.tick1ms <;> rfl

theorem counted_replicate (n : ℕ) : counted (List.replicate n ⟨true, true⟩) = n := by
  simp [counted, List.countP_replicate]

theorem sample_run (N : Positive) (is : List Sample) :
    ∃ r, run (sample N.val) reset is = after N.val (counted is) r := by
  induction is using List.reverseRecOn with
  | nil => exact ⟨true, (after_zero N.val).symm⟩
  | append_singleton is i ih =>
      obtain ⟨r, ih⟩ := ih
      obtain ⟨start, tick⟩ := i
      rw [run_snoc, ih, counted_snoc]
      cases start with
      | false => exact ⟨true, edge_low N.val (counted is) r tick⟩
      | true => exact ⟨false, edge_after N (counted is) r tick⟩

theorem reads_after_iff (N t : ℕ) (r : Bool) :
    (after N t r).Reads (t / N % 1440) ↔ t / N % 28800 < 1440 := by
  constructor
  · intro h
    have hthousnds := h.thousnds
    have hhundreds := h.hundreds
    simp only [BcdCounter.thousnds, BcdCounter.hundreds, after, BitVec.toNat_ofNat] at hthousnds hhundreds
    omega
  · intro h
    constructor <;>
      simp only [BcdCounter.thousnds, BcdCounter.hundreds, BcdCounter.tens, BcdCounter.unities, after,
        BitVec.toNat_ofNat] <;> omega

/-- The outputs are the time of day exactly through the first of every twenty days: the hours
run on past 23, and only their cut to two digits of 16 and 10 brings them back. -/
theorem reads_time_of_day_iff (N : Positive) (is : List Sample) :
    (run (sample N.val) reset is).Reads (counts N.val is % 1440) ↔ counts N.val is % 28800 < 1440 := by
  obtain ⟨r, hrun⟩ := sample_run N is
  rw [hrun, counts, reads_after_iff]

theorem reads_twenty_four_hours :
    ¬ ∀ (N : Positive) (is : List Sample),
      (run (sample N.val) reset is).Reads (counts N.val is % 1440) := by
  intro h
  have hday := h ⟨1, by decide⟩ (List.replicate 1440 ⟨true, true⟩)
  obtain ⟨r, hrun⟩ := sample_run ⟨1, by decide⟩ (List.replicate 1440 ⟨true, true⟩)
  rw [hrun, counts, reads_after_iff, counted_replicate] at hday
  exact absurd hday (by decide)

end BcdCounter

end Montre.Hardware
