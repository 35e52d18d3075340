import Montre.Hardware.AlarmBellAvalonInterface
import Montre.Library.Lanes

namespace Montre.Hardware

open Montre.Library Runs Lanes

namespace BusCycle

def accepted (c : BusCycle) : Bool := c.chipselect && c.write

def lane (w : BitVec 32) (i : Fin 4) : BitVec 8 := w.extractLsb' (8 * i.val) 8

def lanes (c : BusCycle) : Write (Fin 4) (BitVec 8) :=
  ⟨fun i => c.byteenable.getLsbD i.val, lane c.writedata⟩

def writes (cs : List BusCycle) : List (Write (Fin 4) (BitVec 8)) := (cs.filter accepted).map lanes

/-- The register is the byte-wise merge of the accepted writes. -/
def Merges (reg : BitVec 32) (cs : List BusCycle) : Prop := ∀ i, lane reg i = merged (fun _ => 0) (writes cs) i

instance (reg : BitVec 32) (cs : List BusCycle) : Decidable (Merges reg cs) :=
  inferInstanceAs (Decidable (∀ i, lane reg i = merged (fun _ => 0) (writes cs) i))

/-- The last accepted write, if any, carries on the lanes it does not enable the bytes
that the earlier ones have left there. -/
def LastRepeats (cs : List BusCycle) : Prop :=
  ∀ earlier w, writes cs = earlier ++ [w] → Repeats (fun _ => 0) earlier w

theorem writes_snoc (cs : List BusCycle) (c : BusCycle) :
    writes (cs ++ [c]) = if c.accepted then writes cs ++ [c.lanes] else writes cs := by
  rw [writes, List.filter_append]
  cases h : c.accepted <;> simp [h, writes]

section Register

variable {σ : Type} {step : σ → BusCycle → σ} {reg : σ → BitVec 32} {s : σ}

theorem lane_run (hstep : ∀ s c, reg (step s c) = if c.accepted then c.writedata else reg s)
    (hs : reg s = 0) (cs : List BusCycle) : lane (reg (run step s cs)) = overwritten (fun _ => 0) (writes cs) := by
  induction cs using List.reverseRecOn with
  | nil =>
      rw [run_nil, hs]
      funext i
      simp [lane, writes, overwritten]
  | append_singleton cs c ih =>
      rw [run_snoc, hstep, writes_snoc]
      split_ifs with h
      · exact (overwritten_snoc _ _ c.lanes).symm
      · exact ih

theorem merges_iff (hstep : ∀ s c, reg (step s c) = if c.accepted then c.writedata else reg s)
    (hs : reg s = 0) (cs : List BusCycle) : Merges (reg (run step s cs)) cs ↔ LastRepeats cs := by
  rw [Merges, ← funext_iff, lane_run hstep hs]
  exact overwritten_eq_merged_iff _ _

theorem lane_kept (hstep : ∀ s c, reg (step s c) = if c.accepted then c.writedata else reg s)
    (hs : reg s = 0) {cs : List BusCycle} {c : BusCycle} {i : Fin 4} (hbefore : LastRepeats cs)
    (hafter : LastRepeats (cs ++ [c])) (hi : c.byteenable.getLsbD i.val = false) :
    lane (reg (run step s (cs ++ [c]))) i = lane (reg (run step s cs)) i := by
  have h₁ := (merges_iff hstep hs cs).mpr hbefore i
  have h₂ := (merges_iff hstep hs (cs ++ [c])).mpr hafter i
  rw [h₁, h₂, writes_snoc]
  split_ifs
  · exact merged_snoc_of_disabled _ _ _ hi
  · rfl

end Register

/-- Nothing is lost by a master that only writes whole words. -/
theorem lastRepeats_of_whole_words {cs : List BusCycle}
    (h : ∀ c ∈ cs, c.accepted = true → c.byteenable = 0xF) : LastRepeats cs := by
  intro earlier w hw i hi
  have hmem : w ∈ writes cs := by simp [hw]
  obtain ⟨c, hc, rfl⟩ := List.mem_map.mp hmem
  obtain ⟨hin, hacc⟩ := List.mem_filter.mp hc
  have hall : ∀ i : Fin 4, (0xF : BitVec 4).getLsbD i.val = true := by decide
  have hi' : c.byteenable.getLsbD i.val = false := hi
  rw [h c hin hacc, hall i] at hi'
  contradiction

theorem getLsbD_of_lane_eq {w w' : BitVec 32} (h : lane w 0 = lane w' 0) {k : ℕ} (hk : k < 8) :
    w.getLsbD k = w'.getLsbD k := by
  have hbit := congrArg (fun b => b.getLsbD k) h
  simpa [lane, hk] using hbit

end BusCycle

theorem ChronoAvalonInterface.writedataReg_step (g : Generics) (s : ChronoAvalonInterface) (c : BusCycle) :
    (s.step g c).writedataReg = if c.accepted then c.writedata else s.writedataReg := rfl

theorem AlarmBellAvalonInterface.writedataReg_step (g : Generics) (s : AlarmBellAvalonInterface)
    (c : BusCycle) : (s.step g c).writedataReg = if c.accepted then c.writedata else s.writedataReg := rfl

/-- Both slaves take every lane of the writes they accept: the command register is the merge
of the writes exactly when the last one repeats what it does not enable. -/
theorem byte_enables_honoured_iff (g g' : Generics) (cs : List BusCycle) :
    (BusCycle.Merges (run (ChronoAvalonInterface.step g) (.reset g) cs).writedataReg cs ↔
        BusCycle.LastRepeats cs) ∧
      (BusCycle.Merges (run (AlarmBellAvalonInterface.step g') (.reset g') cs).writedataReg cs ↔
        BusCycle.LastRepeats cs) ∧
      ∀ c : BusCycle,
        (c.accepted = false →
          (run (ChronoAvalonInterface.step g) (.reset g) (cs ++ [c])).writedataReg =
              (run (ChronoAvalonInterface.step g) (.reset g) cs).writedataReg ∧
            (run (AlarmBellAvalonInterface.step g') (.reset g') (cs ++ [c])).writedataReg =
              (run (AlarmBellAvalonInterface.step g') (.reset g') cs).writedataReg) ∧
        (BusCycle.LastRepeats cs → BusCycle.LastRepeats (cs ++ [c]) → c.byteenable.getLsbD 0 = false →
          (run (ChronoAvalonInterface.step g) (.reset g) (cs ++ [c])).start =
              (run (ChronoAvalonInterface.step g) (.reset g) cs).start ∧
            (run (ChronoAvalonInterface.step g) (.reset g) (cs ++ [c])).rstChrono =
              (run (ChronoAvalonInterface.step g) (.reset g) cs).rstChrono ∧
            (run (AlarmBellAvalonInterface.step g') (.reset g') (cs ++ [c])).start =
              (run (AlarmBellAvalonInterface.step g') (.reset g') cs).start) := by
  have hchrono := ChronoAvalonInterface.writedataReg_step g
  have hbell := AlarmBellAvalonInterface.writedataReg_step g'
  refine ⟨BusCycle.merges_iff hchrono rfl cs, BusCycle.merges_iff hbell rfl cs, ?_⟩
  intro c
  constructor
  · intro hc
    rw [run_snoc, run_snoc, hchrono, hbell, hc]
    exact ⟨rfl, rfl⟩
  · intro hbefore hafter h₀
    have hlane := BusCycle.lane_kept (s := .reset g) (i := 0) hchrono rfl hbefore hafter h₀
    have hlane' := BusCycle.lane_kept (s := .reset g') (i := 0) hbell rfl hbefore hafter h₀
    refine ⟨?_, ?_, ?_⟩
    · exact BusCycle.getLsbD_of_lane_eq hlane (by decide)
    · exact BusCycle.getLsbD_of_lane_eq hlane (by decide)
    · exact BusCycle.getLsbD_of_lane_eq hlane' (by decide)

def startThenUpperByte : List BusCycle := [⟨true, false, true, 1, 0xF⟩, ⟨true, false, true, 0, 0x2⟩]

theorem upper_byte_stops :
    (run (ChronoAvalonInterface.step ChronoAvalonInterface.twoEdgesPerSecond) (.reset ChronoAvalonInterface.twoEdgesPerSecond)
        (startThenUpperByte.take 1)).start = true ∧
      (run (ChronoAvalonInterface.step ChronoAvalonInterface.twoEdgesPerSecond) (.reset ChronoAvalonInterface.twoEdgesPerSecond)
        startThenUpperByte).start = false ∧
      ¬ BusCycle.Merges (run (ChronoAvalonInterface.step ChronoAvalonInterface.twoEdgesPerSecond) (.reset ChronoAvalonInterface.twoEdgesPerSecond)
        startThenUpperByte).writedataReg startThenUpperByte ∧
      ¬ BusCycle.Merges (run (AlarmBellAvalonInterface.step ChronoAvalonInterface.twoEdgesPerSecond) (.reset ChronoAvalonInterface.twoEdgesPerSecond)
        startThenUpperByte).writedataReg startThenUpperByte := by
  decide +kernel

end Montre.Hardware
