import Montre.Compiled.Display
import Montre.Compiled.Exception
import Montre.Compiled.Timekeeping

namespace Montre.Compiled

open Montre.Library Nios2 Cpu Montre.Hardware

open Montre.Firmware hiding exec

variable {s : Cpu Io} {x : Word} {st : Interrupts.State}

/-- The world of the processor and a state of the model. -/
structure Agrees (w : World Io) (st : Interrupts.State) : Prop where
  shares : Shares w st
  represents : Represents w.mem st.system.state
  registers : w.dev.registers = st.system.env

def turnMemory (x : Word) : Set (BitVec 25) := globals ∪ flags ∪ stack 10 x

theorem flags_notMem {a : BitVec 25} (ha : a ∈ flags) (hx : Frame 10 x) : a ∉ globals ∪ stack 10 x := by
  have hlimit := hx.limit
  have hle := ha.2
  rw [BitVec.le_def] at hle
  change a.toNat ≤ 8450910 at hle
  rintro (⟨hge, -⟩ | ⟨hge, -⟩)
  · rw [BitVec.le_def] at hge
    change 8450912 ≤ a.toNat at hge
    omega
  · omega

theorem Performs.agrees {p : Routine} {rs : List Reg} {A : Set (BitVec 25)} {t : Cpu Io}
    (h : Performs p st.system.state rs A s t) (hx : Frame 10 x) (hA : A ⊆ globals ∪ stack 10 x)
    (hs : Agrees s.world st) (pc : Interrupts.Pc) :
    Agrees t.world { st with pc := pc, system := Firmware.exec p st.system } := by
  have hflag {a : BitVec 25} (ha : a ∈ flags) : t.world.mem a = s.world.mem a :=
    h.spares fun hmem => flags_notMem ha hx (hA hmem)
  have hdev : t.world.dev = s.world.dev.emit (p st.system.state).2 := by rw [h.world]
  refine ⟨⟨?_, ?_, ?_, ?_⟩, h.represents, ?_⟩
  · rw [hdev]
    exact hs.shares.edgeCap
  · rw [hflag ⟨by decide, by decide⟩]
    exact hs.shares.tick1sFlag
  · rw [hflag ⟨by decide, by decide⟩]
    exact hs.shares.keysRisingFlags
  · rw [hflag ⟨by decide, by decide⟩]
    exact hs.shares.keysInterruptFlag
  · rw [hdev, Io.emit, hs.registers]
    rfl

theorem Agrees.clearTick (hs : Agrees s.world st) {t : Cpu Io}
    (ht : t.world = { s.world with mem := Function.update s.world.mem 0x80F35C 0 }) :
    Agrees t.world { st with pc := .updateAllTime1s, tick1sFlag := false } := by
  have hmem : t.world.mem = Function.update s.world.mem 0x80F35C 0 := congrArg World.mem ht
  have hdev : t.world.dev = s.world.dev := by rw [ht]
  refine ⟨⟨?_, ?_, ?_, ?_⟩, ?_, ?_⟩
  · rw [hdev]
    exact hs.shares.edgeCap
  · rw [hmem]
    rfl
  · rw [hmem, Function.update_of_ne (by decide)]
    exact hs.shares.keysRisingFlags
  · rw [hmem, Function.update_of_ne (by decide)]
    exact hs.shares.keysInterruptFlag
  · have hflag : (0x80F35C : BitVec 25) ∈ flags := ⟨by decide, by decide⟩
    rw [hmem]
    exact hs.represents.congr (eqOn_update hflag 0) globals_subset_flags
  · rw [hdev]
    exact hs.registers

theorem test_tick (hpc : s.pc = 0x800840) (hgp : s.get .gp = 0x8158C0#32) (hs : Shares s.world st) :
    Leads (step code io) (fun t => t.pc = (if st.tick1sFlag then 0x80084c else 0x800858) ∧ s.Keeps [.r2] t ∧
      t.world = s.world) s := by
  have hflag : s.world.mem 0x80F35C#25 = (BitVec.ofBool st.tick1sFlag).setWidth 8 := hs.tick1sFlag
  apply Leads.block [.ldbu .r2 .gp (-25956), .alui .and .r2 .r2 255, .branch .eq .r2 .zero 12] hpc (by rfl)
  apply Leads.done
  refine ⟨?_, keeps_block (by decide) s _, by simp [exec]⟩
  cases htick : st.tick1sFlag with
  | false => simp [exec, Alu.eval, Compare.eval, byteOf, hgp, hflag, htick, link, toPc, wordOf]
  | true => simp [exec, Alu.eval, Compare.eval, byteOf, hgp, hflag, htick]

theorem clear_tick (hpc : s.pc = 0x80084c) (hgp : s.get .gp = 0x8158C0#32) :
    Leads (step code io) (fun t => t.pc = 0x800614 ∧ toPc (t.get .ra) = 0x800854 ∧ s.Keeps [.ra] t ∧
      t.world = { s.world with mem := Function.update s.world.mem 0x80F35C 0 }) s := by
  apply Leads.block [.stb .zero .gp (-25956), .call 0x800614] hpc (by rfl)
  apply Leads.done
  refine ⟨by simp [exec, toPc], by simp [exec, link, toPc], keeps_block (by decide) s _, ?_⟩
  simp [exec, byteOf, hgp]

theorem call_display (hpc : s.pc = 0x800854) :
    Leads (step code io) (fun t => t.pc = 0x800520 ∧ toPc (t.get .ra) = 0x800858 ∧ s.Keeps [.ra] t ∧
      t.world = s.world) s := by
  apply Leads.block [.call 0x800520] hpc (by rfl)
  apply Leads.done
  exact ⟨by simp [exec, toPc], by simp [exec, link, toPc], keeps_block (by decide) s _, by simp [exec]⟩

theorem test_keys (hpc : s.pc = 0x800858) (hgp : s.get .gp = 0x8158C0#32) (hs : Shares s.world st)
    (hkeys : st.keysInterruptFlag = false) :
    Leads (step code io) (fun t => t.pc = 0x800840 ∧ s.Keeps [.r2] t ∧ t.world = s.world) s := by
  have hflag : s.world.mem 0x80F35E#25 = 0#8 := hs.keysInterruptFlag.trans (by rw [hkeys]; rfl)
  apply Leads.block [.ldbu .r2 .gp (-25954), .alui .and .r2 .r2 255, .branch .eq .r2 .zero (-36)] hpc (by rfl)
  apply Leads.done
  refine ⟨?_, keeps_block (by decide) s _, by simp [exec]⟩
  simp [exec, Alu.eval, Compare.eval, byteOf, hgp, hflag, link, toPc, wordOf]

def serveTick : Routine := Emit.seq updateAllTime1s updateDisplay

theorem serve_tick (hpc : s.pc = 0x80084c) (hgp : s.get .gp = 0x8158C0#32) (hx : Frame 10 x)
    (hsp : s.get .sp = x + 40#32) (hs : Agrees s.world st) :
    Leads (step code io) (fun t => t.pc = 0x800858 ∧ s.Keeps [.ra, .r2, .r3, .r4, .r5, .r6, .r7] t ∧
      t.world = { s.world with mem := t.world.mem, dev := s.world.dev.emit (serveTick st.system.state).2 } ∧
      Agrees t.world { st with
        pc := .testKeys
        tick1sFlag := false
        system := Firmware.exec serveTick st.system } ∧
      Set.EqOn t.world.mem s.world.mem (turnMemory x)ᶜ) s := by
  have hflag : (0x80F35C : BitVec 25) ∈ turnMemory x := .inl (.inr ⟨by decide, by decide⟩)
  apply (clear_tick hpc hgp).trans
  rintro t ⟨hpc, hra, hkeeps, ht⟩
  have hs' := hs.clearTick ht
  have hspares : Set.EqOn t.world.mem s.world.mem (turnMemory x)ᶜ := by
    rw [ht]
    exact eqOn_update hflag 0
  apply (update_all_time_1s_performs hpc ((hkeeps .gp (by decide)).trans hgp) hs'.represents).trans
  intro u hu
  replace hs' := hu.agrees hx Set.subset_union_left hs' .updateDisplay
  replace hkeeps : s.Keeps [.ra, .r2, .r3, .r4, .r5, .r6, .r7] u :=
    (hkeeps.mono (by decide)).trans (hu.keeps.mono (by decide))
  replace hspares := (hu.spares.mono (Set.compl_subset_compl.mpr fun a ha => .inl (.inl ha))).trans hspares
  apply (call_display (hu.pc.trans hra)).trans
  rintro v ⟨hpc, hra, hkeeps', hv⟩
  replace hkeeps := hkeeps.trans (hkeeps'.mono (by decide))
  apply (update_display_performs hpc ((hkeeps .gp (by decide)).trans hgp) hx ((hkeeps .sp (by decide)).trans hsp)
    (hv ▸ hs'.represents)).mono
  intro y hy
  have hdisplay := hy.agrees hx Set.subset_union_right (hv ▸ hs') .testKeys
  refine ⟨hy.pc.trans hra, hkeeps.trans (hy.keeps.mono (by decide)), ?_, ?_, ?_⟩
  · rw [hy.world, hv, hu.world, ht]
    simp only [Io.emit_emit]
    rfl
  · rw [serveTick, exec_seq]
    exact hdisplay
  · have hstack : Set.EqOn y.world.mem v.world.mem (turnMemory x)ᶜ :=
      hy.spares.mono (Set.compl_subset_compl.mpr Set.subset_union_right)
    rw [hv] at hstack
    exact hstack.trans hspares

/-- The steps of the model in a turn of the loop that finds no key interrupt. -/
def turn (st : Interrupts.State) (switches : BitVec 10) : List Interrupts.Action :=
  List.replicate (if st.tick1sFlag then 5 else 2) (.main switches)

theorem run_turn (htest : st.pc = .testTick) (hkeys : st.keysInterruptFlag = false) (switches : BitVec 10) :
    Runs.run Interrupts.step st (turn st switches) =
      { st with
        tick1sFlag := false
        system := Firmware.exec (Emit.when st.tick1sFlag serveTick) st.system } := by
  obtain ⟨pc, keysIsr, edgeCap, tick1sFlag, keysRisingFlags, keysInterruptFlag, system⟩ := st
  cases htest
  cases hkeys
  cases tick1sFlag with
  | false => rfl
  | true =>
      simp only [Emit.when, if_true, serveTick, exec_seq]
      rfl

def ticked : Cpu Io :=
  running 0x800840 0 (Function.update (memory beforeMidnight) 0x80F35C 1) ⟨.reset, 0, 0, false, false, []⟩

end Montre.Compiled
