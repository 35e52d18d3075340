import Montre.Hardware.ResetRequest
import Montre.Interrupts.KeyPresses
import Montre.Interrupts.Ticks

namespace Montre.Joint.KeyPort

open Montre.Library.Runs Montre.Firmware Montre.Hardware Montre.Interrupts

structure KeyBoard where
  wiring : KeyWiring
  cpu : State

inductive Processor
  | keysIsr
  | timerIsr
  | main (switches : BitVec 10)

def Processor.action : Processor → Action
  | .keysIsr => .keysIsr
  | .timerIsr => .timerIsr
  | .main switches => .main switches

inductive Cycle
  | pins (key : BitVec 4)
  | edge (p : Option Processor)

/-- The read of EDGE_CAP in `keys_isr`, and the write that clears it. -/
def pioAccess (cpu : State) : Option Processor → PioAccess
  | some .keysIsr => match cpu.keysIsr with
    | .idle => ⟨3, true, true, 0⟩
    | .fetched _ => ⟨3, true, false, 0xF⟩
    | .cleared _ | .stored => ⟨0, false, true, 0⟩
  | _ => ⟨0, false, true, 0⟩

def KeyBoard.fetch (b : KeyBoard) : State := { b.cpu with edgeCap := b.wiring.keys.edgeCapture }

def powerUp : KeyBoard := ⟨.powerUp, init⟩

/-- The reset of the port is that of the processor too: nios_system sets RESET_REQUEST_PRESENT for both. -/
def step (b : KeyBoard) : Cycle → KeyBoard
  | .pins key =>
      let wiring := b.wiring.pins true key
      ⟨wiring, if wiring.resetN true then b.cpu else init⟩
  | .edge p =>
      let wiring := b.wiring.edge true (pioAccess b.cpu p)
      ⟨wiring, if b.wiring.resetN true && wiring.resetN true
        then p.elim b.cpu fun p => Interrupts.step b.fetch p.action else init⟩

def ran (b : KeyBoard) : Cycle → List Event
  | .edge (some p) => executed b.cpu p.action
  | _ => []

def rising : Pc → UInt8
  | .clearRising r | .readSwitches r | .printRising r _ => r
  | _ => 0

/-- However far the bit of KEY0 has got in the firmware, the reset is due: it comes within n edges if due n. -/
structure Spared (due : ℕ → Prop) (cpu : State) : Prop where
  fetched : ∀ e, cpu.keysIsr = .fetched e → e.toBitVec.getLsbD 0 = true → due 3
  cleared : ∀ e, cpu.keysIsr = .cleared e → e.toBitVec.getLsbD 0 = true → due 2
  flags : cpu.keysRisingFlags.toBitVec.getLsbD 0 = true → due 1
  handler : (rising cpu.pc).toBitVec.getLsbD 0 = false
  branches : ∀ es, cpu.pc = .branches es → .key0 ∉ es

theorem spared_init (due : ℕ → Prop) : Spared due init := by
  constructor
  · simp [init]
  · simp [init]
  · simp [init]
  · rfl
  · simp [init]

theorem key0_notMem_keyEvents {r : UInt8} (h : r.toBitVec.getLsbD 0 = false) (sw : UInt16) :
    Event.key0 ∉ keyEvents r sw := by
  have hbit : r &&& 0x1 = 0 := by
    apply UInt8.toBitVec_inj.mp
    rw [UInt8.toBitVec_and]
    exact (BitVec.and_one_eq_setWidth_ofBool_getLsbD).trans (by rw [h]; rfl)
  simp only [keyEvents, hbit, ne_eq, not_true_eq_false, if_false, List.nil_append, List.mem_append]
  split_ifs <;> simp

section Edge

variable {due due' : ℕ → Prop} {cpu : State}

theorem Spared.mono (hdue : ∀ n, due n → due' n) (h : Spared due cpu) : Spared due' cpu where
  fetched e he hbit := hdue 3 (h.fetched e he hbit)
  cleared e he hbit := hdue 2 (h.cleared e he hbit)
  flags hbit := hdue 1 (h.flags hbit)
  handler := h.handler
  branches := h.branches

variable (hdue : ∀ m n, m ≤ n + 1 → due m → due' n)

include hdue in
/-- Each step of `keys_isr` takes an edge, and brings the reset one edge nearer. -/
theorem Spared.keysIsr (h : Spared due cpu) (hcapture : cpu.edgeCap.getLsbD 0 = true → due 4) :
    Spared due' (stepKeysIsr cpu) := by
  have hwait := h.mono fun n => hdue n n (Nat.le_succ n)
  cases hk : cpu.keysIsr with
  | idle =>
      rw [stepKeysIsr, hk]
      refine ⟨?_, by simp, hwait.flags, h.handler, h.branches⟩
      rintro e ⟨⟩ hbit
      exact hdue 4 3 le_rfl (hcapture (by simpa using hbit))
  | fetched edgeCapture =>
      rw [stepKeysIsr, hk]
      refine ⟨by simp, ?_, hwait.flags, h.handler, h.branches⟩
      rintro e ⟨⟩ hbit
      exact hdue 3 2 le_rfl (h.fetched edgeCapture hk hbit)
  | cleared edgeCapture =>
      rw [stepKeysIsr, hk]
      refine ⟨by simp, by simp, ?_, h.handler, h.branches⟩
      intro hbit
      exact hdue 2 1 le_rfl (h.cleared edgeCapture hk ((stored_bit edgeCapture 0).symm.trans hbit))
  | stored =>
      rw [stepKeysIsr, hk]
      exact ⟨by simp, by simp, hwait.flags, h.handler, h.branches⟩

theorem spared_rising (h : Spared due cpu) (hflags : cpu.keysRisingFlags.toBitVec.getLsbD 0 = false)
    (switches : BitVec 10) : (rising (stepMain cpu switches).pc).toBitVec.getLsbD 0 = false := by
  have hzero : (0 : UInt8).toBitVec.getLsbD 0 = false := by decide
  have hhandler := h.handler
  cases hp : cpu.pc with
  | readRising =>
      simp only [stepMain, hp, rising]
      exact hflags
  | clearRising r | readSwitches r =>
      simp only [stepMain, hp, rising] at hhandler ⊢
      exact hhandler
  | branches es => cases es <;> simp only [stepMain, hp, rising, hzero]
  | testTick | testKeys =>
      simp only [stepMain, hp]
      split_ifs <;> exact hzero
  | clearTick | updateAllTime1s | updateDisplay | clearKeys | printRising r sw =>
      simp only [stepMain, hp, rising, hzero]

theorem spared_branches (h : Spared due cpu) (switches : BitVec 10) {es : List Event}
    (hes : (stepMain cpu switches).pc = .branches es) : .key0 ∉ es := by
  cases hp : cpu.pc with
  | printRising r sw =>
      have hhandler := h.handler
      rw [hp] at hhandler
      simp only [stepMain, hp, Pc.branches.injEq] at hes
      rw [← hes]
      exact key0_notMem_keyEvents hhandler sw
  | branches fs =>
      cases fs with
      | nil => simp [stepMain, hp] at hes
      | cons e fs =>
          simp only [stepMain, hp, Pc.branches.injEq] at hes
          rw [← hes]
          intro hmem
          apply h.branches (e :: fs) hp
          exact List.mem_cons_of_mem e hmem
  | testTick | testKeys =>
      simp only [stepMain, hp] at hes
      split_ifs at hes
  | clearTick | updateAllTime1s | updateDisplay | clearKeys | readRising | clearRising r | readSwitches r =>
      simp [stepMain, hp] at hes

include hdue in
/-- When the bit is in the flags, the reset comes at the edge at which `main` could read them. -/
theorem Spared.main (hout : ¬ due' 0) (h : Spared due cpu) (switches : BitVec 10) :
    Spared due' (stepMain cpu switches) := by
  have hwait := h.mono fun n => hdue n n (Nat.le_succ n)
  have hflags : cpu.keysRisingFlags.toBitVec.getLsbD 0 = false := by
    apply Bool.eq_false_of_not_eq_true
    exact fun hbit => hout (hdue 1 0 le_rfl (h.flags hbit))
  constructor
  · rw [stepMain_keysIsr]
    exact hwait.fetched
  · rw [stepMain_keysIsr]
    exact hwait.cleared
  · rw [stepMain_keysRisingFlags]
    split_ifs
    · exact fun hbit => absurd hbit (by decide)
    · exact hwait.flags
  · exact spared_rising h hflags switches
  · intro es hes
    exact spared_branches h switches hes

end Edge

structure Deaf (b : KeyBoard) : Prop where
  wiring : KeyWiring.Overtaken b.wiring
  cpu : Spared b.wiring.rstController.Due b.cpu

theorem deaf_step {b : KeyBoard} (h : Deaf b) (c : Cycle) : Deaf (step b c) := by
  cases c with
  | pins key =>
      refine ⟨h.wiring.pins key, ?_⟩
      simp only [step]
      split_ifs
      · exact h.cpu.mono fun n hn => hn.settle _
      · exact spared_init _
  | edge p =>
      refine ⟨h.wiring.edge _, ?_⟩
      simp only [step]
      split_ifs with hreset
      · obtain ⟨hbefore, hafter⟩ := Bool.and_eq_true_iff.mp hreset
        have hdue (m n : ℕ) (hmn : m ≤ n + 1) (hm : b.wiring.rstController.Due m) :
            (b.wiring.edge true (pioAccess b.cpu p)).rstController.Due n :=
          ((hm.mono hmn).clock (by simpa [KeyWiring.resetN] using hbefore) _).settle _
        have hout : ¬ (b.wiring.edge true (pioAccess b.cpu p)).rstController.Due 0 := by
          intro hnow
          rw [KeyWiring.resetN, hnow.resetOut] at hafter
          exact Bool.false_ne_true hafter
        have hfetch : Spared b.wiring.rstController.Due b.fetch :=
          ⟨h.cpu.fetched, h.cpu.cleared, h.cpu.flags, h.cpu.handler, h.cpu.branches⟩
        have hwait := hfetch.mono fun n => hdue n n (Nat.le_succ n)
        rcases p with _ | _ | _ | switches
        · exact ⟨hwait.fetched, hwait.cleared, hwait.flags, hwait.handler, hwait.branches⟩
        · exact hfetch.keysIsr hdue h.wiring.captured
        · exact ⟨hwait.fetched, hwait.cleared, hwait.flags, hwait.handler, hwait.branches⟩
        · exact hfetch.main hdue hout switches
      · exact spared_init _

theorem deaf_powerUp : Deaf powerUp := by
  refine ⟨⟨?_, ?_, ?_⟩, spared_init _⟩
  · exact fun _ => ⟨0, by decide, rfl⟩
  · exact fun _ hd₂ => absurd hd₂ (by decide)
  · exact fun hcapture => absurd hcapture (by decide)

/-- The branch of KEY0 runs on no waveform of the keys, short as its pulses may be: the reset that KEY(0) asks
for takes the bit away before `main` has seen it. -/
theorem key0_branch_dead (cs : List Cycle) : ∀ x ∈ trace step powerUp cs, Event.key0 ∉ ran x.1 x.2 := by
  intro x hx
  have h : Deaf x.1 := trace_invariant (I := Deaf) (fun _ c hb => deaf_step hb c) deaf_powerUp cs x hx
  rcases x with ⟨b, _ | _ | _ | _ | switches⟩
  · exact List.not_mem_nil
  · exact List.not_mem_nil
  · exact List.not_mem_nil
  · exact List.not_mem_nil
  · cases hp : b.cpu.pc with
    | branches es =>
        simp only [ran, Processor.action, executed, hp]
        intro hmem
        exact h.cpu.branches es hp (List.mem_of_mem_take hmem)
    | testTick | clearTick | updateAllTime1s | updateDisplay | testKeys | clearKeys | readRising
    | clearRising r | readSwitches r | printRising r sw => simp [ran, Processor.action, executed, hp]

def pressKey0 : List Cycle :=
  .pins 0xF :: List.replicate 10 (.edge none) ++ .pins 0xE :: List.replicate 2 (.edge none) ++
    List.replicate 4 (.edge (some .keysIsr)) ++ List.replicate 7 (.edge (some (.main 0)))

theorem key0_branch_dead_when_pressed : Event.key0 ∉ ran (run step powerUp pressKey0) (.edge (some (.main 0))) :=
  key0_branch_dead (pressKey0 ++ [.edge (some (.main 0))]) (run step powerUp pressKey0, .edge (some (.main 0)))
    (trace_snoc step powerUp pressKey0 _ ▸ List.mem_append_right _ List.mem_cons_self)

-- `keys_isr` has it, one edge before the reset
example : (run step powerUp (pressKey0.take 17)).cpu.keysRisingFlags = 1 ∧
    (run step powerUp (pressKey0.take 18)).cpu = init := by decide +kernel

def pressKey1 : List Cycle :=
  .pins 0xF :: List.replicate 10 (.edge none) ++ .pins 0xD :: List.replicate 2 (.edge none) ++
    List.replicate 4 (.edge (some .keysIsr)) ++ List.replicate 7 (.edge (some (.main 0)))

example : ran (run step powerUp pressKey1) (.edge (some (.main 0))) = [.key1] := by decide +kernel

end Montre.Joint.KeyPort
