import Montre.Compiled.Layout
import Montre.Interrupts.Machine

namespace Montre.Compiled

open Montre.Library Nios2 Cpu Montre.Hardware

open Montre.Firmware hiding exec

variable {s : Cpu Io} {x : Word}

theorem write_status (d : Io) (v : Word) : d.write 0x1003000#25 15#4 v =
    { d with timeout := false, stores := d.stores ++ [⟨0x1003000, 0xF, v⟩] } := by
  have htarget : target 0x1003000#25 = none := by decide
  have hstatus : AddrRouter.route 0x1003000#25 = .timer0 ∧ (0x1003000#25).extractLsb' 2 3 = 0 := by decide
  rw [Io.write, htarget, if_pos hstatus]
  rfl

theorem write_edgeCap (d : Io) (v : Word) : d.write 0x100306C#25 15#4 v =
    { d with edgeCap := 0, stores := d.stores ++ [⟨0x100306C, 0xF, v⟩] } := by
  have htarget : target 0x100306C#25 = some .keysEdgeCap := target_iowrAddress .keysEdgeCap
  have hstatus : ¬ (AddrRouter.route 0x100306C#25 = .timer0 ∧ (0x100306C#25).extractLsb' 2 3 = 0) := by decide
  rw [Io.write, htarget, if_neg hstatus, if_pos rfl]
  rfl

theorem read_edgeCap (d : Io) : d.read 0x100306C#25 = d.edgeCap.setWidth 32 := by
  have hroute : AddrRouter.route 0x100306C#25 = .keys := by decide
  rw [Io.read, hroute]
  rfl

theorem setWidth_and_15 (b : BitVec 4) : b.setWidth 8 &&& 15#8 = b.setWidth 8 := by
  revert b
  decide

def serveTimer (w : World Io) : World Io :=
  { w with
    mem := Function.update w.mem 0x80F35C 1
    dev := { w.dev with timeout := false, stores := w.dev.stores ++ [⟨0x1003000, 0xF, 0⟩] } }

def serveKeys (w : World Io) : World Io :=
  { w with
    mem := Function.update (Function.update w.mem 0x80F35D (w.dev.edgeCap.setWidth 8)) 0x80F35E 1
    dev := { w.dev with edgeCap := 0, stores := w.dev.stores ++ [⟨0x100306C, 0xF, 0xF⟩] } }

theorem timer_isr_spec (hpc : s.pc = 0x80070c) (hgp : s.get .gp = 0x8158C0#32) :
    Leads (step code io) (fun t => t.pc = toPc (s.get .ra) ∧ s.Keeps [.r2] t ∧ t.world = serveTimer s.world) s := by
  have hstatus (u : World Io) (v : Word) := storeW_device (w := u) (v := v) (x := 0x1003000#32) (by decide)
  apply Leads.block [.alui .or .r2 .zero 0x1000000, .alui .add .r2 .r2 12288, .stw .zero .r2 0, .alui .add .r2 .zero 1,
    .stb .r2 .gp (-25956), .jmp .ra] hpc (by rfl)
  apply Leads.done
  refine ⟨by simp [exec], keeps_block (by decide) s _, ?_⟩
  simp [exec, Alu.eval, hgp, hstatus, write_status, serveTimer]

theorem keys_isr_spec (hpc : s.pc = 0x8006e4) (hgp : s.get .gp = 0x8158C0#32) :
    Leads (step code io) (fun t => t.pc = toPc (s.get .ra) ∧ s.Keeps [.r2, .r3, .r4] t ∧
      t.world = serveKeys s.world) s := by
  have hread (u : World Io) := loadW_device (w := u) (x := 0x100306C#32) (by decide)
  have hclear (u : World Io) (v : Word) := storeW_device (w := u) (v := v) (x := 0x100306C#32) (by decide)
  apply Leads.block [.alui .or .r4 .zero 0x1000000, .alui .add .r4 .r4 12396, .ldw .r2 .r4 0, .alui .add .r3 .zero 15,
    .stw .r3 .r4 0, .alu .and .r2 .r2 .r3, .stb .r2 .gp (-25955), .alui .add .r2 .zero 1, .stb .r2 .gp (-25954),
    .jmp .ra] hpc (by rfl)
  apply Leads.done
  refine ⟨by simp [exec], keeps_block (by decide) s _, ?_⟩
  simp [exec, Alu.eval, hgp, hread, hclear, write_edgeCap, read_edgeCap, setWidth_and_15, serveKeys]

section Dispatch

variable {active : Word} {i : ℕ}

theorem scan_loop {n j : ℕ} {mask : Word} (hpc : s.pc = 0x800144) (hmask : s.get .r3 = mask)
    (hi : s.get .r4 = BitVec.ofNat 32 i) (hone : s.get .r5 = 1#32) (hactive : s.get .r6 = active)
    (hfind : Hal.findActive active n (mask <<< 1) (i + 1) = some j) :
    Leads (step code io) (fun t => t.pc = 0x800114 ∧ t.get .r4 = BitVec.ofNat 32 j ∧ s.Keeps [.r2, .r3, .r4] t ∧
      t.world = s.world) s := by
  induction n generalizing s mask i with
  | zero => simp [Hal.findActive] at hfind
  | succ n ih =>
      have hdouble : mask + mask = mask <<< 1 := by
        rw [BitVec.shiftLeft_eq_mul_twoPow, ← BitVec.mul_two]
        rfl
      apply Leads.block [.alu .add .r3 .r3 .r3, .alu .add .r4 .r4 .r5, .alu .and .r2 .r6 .r3,
        .branch .ne .r2 .zero (-64)] hpc (by rfl)
      rw [Hal.findActive] at hfind
      by_cases hbit : active &&& mask <<< 1 = 0
      · rw [if_neg (not_not_intro hbit)] at hfind
        apply Leads.block (p := 0x800154) [.br (-20)]
        · simp [exec, Alu.eval, Compare.eval, hmask, hactive, hdouble, hbit]
        · rfl
        apply (ih _ _ _ _ _ hfind).mono
        · rintro t ⟨hpc, hr4, hkeeps, hworld⟩
          refine ⟨hpc, hr4, ?_, by simpa [exec] using hworld⟩
          exact ((keeps_block (by decide) s _).trans (keeps_block (by decide) _ _)).trans hkeeps
        · simp [exec, link, toPc, wordOf]
        · simp [exec, Alu.eval, hmask, hdouble]
        · simp [exec, Alu.eval, hi, hone, BitVec.ofNat_add]
        · simpa [exec] using hone
        · simpa [exec] using hactive
      · rw [if_pos hbit] at hfind
        obtain rfl := Option.some.inj hfind
        rw [BitVec.ofNat_eq_ofNat] at hbit
        apply Leads.done
        refine ⟨?_, ?_, keeps_block (by decide) s _, by simp [exec]⟩
        · simp [exec, Alu.eval, Compare.eval, hmask, hactive, hdouble, hbit, link, toPc, wordOf]
        · simp [exec, Alu.eval, hi, hone, BitVec.ofNat_add]

/-- The first turn of this loop is made apart. -/
theorem scan_spec {j : Fin 32} (hpc : s.pc = 0x800104) (hactive : s.get .r6 = active)
    (hfirst : Hal.firstActive active = some j) :
    Leads (step code io) (fun t => t.pc = 0x800114 ∧ t.get .r4 = BitVec.ofNat 32 j ∧
      s.Keeps [.r2, .r3, .r4, .r5] t ∧ t.world = s.world) s := by
  obtain ⟨k, hfind, hk⟩ := Option.bind_eq_some_iff.mp hfirst
  split_ifs at hk with hlt
  obtain rfl := Option.some.inj hk
  rw [Hal.findActive] at hfind
  apply Leads.block [.alui .and .r2 .r6 1, .alu .cmpeq .r2 .r2 .zero, .branch .ne .r2 .zero 40] hpc (by rfl)
  by_cases hbit : active &&& 1 = 0
  · rw [if_neg (not_not_intro hbit)] at hfind
    apply Leads.block (p := 0x800138) [.alui .add .r3 .zero 1, .alu .add .r4 .zero .zero, .alu .add .r5 .r3 .zero]
    · simp only [BitVec.ofNat_eq_ofNat] at hbit
      simp [exec, Alu.eval, Compare.eval, hactive, hbit, link, toPc, wordOf]
    · rfl
    apply (scan_loop _ _ _ _ _ hfind).mono
    · rintro t ⟨hpc, hr4, hkeeps, hworld⟩
      refine ⟨hpc, hr4, ?_, by simpa [exec] using hworld⟩
      exact ((keeps_block (by decide) s _).trans (keeps_block (by decide) _ _)).trans (hkeeps.mono (by decide))
    · simp [exec]
    · simp [exec, Alu.eval]
    · simp [exec, Alu.eval]
    · simp [exec, Alu.eval]
    · simpa [exec] using hactive
  · rw [if_pos hbit] at hfind
    obtain rfl := Option.some.inj hfind
    simp only [BitVec.ofNat_eq_ofNat] at hbit
    apply Leads.block (p := 0x800110) [.alu .add .r4 .zero .zero]
    · simp [exec, Alu.eval, Compare.eval, hactive, hbit]
    · rfl
    apply Leads.done
    refine ⟨by simp [exec], by simp [exec, Alu.eval], ?_, by simp [exec]⟩
    exact (keeps_block (by decide) s _).trans (keeps_block (by decide) _ _)

def entry : Hal.Isr → Word
  | .altAvalonTimerScIrq => 0x80B1B8
  | .alteraAvalonJtagUartIrq => 0x80ACDC
  | .timerIsr => 0x80070C
  | .keysIsr => 0x8006E4

/-- The handlers of the table `alt_irq` are those that the start-up has registered. -/
def Installed (m : BitVec 25 → BitVec 8) : Prop :=
  ∀ sp i isr, ((Hal.registry sp).altIrq i).handler = some isr →
    loadWord m (BitVec.ofNat 23 (0x203CF4 + 2 * i)) = entry isr

theorem call_handler {j : Fin 32} {isr : Hal.Isr} {sp : Word} (hpc : s.pc = 0x800114)
    (hj : s.get .r4 = BitVec.ofNat 32 j) (htable : s.get .r16 = 0x80F3D0#32) (hinstalled : Installed s.world.mem)
    (hisr : ((Hal.registry sp).altIrq j).handler = some isr) :
    Leads (step code io) (fun t => t.pc = toPc (entry isr) ∧ t.get .ra = 0x800128 ∧
      s.Keeps [.ra, .r2, .r3, .r4] t ∧ t.world = s.world) s := by
  have hlt := j.isLt
  have haddress : s.get .r4 <<< 3 + s.get .r16 = BitVec.ofNat 32 (0x80F3D0 + 8 * j) := by
    rw [hj, htable, BitVec.shiftLeft_eq_mul_twoPow, Nat.add_comm, Nat.mul_comm, BitVec.ofNat_add, BitVec.ofNat_mul]
    rfl
  have hbyte : (byteOf (BitVec.ofNat 32 (0x80F3D0 + 8 * j))).toNat < 0x1000000 := by
    rw [byteOf_ofNat, BitVec.toNat_ofNat]
    omega
  have hword : wordOf (BitVec.ofNat 32 (0x80F3D0 + 8 * j)) = BitVec.ofNat 23 (0x203CF4 + 2 * j) := by
    rw [wordOf_ofNat]
    congr 1
    omega
  have hentry := hinstalled sp j isr hisr
  apply Leads.block [.alui .sll .r2 .r4 3, .alu .add .r2 .r2 .r16, .ldw .r3 .r2 0, .ldw .r4 .r2 4, .callr .ra .r3] hpc
    (by rfl)
  apply Leads.done
  refine ⟨?_, ?_, keeps_block (by decide) s _, by simp [exec]⟩
  · simp [exec, Alu.eval, haddress, loadW_ram hbyte, hword, hentry]
  · simp [exec, link]

end Dispatch

def serve (w : World Io) : World Io := if w.dev.timeout then serveTimer w else serveKeys w

/-- The lines of the timer and of the keys, with that of the JTAG UART low. -/
def pending (d : Io) : Word := Hal.irqMapper false d.timeout (d.edgeCap != 0)

theorem firstActive_pending (d : Io) (h : pending d ≠ 0) :
    Hal.firstActive (pending d) = some (if d.timeout then Hal.timer0Irq else Hal.keysIrq) := by
  unfold pending at h ⊢
  revert h
  cases d.timeout <;> cases d.edgeCap != 0 <;> decide

theorem dispatch_spec {active sp : Word} {j : Fin 32} {isr : Hal.Isr} {f : World Io → World Io} (hpc : s.pc = 0x800104)
    (hgp : s.get .gp = 0x8158C0#32) (htable : s.get .r16 = 0x80F3D0#32) (hinstalled : Installed s.world.mem)
    (hactive : s.get .r6 = active) (hfirst : Hal.firstActive active = some j)
    (hisr : ((Hal.registry sp).altIrq j).handler = some isr)
    (hroutine : ∀ u : Cpu Io, u.pc = toPc (entry isr) → u.get .gp = 0x8158C0#32 →
      Leads (step code io) (fun t => t.pc = toPc (u.get .ra) ∧ u.Keeps [.r2, .r3, .r4] t ∧ t.world = f u.world) u) :
    Leads (step code io) (fun t => t.pc = 0x800128 ∧ s.Keeps [.ra, .r2, .r3, .r4, .r5] t ∧ t.world = f s.world) s := by
  apply (scan_spec hpc hactive hfirst).trans
  rintro t ⟨hpc, hr4, hkeeps, hworld⟩
  have htable' : t.get .r16 = 0x80F3D0#32 := (hkeeps .r16 (by decide)).trans htable
  have hgp' : t.get .gp = 0x8158C0#32 := (hkeeps .gp (by decide)).trans hgp
  apply (call_handler hpc hr4 htable' (by rw [hworld]; exact hinstalled) hisr).trans
  rintro u ⟨hpc, hra, hkeeps', hworld'⟩
  apply (hroutine u hpc ((hkeeps' .gp (by decide)).trans hgp')).mono
  rintro v ⟨hpc, hkeeps'', hworld''⟩
  refine ⟨by rw [hpc, hra]; rfl, ?_, by rw [hworld'', hworld', hworld]⟩
  exact (hkeeps.mono (by decide)).trans ((hkeeps'.mono (by decide)).trans (hkeeps''.mono (by decide)))

theorem pass_spec (hpc : s.pc = 0x800104) (hgp : s.get .gp = 0x8158C0#32) (htable : s.get .r16 = 0x80F3D0#32)
    (hinstalled : Installed s.world.mem) (hactive : s.get .r6 = pending s.world.dev)
    (hpending : pending s.world.dev ≠ 0) :
    Leads (step code io) (fun t => t.pc = 0x800128 ∧ s.Keeps [.ra, .r2, .r3, .r4, .r5] t ∧
      t.world = serve s.world) s := by
  have hfirst := firstActive_pending s.world.dev hpending
  rw [serve]
  cases htimeout : s.world.dev.timeout with
  | false =>
      have hisr : ((Hal.registry 0).altIrq Hal.keysIrq).handler = some .keysIsr := by
        rw [Hal.altIrq_registry]
        rfl
      rw [htimeout] at hfirst
      exact dispatch_spec hpc hgp htable hinstalled hactive hfirst hisr fun _ => keys_isr_spec
  | true =>
      have hisr : ((Hal.registry 0).altIrq Hal.timer0Irq).handler = some .timerIsr := by
        rw [Hal.altIrq_registry]
        rfl
      rw [htimeout] at hfirst
      apply dispatch_spec (f := serveTimer) hpc hgp htable hinstalled hactive hfirst hisr
      intro u hpc hgp
      apply (timer_isr_spec hpc hgp).mono
      exact fun t ht => ⟨ht.1, ht.2.1.mono (by decide), ht.2.2⟩

theorem ctl_pending {w : World Io} (hienable : w.ienable = 7) (hquiet : w.dev.jtagUart = false) :
    w.ctl io 4#3 = pending w.dev := by
  change Hal.irqMapper w.dev.jtagUart w.dev.timeout (w.dev.edgeCap != 0) &&& w.ienable = pending w.dev
  rw [hienable, hquiet, pending]
  cases w.dev.timeout <;> cases w.dev.edgeCap != 0 <;> decide

theorem test_pending (hpc : s.pc = 0x800128) (hienable : s.world.ienable = 7) (hquiet : s.world.dev.jtagUart = false) :
    Leads (step code io) (fun t =>
      (pending s.world.dev = 0 ∧ t.pc = 0x800158 ∨
        pending s.world.dev ≠ 0 ∧ t.pc = 0x800104 ∧ t.get .r6 = pending s.world.dev) ∧
      s.Keeps [.r2, .r6] t ∧ t.world = s.world) s := by
  have hread := ctl_pending hienable hquiet
  apply Leads.block [.rdctl .r2 4, .branch .eq .r2 .zero 40] hpc (by rfl)
  by_cases hzero : pending s.world.dev = 0
  · apply Leads.done
    refine ⟨.inl ⟨hzero, ?_⟩, keeps_block (by decide) s _, by simp [exec]⟩
    simp [exec, Compare.eval, hread, hzero, link, toPc, wordOf]
  · apply Leads.block (p := 0x800130) [.alu .add .r6 .r2 .zero, .br (-52)]
    · rw [BitVec.ofNat_eq_ofNat] at hzero
      simp [exec, Compare.eval, hread, hzero]
    · rfl
    apply Leads.done
    refine ⟨.inr ⟨hzero, ?_, ?_⟩, ?_, by simp [exec]⟩
    · simp [exec, link, toPc, wordOf]
    · simp [exec, Alu.eval, hread]
    · exact Keeps.trans (keeps_block (by decide) s _) (keeps_block (by decide) _ _)

def noted (d : Io) (m : BitVec 25 → BitVec 8) : BitVec 25 → BitVec 8 :=
  let m := if d.timeout then Function.update m 0x80F35C 1 else m
  if d.edgeCap = 0 then m else Function.update (Function.update m 0x80F35D (d.edgeCap.setWidth 8)) 0x80F35E 1

def withdrawals (d : Io) : List Store :=
  (if d.timeout then [⟨0x1003000, 0xF, 0⟩] else []) ++ if d.edgeCap = 0 then [] else [⟨0x100306C, 0xF, 0xF⟩]

def served (w : World Io) : World Io :=
  { w with
    mem := noted w.dev w.mem
    dev := { w.dev with timeout := false, edgeCap := 0, stores := w.dev.stores ++ withdrawals w.dev } }

theorem pending_eq_zero_iff (d : Io) : pending d = 0 ↔ d.timeout = false ∧ d.edgeCap = 0 := by
  have hlines : ∀ timeout keys, Hal.irqMapper false timeout keys = 0 ↔ timeout = false ∧ keys = false := by decide
  rw [pending, hlines, bne_eq_false_iff_eq]

/-- One pass serves a single interrupt, and two serve both. -/
theorem served_of_last {w : World Io} (h : pending w.dev ≠ 0) (hlast : pending (serve w).dev = 0) :
    serve w = served w := by
  obtain ⟨mem, ⟨registers, edgeCap, switches, timeout, jtagUart, stores⟩, pie, estatus, ienable⟩ := w
  rw [ne_eq, pending_eq_zero_iff] at h
  rw [pending_eq_zero_iff] at hlast
  cases timeout with
  | false =>
      have hedge : edgeCap ≠ 0#4 := fun hzero => h ⟨rfl, hzero⟩
      simp [serve, serveKeys, served, noted, withdrawals, hedge]
  | true =>
      have hedge : edgeCap = 0#4 := hlast.2
      simp [serve, serveTimer, served, noted, withdrawals, hedge]

theorem served_of_both {w : World Io} (hmore : pending (serve w).dev ≠ 0) :
    serve (serve w) = served w ∧ pending (served w).dev = 0 := by
  obtain ⟨mem, ⟨registers, edgeCap, switches, timeout, jtagUart, stores⟩, pie, estatus, ienable⟩ := w
  refine ⟨?_, (pending_eq_zero_iff _).mpr ⟨rfl, rfl⟩⟩
  cases timeout with
  | false => exact absurd ((pending_eq_zero_iff _).mpr ⟨rfl, rfl⟩) hmore
  | true =>
      have hedge : edgeCap ≠ 0#4 := fun hzero => hmore ((pending_eq_zero_iff _).mpr ⟨rfl, hzero⟩)
      simp [serve, serveTimer, serveKeys, served, noted, withdrawals, hedge]

structure Handling (s : Cpu Io) (x : Word) (t : Cpu Io) : Prop where
  sp : t.get .sp = x
  table : t.get .r16 = 0x80F3D0#32
  ra : loadWord t.world.mem (wordOf x + 1#23) = s.get .ra
  r16 : loadWord t.world.mem (wordOf x) = s.get .r16
  keeps : s.Keeps [.ra, .sp, .r2, .r3, .r4, .r5, .r6, .r16] t

theorem handler_enter (hpc : s.pc = 0x8000ec) (hx : Frame 2 x) (hsp : s.get .sp = x + 8#32)
    (hienable : s.world.ienable = 7) (hquiet : s.world.dev.jtagUart = false) :
    Leads (step code io) (fun t => t.pc = 0x800104 ∧ t.get .r6 = pending s.world.dev ∧ Handling s x t ∧
      t.world = { s.world with mem := t.world.mem } ∧ Set.EqOn t.world.mem s.world.mem (stack 2 x)ᶜ) s := by
  have hframe : s.get .sp + 4294967288#32 = x := by
    rw [hsp, BitVec.add_assoc]
    exact BitVec.add_zero x
  have hread (m : BitVec 25 → BitVec 8) : ({ s.world with mem := m } : World Io).ctl io 4#3 = pending s.world.dev :=
    ctl_pending hienable hquiet
  apply Leads.block [.alui .add .sp .sp (-8), .stw .ra .sp 4, .stw .r16 .sp 0, .rdctl .r6 4,
    .alui .or .r16 .zero 0x810000, .alui .add .r16 .r16 (-3120)] hpc (by rfl)
  apply Leads.done
  refine ⟨by simp [exec], ?_, ⟨?_, ?_, ?_, ?_, ?_⟩, ?_, ?_⟩
  · simp [exec, Alu.eval, hframe, hx.storeW, hx.storeW_base, hread]
  · simp [exec, Alu.eval, hframe]
  · simp [exec, Alu.eval]
  · simp [exec, Alu.eval, hframe, hx.storeW, hx.storeW_base]
  · simp [exec, Alu.eval, hframe, hx.storeW, hx.storeW_base]
  · exact keeps_block (by decide) s _
  · simp [exec, Alu.eval, hframe, hx.storeW, hx.storeW_base]
  · have hspares := (hx.eqOn_word (c := 0) (by decide) (storeWord s.world.mem (wordOf x + 1#23) (s.get .ra))
      (s.get .r16)).trans (hx.eqOn_word (c := 4) (by decide) s.world.mem (s.get .ra))
    simpa [exec, Alu.eval, hframe, hx.storeW, hx.storeW_base] using hspares

theorem handler_leave {t : Cpu Io} (hpc : t.pc = 0x800158) (hx : Frame 2 x) (hsp : s.get .sp = x + 8#32)
    (h : Handling s x t) :
    Leads (step code io) (fun u => u.pc = toPc (s.get .ra) ∧ s.Keeps [.r2, .r3, .r4, .r5, .r6] u ∧
      u.world = t.world) t := by
  apply Leads.block [.ldw .ra .sp 4, .ldw .r16 .sp 0, .alui .add .sp .sp 8, .jmp .ra] hpc (by rfl)
  apply Leads.done
  refine ⟨?_, ?_, ?_⟩
  · simp [exec, h.sp, hx.loadW, h.ra]
  · apply Keeps.restore [.ra, .sp, .r16]
    · exact (h.keeps.trans (keeps_block (by decide) t _)).mono (by decide)
    · simp [exec, Alu.eval, h.sp, hx.loadW, hx.loadW_base, h.ra, h.r16, hsp]
  · simp [exec]

def flags : Set (BitVec 25) := {a | 0x80F35C ≤ a ∧ a ≤ 0x80F35E}

theorem eqOn_serveTimer (w : World Io) : Set.EqOn (serveTimer w).mem w.mem flagsᶜ := by
  have htick : (0x80F35C : BitVec 25) ∈ flags := ⟨by decide, by decide⟩
  exact eqOn_update htick _

theorem eqOn_serveKeys (w : World Io) : Set.EqOn (serveKeys w).mem w.mem flagsᶜ := by
  have hrising : (0x80F35D : BitVec 25) ∈ flags := ⟨by decide, by decide⟩
  have hinterrupt : (0x80F35E : BitVec 25) ∈ flags := ⟨by decide, by decide⟩
  exact (eqOn_update hinterrupt _).trans (eqOn_update hrising _)

theorem eqOn_serve (w : World Io) : Set.EqOn (serve w).mem w.mem flagsᶜ := by
  rw [serve]
  split_ifs with htimeout
  · exact eqOn_serveTimer w
  · exact eqOn_serveKeys w

theorem eqOn_served (w : World Io) : Set.EqOn (served w).mem w.mem flagsᶜ := by
  simp only [served, noted]
  split_ifs with hedge htimeout htimeout
  · exact eqOn_serveTimer w
  · exact Set.eqOn_refl _ _
  · exact (eqOn_serveKeys (serveTimer w)).trans (eqOn_serveTimer w)
  · exact eqOn_serveKeys w

theorem Frame.notMem_flags {n : ℕ} {k : BitVec 23} (hx : Frame n x) (hk : k.toNat < n) {a : BitVec 25}
    (ha : a.extractLsb' 2 23 = wordOf x + k) : a ∉ flags := by
  have hlimit := hx.limit
  have hge := (hx.word_range hk ha).1
  rintro ⟨-, hle⟩
  rw [BitVec.le_def] at hle
  change a.toNat ≤ 8450910 at hle
  omega

theorem Installed.congr {m m' : BitVec 25 → BitVec 8} {A : Set (BitVec 25)} (h : Installed m)
    (hm : Set.EqOn m' m Aᶜ) (hA : ∀ a ∈ A, a.toNat < 0x80F3D0 ∨ 0x80F4D0 ≤ a.toNat) : Installed m' := by
  intro sp i isr hisr
  rw [← h sp i isr hisr]
  apply loadWord_congr
  intro a ha
  apply hm
  intro hmem
  have hrange := hA a hmem
  have hi := i.isLt
  have hlt := a.isLt
  have hword := congrArg BitVec.toNat ha
  rw [BitVec.extractLsb'_toNat, Nat.shiftRight_eq_div_pow, BitVec.toNat_ofNat] at hword
  omega

theorem Handling.congr {t u : Cpu Io} (h : Handling s x t) (hx : Frame 2 x)
    (hkeeps : t.Keeps [.ra, .r2, .r3, .r4, .r5, .r6] u) (hmem : Set.EqOn u.world.mem t.world.mem flagsᶜ) :
    Handling s x u where
  sp := (hkeeps .sp (by decide)).trans h.sp
  table := (hkeeps .r16 (by decide)).trans h.table
  ra := (loadWord_congr fun a ha => hmem (hx.notMem_flags (k := 1) (by decide) ha)).trans h.ra
  r16 := by
    have hword (a : BitVec 25) (ha : a.extractLsb' 2 23 = wordOf x) : a ∉ flags :=
      hx.notMem_flags (k := 0) (by decide) (by simpa using ha)
    exact (loadWord_congr fun a ha => hmem (hword a ha)).trans h.r16
  keeps := h.keeps.trans (hkeeps.mono (by decide))

theorem eqOn_noted {m m' : BitVec 25 → BitVec 8} {A : Set (BitVec 25)} (d : Io) (h : Set.EqOn m' m A) :
    Set.EqOn (noted d m') (noted d m) A := by
  intro a ha
  simp only [noted]
  split_ifs <;> simp only [Function.update_apply, h ha]

theorem flags_range {a : BitVec 25} (ha : a ∈ flags) : a.toNat < 0x80F3D0 ∨ 0x80F4D0 ≤ a.toNat := by
  have hle := ha.2
  rw [BitVec.le_def] at hle
  change a.toNat ≤ 8450910 at hle
  omega

theorem serve_ienable (w : World Io) : (serve w).ienable = w.ienable := by
  rw [serve]
  split_ifs <;> rfl

theorem serve_jtagUart (w : World Io) : (serve w).dev.jtagUart = w.dev.jtagUart := by
  rw [serve]
  split_ifs <;> rfl

structure Serving (s : Cpu Io) (x : Word) (t : Cpu Io) : Prop where
  handling : Handling s x t
  installed : Installed t.world.mem
  ienable : t.world.ienable = 7
  quiet : t.world.dev.jtagUart = false

theorem turn_spec {t : Cpu Io} (h : Serving s x t) (hx : Frame 2 x) (hgp : s.get .gp = 0x8158C0#32)
    (hpc : t.pc = 0x800104) (hr6 : t.get .r6 = pending t.world.dev) (hpending : pending t.world.dev ≠ 0) :
    Leads (step code io) (fun u => Serving s x u ∧ u.world = serve t.world ∧
      (pending u.world.dev = 0 ∧ u.pc = 0x800158 ∨
        pending u.world.dev ≠ 0 ∧ u.pc = 0x800104 ∧ u.get .r6 = pending u.world.dev)) t := by
  have hgp' : t.get .gp = 0x8158C0#32 := (h.handling.keeps .gp (by decide)).trans hgp
  apply (pass_spec hpc hgp' h.handling.table h.installed hr6 hpending).trans
  rintro u ⟨hpc, hkeeps, hworld⟩
  have hienable : u.world.ienable = 7 := by
    rw [hworld, serve_ienable]
    exact h.ienable
  have hquiet : u.world.dev.jtagUart = false := by
    rw [hworld, serve_jtagUart]
    exact h.quiet
  apply (test_pending hpc hienable hquiet).mono
  rintro v ⟨hnext, hkeeps', hworld'⟩
  have hmem : Set.EqOn v.world.mem t.world.mem flagsᶜ := by
    rw [hworld', hworld]
    exact eqOn_serve t.world
  refine ⟨⟨?_, h.installed.congr hmem fun a => flags_range, ?_, ?_⟩, hworld'.trans hworld, ?_⟩
  · exact h.handling.congr hx ((hkeeps.mono (by decide)).trans (hkeeps'.mono (by decide))) hmem
  · rw [hworld', hienable]
  · rw [hworld', hquiet]
  · rw [hworld']
    exact hnext

/-- The compiled handler serves what is pending, the timer before the keys, and then comes back. -/
theorem alt_irq_handler_spec (hpc : s.pc = 0x8000ec) (hgp : s.get .gp = 0x8158C0#32) (hx : Frame 2 x)
    (hsp : s.get .sp = x + 8#32) (hinstalled : Installed s.world.mem) (hienable : s.world.ienable = 7)
    (hquiet : s.world.dev.jtagUart = false) (hpending : pending s.world.dev ≠ 0) :
    Leads (step code io) (fun t => t.pc = toPc (s.get .ra) ∧ s.Keeps [.r2, .r3, .r4, .r5, .r6] t ∧
      t.world = { served s.world with mem := t.world.mem } ∧
      Set.EqOn t.world.mem (served s.world).mem (stack 2 x)ᶜ) s := by
  apply (handler_enter hpc hx hsp hienable hquiet).trans
  rintro t ⟨hpc, hr6, hhandling, hworld, hspares⟩
  have hdev : t.world.dev = s.world.dev := by rw [hworld]
  have hinstalled' : Installed t.world.mem := hinstalled.congr hspares fun a ha => .inr (hx.limit.trans ha.1)
  have hserving : Serving s x t := ⟨hhandling, hinstalled', by rw [hworld, hienable], by rw [hdev, hquiet]⟩
  have hleave {u : Cpu Io} (hpc : u.pc = 0x800158) (h : Serving s x u) (hu : u.world = served t.world) :
      Leads (step code io) (fun t => t.pc = toPc (s.get .ra) ∧ s.Keeps [.r2, .r3, .r4, .r5, .r6] t ∧
        t.world = { served s.world with mem := t.world.mem } ∧
        Set.EqOn t.world.mem (served s.world).mem (stack 2 x)ᶜ) u := by
    apply (handler_leave hpc hx hsp h.handling).mono
    rintro v ⟨hpc, hkeeps, hv⟩
    have hmem : v.world.mem = noted s.world.dev t.world.mem := by rw [hv, hu, served, hdev]
    refine ⟨hpc, hkeeps, ?_, ?_⟩
    · rw [hv, hu, hworld]
      rfl
    · rw [hmem]
      exact eqOn_noted s.world.dev hspares
  apply (turn_spec hserving hx hgp hpc (by rw [hr6, hdev]) (by rwa [hdev])).trans
  rintro u ⟨h, hu, ⟨hzero, hpc⟩ | ⟨hmore, hpc, hr6⟩⟩
  · rw [hu] at hzero
    exact hleave hpc h (hu.trans (served_of_last (by rwa [hdev]) hzero))
  apply (turn_spec h hx hgp hpc hr6 hmore).trans
  rintro v ⟨h, hv, hnext⟩
  rw [hu] at hmore hv
  obtain ⟨hboth, hzero⟩ := served_of_both hmore
  rw [hboth] at hv
  rcases hnext with ⟨-, hpc⟩ | ⟨hne, -⟩
  · exact hleave hpc h hv
  · rw [hv] at hne
    exact absurd hzero hne

/-- What `alt_exception` saves, in the words of its frame above the two of the handler. -/
def altExceptionFrame (s : Cpu Io) : List (BitVec 23 × Word) :=
  [(2#23, s.get .ra), (4#23, s.get .at), (5#23, s.get .r2), (6#23, s.get .r3), (7#23, s.get .r4), (8#23, s.get .r5),
    (9#23, s.get .r6), (10#23, s.get .r7), (11#23, s.get .r8), (12#23, s.get .r9), (13#23, s.get .r10),
    (14#23, s.get .r11), (15#23, s.get .r12), (16#23, s.get .r13), (17#23, s.get .r14), (18#23, s.get .r15),
    (19#23, 1#32), (20#23, s.get .ea + 4294967292#32)]

theorem exception_enter (hpc : s.pc = 0x800020) (hx : Frame 21 x) (hsp : s.get .sp = x + 84#32)
    (hestatus : s.world.estatus = true) :
    Leads (step code io) (fun t => t.pc = 0x800074 ∧ t.get .sp = x + 8#32 ∧ t.get .r5 = 1 ∧ s.Keeps [.sp, .r5, .r15] t ∧
      t.world = { s.world with mem := storeWords s.world.mem (wordOf x) (altExceptionFrame s) }) s := by
  have hframe : s.get .sp + 4294967220#32 = x + 8#32 := by
    rw [hsp, BitVec.add_assoc]
    rfl
  have hread (m : BitVec 25 → BitVec 8) : ({ s.world with mem := m } : World Io).ctl io 1#3 = 1 := by
    change (BitVec.ofBool s.world.estatus).setWidth 32 = 1
    rw [hestatus]
    rfl
  apply Leads.block [.alui .add .sp .sp (-76), .stw .ra .sp 0, .stw .at .sp 8, .stw .r2 .sp 12, .stw .r3 .sp 16,
    .stw .r4 .sp 20, .stw .r5 .sp 24, .stw .r6 .sp 28, .stw .r7 .sp 32, .rdctl .r5 1, .stw .r8 .sp 36, .stw .r9 .sp 40,
    .stw .r10 .sp 44, .stw .r11 .sp 48, .stw .r12 .sp 52, .stw .r13 .sp 56, .stw .r14 .sp 60, .stw .r15 .sp 64,
    .stw .r5 .sp 68, .alui .add .r15 .ea (-4), .stw .r15 .sp 72] hpc (by rfl)
  apply Leads.done
  refine ⟨by simp [exec], ?_, ?_, keeps_block (by decide) s _, ?_⟩
  · simp [exec, Alu.eval, hframe]
  · simp [exec, Alu.eval, hframe, add_ofNat_add, hx.storeW, hread]
  · simp [exec, Alu.eval, hframe, add_ofNat_add, hx.storeW, hread, storeWords, altExceptionFrame]

theorem exception_test (hpc : s.pc = 0x800074) (hr5 : s.get .r5 = 1) (hienable : s.world.ienable = 7)
    (hquiet : s.world.dev.jtagUart = false) (hpending : pending s.world.dev ≠ 0) :
    Leads (step code io) (fun t => t.pc = 0x8000ec ∧ t.get .ra = 0x800088 ∧ s.Keeps [.ra, .r2, .r4] t ∧
      t.world = s.world) s := by
  have hread := ctl_pending hienable hquiet
  rw [BitVec.ofNat_eq_ofNat] at hpending
  apply Leads.block [.rdctl .r4 4, .alui .and .r2 .r5 1, .branch .eq .r2 .zero 12] hpc (by rfl)
  apply Leads.block (p := 0x800080) [.branch .eq .r4 .zero 8]
  · simp [exec, Alu.eval, Compare.eval, hr5]
  · rfl
  apply Leads.block (p := 0x800084) [.call 0x8000ec]
  · simp [exec, Alu.eval, Compare.eval, hread, hpending]
  · rfl
  apply Leads.done
  refine ⟨by simp [exec, toPc], by simp [exec, link], ?_, by simp [exec]⟩
  exact Keeps.trans (keeps_block (by decide) s _) ((keeps_block (by decide) _ _).trans (keeps_block (by decide) _ _))

theorem exception_leave {t : Cpu Io} (hpc : t.pc = 0x800088) (hx : Frame 21 x) (hsp : t.get .sp = x + 8#32)
    (hframe : ∀ e ∈ altExceptionFrame s, loadWord t.world.mem (wordOf x + e.1) = e.2) (hs : s.get .sp = x + 84#32)
    (hkeeps : s.Keeps [.ra, .sp, .r2, .r3, .r4, .r5, .r6, .r15] t) :
    Leads (step code io) (fun u => u.pc = toPc (s.get .ea + 4294967292#32) ∧ s.Keeps [.ea] u ∧
      u.world = { t.world with pie := true, estatus := true }) t := by
  simp only [altExceptionFrame, List.forall_mem_cons] at hframe
  obtain ⟨hra, hat, hr2, hr3, hr4, hr5, hr6, hr7, hr8, hr9, hr10, hr11, hr12, hr13, hr14, hr15, hestatus, hea, -⟩ :=
    hframe
  have hctl : t.world.setCtl 1#3 1#32 = { t.world with estatus := true } := rfl
  apply Leads.block [.br 12] hpc (by rfl)
  apply Leads.block (p := 0x800098) [.ldw .r5 .sp 68, .ldw .ea .sp 72, .ldw .ra .sp 0, .wrctl 1 .r5, .ldw .at .sp 8,
    .ldw .r2 .sp 12, .ldw .r3 .sp 16, .ldw .r4 .sp 20, .ldw .r5 .sp 24, .ldw .r6 .sp 28, .ldw .r7 .sp 32,
    .ldw .r8 .sp 36, .ldw .r9 .sp 40, .ldw .r10 .sp 44, .ldw .r11 .sp 48, .ldw .r12 .sp 52, .ldw .r13 .sp 56,
    .ldw .r14 .sp 60, .ldw .r15 .sp 64, .alui .add .sp .sp 76, .eret .ea]
  · simp [exec, link, toPc, wordOf]
  · rfl
  apply Leads.done
  refine ⟨?_, ?_, ?_⟩
  · simp [exec, hsp, add_ofNat_add, hx.loadW, hea]
  · apply Keeps.restore [.ra, .sp, .at, .r2, .r3, .r4, .r5, .r6, .r7, .r8, .r9, .r10, .r11, .r12, .r13, .r14, .r15]
    · apply Keeps.trans (hkeeps.mono (by decide))
      exact (keeps_block (by decide) t _).trans (keeps_block (by decide) _ _)
    · simp [exec, Alu.eval, hsp, add_ofNat_add, hx.loadW, hestatus, hctl, hra, hat, hr2, hr3, hr4, hr5, hr6, hr7, hr8,
        hr9, hr10, hr11, hr12, hr13, hr14, hr15, hs]
  · simp [exec, hsp, add_ofNat_add, hx.loadW, hestatus, hctl]

/-- The interrupted instruction is the one before the return address. -/
theorem toPc_link (h : s.pc.extractLsb' 0 2 = 0) : toPc (s.link + 4294967292#32) = s.pc := by
  have haligned := congrArg BitVec.toNat h
  rw [BitVec.extractLsb'_toNat, Nat.shiftRight_zero] at haligned
  change s.pc.toNat % 2 ^ 2 = 0 at haligned
  have hlt := s.pc.isLt
  apply BitVec.eq_of_toNat_eq
  rw [toPc, wordOf, link, BitVec.toNat_append, BitVec.extractLsb'_toNat, BitVec.toNat_add, BitVec.toNat_setWidth,
    BitVec.toNat_add, Nat.shiftRight_eq_div_pow, Nat.shiftLeft_eq]
  change ((s.pc.toNat + 4) % 2 ^ 25 % 2 ^ 32 + 4294967292) % 2 ^ 32 / 2 ^ 2 % 2 ^ 23 * 2 ^ 2 ||| 0 = s.pc.toNat
  rw [Nat.or_zero]
  omega

/-- What `main` and the interrupt routines share, in memory and in the model. -/
structure Shares (w : World Io) (st : Interrupts.State) : Prop where
  edgeCap : w.dev.edgeCap = st.edgeCap
  tick1sFlag : w.mem 0x80F35C = (BitVec.ofBool st.tick1sFlag).setWidth 8
  keysRisingFlags : w.mem 0x80F35D = st.keysRisingFlags.toBitVec
  keysInterruptFlag : w.mem 0x80F35E = (BitVec.ofBool st.keysInterruptFlag).setWidth 8

def isrs (d : Io) : List Interrupts.Action :=
  (if d.timeout then [.timerIsr] else []) ++ if d.edgeCap = 0 then [] else List.replicate 4 .keysIsr

theorem run_keysIsr {st : Interrupts.State} (hidle : st.keysIsr = .idle) :
    Runs.run Interrupts.step st (List.replicate 4 .keysIsr) =
      { st with edgeCap := 0, keysRisingFlags := ⟨st.edgeCap.setWidth 8⟩, keysInterruptFlag := true } := by
  obtain ⟨pc, keysIsr, edgeCap, tick1sFlag, keysRisingFlags, keysInterruptFlag, system⟩ := st
  cases hidle
  have hlow : ((⟨edgeCap.setWidth 32⟩ : UInt32) &&& 0xF).toUInt8 = ⟨edgeCap.setWidth 8⟩ := by
    revert edgeCap
    decide
  change Interrupts.State.mk pc .idle 0 tick1sFlag ((⟨edgeCap.setWidth 32⟩ : UInt32) &&& 0xF).toUInt8 true system = _
  rw [hlow]

section Shares

variable {w : World Io} {st : Interrupts.State} (h : Shares w st)
include h

theorem Shares.timer : Shares (serveTimer w) (Interrupts.step st .timerIsr) := by
  constructor
  · exact h.edgeCap
  · simp [serveTimer, Interrupts.step]
  · simpa [serveTimer, Interrupts.step] using h.keysRisingFlags
  · simpa [serveTimer, Interrupts.step] using h.keysInterruptFlag

theorem Shares.keys (hidle : st.keysIsr = .idle) :
    Shares (serveKeys w) (Runs.run Interrupts.step st (List.replicate 4 .keysIsr)) := by
  rw [run_keysIsr hidle]
  constructor
  · rfl
  · simpa [serveKeys] using h.tick1sFlag
  · simp [serveKeys, h.edgeCap]
  · simp [serveKeys]

theorem Shares.after (hidle : st.keysIsr = .idle) : Shares (served w) (Runs.run Interrupts.step st (isrs w.dev)) := by
  obtain ⟨mem, ⟨registers, edgeCap, switches, timeout, jtagUart, stores⟩, pie, estatus, ienable⟩ := w
  rw [isrs, Runs.run_append]
  by_cases hedge : edgeCap = 0#4
  · subst hedge
    cases timeout with
    | false => exact ⟨h.edgeCap, h.tick1sFlag, h.keysRisingFlags, h.keysInterruptFlag⟩
    | true => exact h.timer
  · simp only [BitVec.ofNat_eq_ofNat, if_neg hedge]
    cases timeout with
    | false =>
        have hkeys := h.keys hidle
        simpa [served, noted, withdrawals, hedge, serveKeys] using hkeys
    | true =>
        have hkeys := h.timer.keys hidle
        simpa [served, noted, withdrawals, hedge, serveKeys, serveTimer] using hkeys

end Shares

/-- The handler's two words lie below those of `alt_exception`, and the flags elsewhere. -/
theorem frame_kept {w : World Io} {m : BitVec 25 → BitVec 8} (hx : Frame 21 x)
    (hw : w = { s.world with mem := storeWords s.world.mem (wordOf x) (altExceptionFrame s) })
    (hm : Set.EqOn m (served w).mem (stack 2 x)ᶜ) :
    ∀ e ∈ altExceptionFrame s, loadWord m (wordOf x + e.1) = e.2 := by
  intro e he
  have hrange : 2 ≤ e.1.toNat ∧ e.1.toNat < 21 := by
    revert e
    simp [altExceptionFrame]
  calc
    loadWord m (wordOf x + e.1) = loadWord (served w).mem (wordOf x + e.1) := by
      apply loadWord_congr
      intro a ha
      apply hm
      intro hstack
      have hge := (hx.word_range hrange.2 ha).1
      have hlt := hstack.2
      omega
    _ = loadWord w.mem (wordOf x + e.1) :=
      loadWord_congr fun a ha => eqOn_served w (hx.notMem_flags hrange.2 ha)
    _ = e.2 := by
      rw [hw]
      exact loadWord_storeWords (by simp [altExceptionFrame]) he

theorem alt_exception_spec (hpc : s.pc = 0x800020) (hgp : s.get .gp = 0x8158C0#32) (hx : Frame 21 x)
    (hsp : s.get .sp = x + 84#32) (hinstalled : Installed s.world.mem) (hienable : s.world.ienable = 7)
    (hquiet : s.world.dev.jtagUart = false) (hestatus : s.world.estatus = true) (hpending : pending s.world.dev ≠ 0) :
    Leads (step code io) (fun t => t.pc = toPc (s.get .ea + 4294967292#32) ∧ s.Keeps [.ea] t ∧
      t.world = { served s.world with mem := t.world.mem, pie := true } ∧
      Set.EqOn t.world.mem (served s.world).mem (stack 21 x)ᶜ) s := by
  have hsaved : ∀ e ∈ altExceptionFrame s, e.1.toNat < 21 := by simp [altExceptionFrame]
  have hspares := hx.eqOn_words hsaved s.world.mem
  apply (exception_enter hpc hx hsp hestatus).trans
  rintro t ⟨hpc, hsp', hr5, hkeeps, hworld⟩
  apply (exception_test hpc hr5 (by rw [hworld]; exact hienable) (by rw [hworld]; exact hquiet)
    (by rw [hworld]; exact hpending)).trans
  rintro u ⟨hpc, hra, hkeeps', hworld'⟩
  have hu : u.world = { s.world with mem := storeWords s.world.mem (wordOf x) (altExceptionFrame s) } :=
    hworld'.trans hworld
  have hinstalled' : Installed u.world.mem := by
    rw [hu]
    exact hinstalled.congr hspares fun a ha => .inr (hx.limit.trans ha.1)
  apply (alt_irq_handler_spec hpc _ (hx.mono (by decide)) _ hinstalled' _ _ _).trans
  · rintro v ⟨hpc, hkeeps'', hworld'', hspares'⟩
    have hframe := frame_kept hx hu hspares'
    have hsp'' : v.get .sp = x + 8#32 := (hkeeps'' .sp (by decide)).trans ((hkeeps' .sp (by decide)).trans hsp')
    rw [hra] at hpc
    apply (exception_leave hpc hx hsp'' hframe hsp _).mono
    · rintro t' ⟨hpc, hkeeps, hworld⟩
      have hmem : t'.world.mem = v.world.mem := by rw [hworld]
      refine ⟨hpc, hkeeps, ?_, ?_⟩
      · rw [hworld, hworld'', hu]
        simp [served, hestatus]
      · have hstack : Set.EqOn v.world.mem (served u.world).mem (stack 21 x)ᶜ :=
          hspares'.mono (Set.compl_subset_compl.mpr (stack_mono (by decide) x))
        rw [hmem]
        apply hstack.trans
        rw [hu]
        exact eqOn_noted s.world.dev hspares
    · exact (hkeeps.mono (by decide)).trans ((hkeeps'.mono (by decide)).trans (hkeeps''.mono (by decide)))
  · exact (hkeeps' .gp (by decide)).trans ((hkeeps .gp (by decide)).trans hgp)
  · exact (hkeeps' .sp (by decide)).trans hsp'
  · rw [hu, hienable]
  · rw [hu, hquiet]
  · rwa [hu]

theorem Shares.congr {w w' : World Io} {st : Interrupts.State} (h : Shares w st) (hx : Frame 21 x)
    (hdev : w'.dev = w.dev) (hmem : Set.EqOn w'.mem w.mem (stack 21 x)ᶜ) : Shares w' st := by
  have hnot (a : BitVec 25) (ha : a.toNat < 0x80F4D0) : a ∉ stack 21 x := by
    have hlimit := hx.limit
    rintro ⟨hge, -⟩
    omega
  refine ⟨by rw [hdev, h.edgeCap], ?_, ?_, ?_⟩
  · rw [hmem (hnot _ (by decide)), h.tick1sFlag]
  · rw [hmem (hnot _ (by decide)), h.keysRisingFlags]
  · rw [hmem (hnot _ (by decide)), h.keysInterruptFlag]

theorem globals_subset_flags : globals ⊆ flagsᶜ := by
  rintro a ⟨hge, -⟩ ⟨-, hle⟩
  rw [BitVec.le_def] at hge hle
  change 8450912 ≤ a.toNat at hge
  change a.toNat ≤ 8450910 at hle
  omega

/-- An interrupt between any two instructions: the code that it breaks into goes on where it was, with all
its registers, the variables of the watch and its own stack, nothing is stored to the devices but what withdraws
the requests, and `main` finds in the flags what the steps of the interrupt routines leave there. -/
theorem interrupt_returns {st : Interrupts.State} (hpc : s.pc.extractLsb' 0 2 = 0) (hgp : s.get .gp = 0x8158C0#32)
    (hx : Frame 21 x) (hsp : s.get .sp = x + 84#32) (hinstalled : Installed s.world.mem)
    (hienable : s.world.ienable = 7) (hquiet : s.world.dev.jtagUart = false) (htaken : interruptible io s = true)
    (hshares : Shares s.world st) (hidle : st.keysIsr = .idle) :
    Leads (step code io) (fun t => t.pc = s.pc ∧ s.Keeps [.ea] t ∧
      t.world = { served s.world with mem := t.world.mem, estatus := true } ∧
      Set.EqOn t.world.mem s.world.mem (flags ∪ stack 21 x)ᶜ ∧
      (∀ w, Represents s.world.mem w → Represents t.world.mem w) ∧
      Shares t.world (Runs.run Interrupts.step st (isrs s.world.dev))) (interrupt s) := by
  have hread : s.world.ctl io 4 = pending s.world.dev := ctl_pending hienable hquiet
  rw [interruptible, hread, Bool.and_eq_true, bne_iff_ne] at htaken
  obtain ⟨hpie, hpending⟩ := htaken
  have hget (r : Reg) (hr : r ≠ .ea) : (interrupt s).get r = s.get r := by
    simp [interrupt, hr]
  have hea : (interrupt s).get .ea = s.link := by simp [interrupt]
  have hworld : (interrupt s).world = { s.world with pie := false, estatus := true } := by simp [interrupt, hpie]
  apply (alt_exception_spec (by simp [interrupt]) _ hx _ _ _ _ _ _).mono
  · rintro t ⟨hpc', hkeeps, ht, hspares⟩
    have hserved : served (interrupt s).world = { served s.world with pie := false, estatus := true } := by
      rw [hworld]
      rfl
    rw [hserved] at ht hspares
    have hspares' : Set.EqOn t.world.mem s.world.mem (flags ∪ stack 21 x)ᶜ := by
      rw [Set.compl_union]
      exact (hspares.mono Set.inter_subset_right).trans ((eqOn_served s.world).mono Set.inter_subset_left)
    refine ⟨?_, ?_, ?_, hspares', ?_, ?_⟩
    · rw [hpc', hea, toPc_link hpc]
    · intro r hr
      exact (hkeeps r hr).trans (hget r (by simpa using hr))
    · rw [ht]
      simp [served, hpie]
    · intro w hw
      apply hw.congr hspares'
      rw [Set.compl_union]
      exact Set.subset_inter globals_subset_flags hx.globals_subset
    · exact (hshares.after hidle).congr hx (by rw [ht]) hspares
  · rw [hget .gp (by decide), hgp]
  · rw [hget .sp (by decide), hsp]
  · rwa [hworld]
  · rwa [hworld]
  · rwa [hworld]
  · rw [hworld]
  · rwa [hworld]

def table : List (BitVec 23 × Word) := [(0, entry .alteraAvalonJtagUartIrq), (2, entry .timerIsr), (4, entry .keysIsr)]

theorem installed_table : Installed (storeWords (fun _ => 0) 0x203CF4 table) := by
  intro sp i isr hisr
  have hload {e : BitVec 23 × Word} (he : e ∈ table) :
      loadWord (storeWords (fun _ => 0) 0x203CF4 table) (0x203CF4 + e.1) = e.2 :=
    loadWord_storeWords (by decide) he
  rw [Hal.altIrq_registry] at hisr
  split_ifs at hisr with hkeys htimer huart
  · obtain rfl := hkeys
    obtain rfl := Option.some.inj hisr
    exact hload (e := (4, entry .keysIsr)) (by decide)
  · obtain rfl := htimer
    obtain rfl := Option.some.inj hisr
    exact hload (e := (2, entry .timerIsr)) (by decide)
  · obtain rfl := huart
    obtain rfl := Option.some.inj hisr
    exact hload (e := (0, entry .alteraAvalonJtagUartIrq)) (by decide)

def interrupted : Cpu Io :=
  running 0x800840 0x800840 (storeWords (fun _ => 0) 0x203CF4 table) ⟨.reset, 8, 0, true, false, []⟩

theorem interrupt_returns_to_main : Leads (step code io)
    (fun t => t.pc = 0x800840 ∧ t.world.mem 0x80F35C = 1 ∧ t.world.mem 0x80F35D = 8 ∧
      t.world.dev.stores = [⟨0x1003000, 0xF, 0⟩, ⟨0x100306C, 0xF, 0xF⟩])
    (interrupt interrupted) := by
  have hx : Frame 21 0xFFFFA8 := ⟨by decide, by decide, by decide⟩
  have hshares : Shares interrupted.world { Interrupts.init with edgeCap := 8 } := by
    constructor <;> rfl
  have hrun : Runs.run Interrupts.step { Interrupts.init with edgeCap := 8 } (isrs interrupted.world.dev) =
      { Interrupts.init with
        tick1sFlag := true
        keysRisingFlags := 8
        keysInterruptFlag := true } := by
    decide
  have hreturns := interrupt_returns (s := interrupted) (by decide) rfl hx rfl installed_table rfl rfl rfl hshares rfl
  rw [hrun] at hreturns
  apply hreturns.mono
  rintro t ⟨hpc, -, hworld, -, -, -, htick, hrising, -⟩
  refine ⟨hpc, htick, hrising, ?_⟩
  rw [hworld]
  rfl

end Montre.Compiled
