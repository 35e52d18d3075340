import Montre.Compiled.Division
import Montre.Compiled.Layout

namespace Montre.Compiled

open Montre.Library Nios2 Cpu Montre.Hardware

open Montre.Firmware hiding exec

variable {s : Cpu Io} {w : Watch} {x : Word} {a b : BitVec 8}

def saved (s : Cpu Io) (x : Word) : BitVec 25 → BitVec 8 :=
  storeWord (storeWord (storeWord (storeWord (storeWord (storeWord s.world.mem (wordOf x + 5) (s.get .ra))
    (wordOf x + 4) (s.get .r20)) (wordOf x + 3) (s.get .r19)) (wordOf x + 2) (s.get .r18)) (wordOf x + 1) (s.get .r17))
    (wordOf x) (s.get .r16)

structure Saved (s : Cpu Io) (x : Word) (m : BitVec 25 → BitVec 8) : Prop where
  ra : loadWord m (wordOf x + 5#23) = s.get .ra
  r20 : loadWord m (wordOf x + 4#23) = s.get .r20
  r19 : loadWord m (wordOf x + 3#23) = s.get .r19
  r18 : loadWord m (wordOf x + 2#23) = s.get .r18
  r17 : loadWord m (wordOf x + 1#23) = s.get .r17
  r16 : loadWord m (wordOf x) = s.get .r16

theorem saved_saved (s : Cpu Io) (x : Word) : Saved s x (saved s x) := by
  constructor <;> simp [saved]

theorem Saved.update {m : BitVec 25 → BitVec 8} (h : Saved s x m) (hx : Frame 10 x) {k : BitVec 25}
    (hk : 24 ≤ k.toNat) (q : BitVec 8) : Saved s x (Function.update m (byteOf x + k) q) := by
  have hne {j : BitVec 23} (hj : j.toNat < 6) : (byteOf x + k).extractLsb' 2 23 ≠ wordOf x + j := by
    have hlt := k.isLt
    rw [hx.lane, ne_eq, BitVec.add_right_inj, ← BitVec.toNat_inj, BitVec.extractLsb'_toNat,
      Nat.shiftRight_eq_div_pow]
    omega
  have hne₀ : (byteOf x + k).extractLsb' 2 23 ≠ wordOf x := by
    simpa using hne (j := 0) (by decide)
  constructor
  · rw [loadWord_update_of_ne (hne (by decide)), h.ra]
  · rw [loadWord_update_of_ne (hne (by decide)), h.r20]
  · rw [loadWord_update_of_ne (hne (by decide)), h.r19]
  · rw [loadWord_update_of_ne (hne (by decide)), h.r18]
  · rw [loadWord_update_of_ne (hne (by decide)), h.r17]
  · rw [loadWord_update_of_ne hne₀, h.r16]

theorem setWidth_and (b : BitVec 8) : b.setWidth 32 &&& 255#32 = b.setWidth 32 := by
  have hb := b.isLt
  apply BitVec.eq_of_toNat_eq
  rw [BitVec.toNat_and, BitVec.toNat_setWidth]
  change b.toNat % 2 ^ 32 &&& (2 ^ 8 - 1) = b.toNat % 2 ^ 32
  rw [Nat.and_two_pow_sub_one_eq_mod]
  omega

theorem setWidth_udiv (b : BitVec 8) : b.setWidth 32 / 10#32 = (b / 10#8).setWidth 32 := by
  have hb := b.isLt
  apply BitVec.eq_of_toNat_eq
  rw [BitVec.toNat_setWidth, BitVec.toNat_udiv, BitVec.toNat_udiv, BitVec.toNat_setWidth]
  change b.toNat % 2 ^ 32 / 10 = b.toNat / 10 % 2 ^ 32
  omega

theorem setWidth_umod (b : BitVec 8) : b.setWidth 32 % 10#32 = (b % 10#8).setWidth 32 := by
  have hb := b.isLt
  apply BitVec.eq_of_toNat_eq
  rw [BitVec.toNat_setWidth, BitVec.toNat_umod, BitVec.toNat_umod, BitVec.toNat_setWidth]
  change b.toNat % 2 ^ 32 % 10 = b.toNat % 10 % 2 ^ 32
  omega

/-- Inside `encode_hhmm`, called from s with its frame at x: the memory is m, and r17 holds the byte v. -/
structure Encoding (s : Cpu Io) (x : Word) (m : BitVec 25 → BitVec 8) (v : BitVec 8) (t : Cpu Io) : Prop where
  sp : t.get .sp = x
  ten : t.get .r16 = 10#32
  byte : t.get .r17 = v.setWidth 32
  first : t.get .r18 = s.get .r6
  second : t.get .r19 = s.get .r7
  minutes : t.get .r20 = s.get .r5
  keeps : s.Keeps [.ra, .sp, .r2, .r3, .r4, .r5, .r6, .r7, .r16, .r17, .r18, .r19, .r20] t
  world : t.world = { s.world with mem := m }

structure Dividing10 (f ra : BitVec 25) (v : BitVec 8) (t : Cpu Io) : Prop where
  pc : t.pc = f
  ra : toPc (t.get .ra) = ra
  dividend : t.get .r4 = v.setWidth 32
  divisor : t.get .r5 = 10#32

theorem Encoding.call {m : BitVec 25 → BitVec 8} {v : BitVec 8} {t u : Cpu Io} (h : Encoding s x m v t)
    (hkeeps : t.Keeps [.r2, .r3, .r4, .r5, .r6, .r7] u) (hworld : u.world = t.world) : Encoding s x m v u where
  sp := (hkeeps .sp (by decide)).trans h.sp
  ten := (hkeeps .r16 (by decide)).trans h.ten
  byte := (hkeeps .r17 (by decide)).trans h.byte
  first := (hkeeps .r18 (by decide)).trans h.first
  second := (hkeeps .r19 (by decide)).trans h.second
  minutes := (hkeeps .r20 (by decide)).trans h.minutes
  keeps := h.keeps.trans (hkeeps.mono (by decide))
  world := hworld.trans h.world

theorem encode_quotient {m : BitVec 25 → BitVec 8} {v : BitVec 8} {ra : BitVec 25} {t : Cpu Io}
    (h : Encoding s x m v t) (hcall : Dividing10 0x8009ac ra v t) :
    Leads (step code io) (fun u => u.pc = ra ∧ u.get .r2 = (v / 10).setWidth 32 ∧ Encoding s x m v u) t := by
  apply (udivsi3_spec hcall.pc (by rw [hcall.divisor]; decide)).mono
  rintro u ⟨hpc, hr2, hkeeps, hworld⟩
  rw [hcall.dividend, hcall.divisor, setWidth_udiv] at hr2
  exact ⟨hpc.trans hcall.ra, hr2, h.call hkeeps hworld⟩

theorem encode_remainder {m : BitVec 25 → BitVec 8} {v : BitVec 8} {ra : BitVec 25} {t : Cpu Io}
    (h : Encoding s x m v t) (hcall : Dividing10 0x8009b4 ra v t) :
    Leads (step code io) (fun u => u.pc = ra ∧ u.get .r2 = (v % 10).setWidth 32 ∧ Encoding s x m v u) t := by
  apply (umodsi3_spec hcall.pc (by rw [hcall.divisor]; decide)).mono
  rintro u ⟨hpc, hr2, hkeeps, hworld⟩
  rw [hcall.dividend, hcall.divisor, setWidth_umod] at hr2
  exact ⟨hpc.trans hcall.ra, hr2, h.call hkeeps hworld⟩

theorem encode_enter (hpc : s.pc = 0x8001a4) (hx : Frame 10 x) (hsp : s.get .sp = x + 24#32)
    (hr4 : s.get .r4 = a.setWidth 32) :
    Leads (step code io) (fun t => Dividing10 0x8009ac 0x8001e0 a t ∧ Encoding s x (saved s x) a t) s := by
  have hframe : s.get .sp + 4294967272#32 = x := by
    rw [hsp, BitVec.add_assoc]
    exact BitVec.add_zero x
  apply Leads.block [.alui .add .sp .sp (-24), .stw .ra .sp 20, .stw .r20 .sp 16, .stw .r19 .sp 12, .stw .r18 .sp 8,
    .stw .r17 .sp 4, .stw .r16 .sp 0, .alu .add .r18 .r6 .zero, .alu .add .r19 .r7 .zero, .alu .add .r20 .r5 .zero,
    .alui .and .r17 .r4 255, .alui .add .r16 .zero 10, .alu .add .r4 .r17 .zero, .alu .add .r5 .r16 .zero,
    .call 0x8009ac] hpc (by rfl)
  apply Leads.done
  refine ⟨⟨?_, ?_, ?_, ?_⟩, ⟨?_, ?_, ?_, ?_, ?_, ?_, keeps_block (by decide) s _, ?_⟩⟩
  · simp [exec, toPc]
  · simp [exec, link, toPc]
  · simp [exec, Alu.eval, hr4, setWidth_and]
  · simp [exec, Alu.eval]
  · simp [exec, Alu.eval, hframe]
  · simp [exec, Alu.eval]
  · simp [exec, Alu.eval, hr4, setWidth_and]
  · simp [exec, Alu.eval]
  · simp [exec, Alu.eval]
  · simp [exec, Alu.eval]
  · simp [exec, Alu.eval, hframe, hx.storeW, hx.storeW_base, saved]

section Digits

variable {m : BitVec 25 → BitVec 8} {v q : BitVec 8} {t : Cpu Io} (hx : Frame 10 x) (h : Encoding s x m v t)
  (hr2 : t.get .r2 = q.setWidth 32)
include hx h hr2

theorem encode_second (hpc : t.pc = 0x8001e0) (hr6 : s.get .r6 = x + 32#32) :
    Leads (step code io) (fun u => Dividing10 0x8009b4 0x8001f0 v u ∧
      Encoding s x (Function.update m (byteOf x + 32) q) v u) t := by
  apply Leads.block [.stb .r2 .r18 0, .alu .add .r4 .r17 .zero, .alu .add .r5 .r16 .zero, .call 0x8009b4] hpc
    (by rfl)
  apply Leads.done
  refine ⟨⟨?_, ?_, ?_, ?_⟩, ⟨?_, ?_, ?_, ?_, ?_, ?_, h.keeps.trans (keeps_block (by decide) t _), ?_⟩⟩
  · simp [exec, toPc]
  · simp [exec, link, toPc]
  · simp [exec, Alu.eval, h.byte]
  · simp [exec, Alu.eval, h.ten]
  · simp [exec, h.sp]
  · simp [exec, h.ten]
  · simp [exec, h.byte]
  · simp [exec, h.first]
  · simp [exec, h.second]
  · simp [exec, h.minutes]
  · simp [exec, h.first, hr6, hr2, h.world, hx.storeB]

theorem encode_third (hpc : t.pc = 0x8001f0) (hr7 : s.get .r7 = x + 33#32) (hr5 : s.get .r5 = b.setWidth 32) :
    Leads (step code io) (fun u => Dividing10 0x8009ac 0x800204 b u ∧
      Encoding s x (Function.update m (byteOf x + 33) q) b u) t := by
  apply Leads.block [.stb .r2 .r19 0, .alui .and .r17 .r20 255, .alu .add .r4 .r17 .zero, .alu .add .r5 .r16 .zero,
    .call 0x8009ac] hpc (by rfl)
  apply Leads.done
  refine ⟨⟨?_, ?_, ?_, ?_⟩, ⟨?_, ?_, ?_, ?_, ?_, ?_, h.keeps.trans (keeps_block (by decide) t _), ?_⟩⟩
  · simp [exec, toPc]
  · simp [exec, link, toPc]
  · simp [exec, Alu.eval, h.minutes, hr5, setWidth_and]
  · simp [exec, Alu.eval, h.ten]
  · simp [exec, h.sp]
  · simp [exec, h.ten]
  · simp [exec, Alu.eval, h.minutes, hr5, setWidth_and]
  · simp [exec, h.first]
  · simp [exec, h.second]
  · simp [exec, h.minutes]
  · simp [exec, h.second, hr7, hr2, h.world, hx.storeB]

theorem encode_fourth (hpc : t.pc = 0x800204) (hargument : loadWord m (wordOf x + 6#23) = x + 34#32) :
    Leads (step code io) (fun u => Dividing10 0x8009b4 0x800218 v u ∧
      Encoding s x (Function.update m (byteOf x + 34) q) v u) t := by
  apply Leads.block [.ldw .r3 .sp 24, .stb .r2 .r3 0, .alu .add .r4 .r17 .zero, .alu .add .r5 .r16 .zero,
    .call 0x8009b4] hpc (by rfl)
  apply Leads.done
  refine ⟨⟨?_, ?_, ?_, ?_⟩, ⟨?_, ?_, ?_, ?_, ?_, ?_, h.keeps.trans (keeps_block (by decide) t _), ?_⟩⟩
  · simp [exec, toPc]
  · simp [exec, link, toPc]
  · simp [exec, Alu.eval, h.byte]
  · simp [exec, Alu.eval, h.ten]
  · simp [exec, h.sp]
  · simp [exec, h.ten]
  · simp [exec, h.byte]
  · simp [exec, h.first]
  · simp [exec, h.second]
  · simp [exec, h.minutes]
  · simp [exec, h.sp, h.world, hx.loadW, hargument, hr2, hx.storeB]

theorem encode_leave (hpc : t.pc = 0x800218) (hargument : loadWord m (wordOf x + 7#23) = x + 35#32)
    (hsaved : Saved s x m) (hsp : s.get .sp = x + 24#32) :
    Leads (step code io) (fun u => u.pc = toPc (s.get .ra) ∧ s.Keeps [.r2, .r3, .r4, .r5, .r6, .r7] u ∧
      u.world = { s.world with mem := Function.update m (byteOf x + 35) q }) t := by
  obtain ⟨hra, hr20, hr19, hr18, hr17, hr16⟩ := hsaved.update hx (k := 35#25) (by decide) q
  apply Leads.block [.ldw .r3 .sp 28, .stb .r2 .r3 0, .ldw .ra .sp 20, .ldw .r20 .sp 16, .ldw .r19 .sp 12,
    .ldw .r18 .sp 8, .ldw .r17 .sp 4, .ldw .r16 .sp 0, .alui .add .sp .sp 24, .jmp .ra] hpc (by rfl)
  apply Leads.done
  refine ⟨?_, ?_, ?_⟩
  · simp [exec, h.sp, h.world, hx.loadW, hargument, hr2, hx.storeB, hra]
  · apply Keeps.restore [.ra, .sp, .r16, .r17, .r18, .r19, .r20]
    · exact (h.keeps.trans (keeps_block (by decide) t _)).mono (by decide)
    · simp [exec, Alu.eval, h.sp, h.world, hx.loadW, hx.loadW_base, hargument, hr2, hx.storeB, hra, hr20, hr19, hr18,
        hr17, hr16, hsp]
  · simp [exec, h.sp, h.world, hx.loadW, hargument, hr2, hx.storeB]

end Digits

structure Digits (x : Word) (d : UInt8 × UInt8 × UInt8 × UInt8) (m : BitVec 25 → BitVec 8) : Prop where
  heuresTens : m (byteOf x + 32#25) = d.1.toBitVec
  heuresUnits : m (byteOf x + 33#25) = d.2.1.toBitVec
  minutesTens : m (byteOf x + 34#25) = d.2.2.1.toBitVec
  minutesUnits : m (byteOf x + 35#25) = d.2.2.2.toBitVec

theorem eqOn_saved (hx : Frame 10 x) : Set.EqOn (saved s x) s.world.mem (stack 10 x)ᶜ := by
  have hbase (m : BitVec 25 → BitVec 8) (v : Word) : Set.EqOn (storeWord m (wordOf x) v) m (stack 10 x)ᶜ := by
    simpa [wordOf] using hx.eqOn_word (c := 0) (by decide) m v
  exact (hbase _ _).trans ((hx.eqOn_word (c := 4) (by decide) _ _).trans
    ((hx.eqOn_word (c := 8) (by decide) _ _).trans ((hx.eqOn_word (c := 12) (by decide) _ _).trans
      ((hx.eqOn_word (c := 16) (by decide) _ _).trans (hx.eqOn_word (c := 20) (by decide) _ _)))))

structure Arguments (x : Word) (heures minutes : UInt8) (s : Cpu Io) : Prop where
  sp : s.get .sp = x + 24#32
  heures : s.get .r4 = heures.toBitVec.setWidth 32
  minutes : s.get .r5 = minutes.toBitVec.setWidth 32
  first : s.get .r6 = x + 32#32
  second : s.get .r7 = x + 33#32
  third : loadWord s.world.mem (wordOf x + 6#23) = x + 34#32
  fourth : loadWord s.world.mem (wordOf x + 7#23) = x + 35#32

theorem encode_hhmm_spec (hpc : s.pc = 0x8001a4) (hx : Frame 10 x) {heures minutes : UInt8}
    (h : Arguments x heures minutes s) :
    Leads (step code io) (fun t => t.pc = toPc (s.get .ra) ∧ s.Keeps [.r2, .r3, .r4, .r5, .r6, .r7] t ∧
      t.world = { s.world with mem := t.world.mem } ∧ Digits x (encodeHhmm heures minutes) t.world.mem ∧
      loadWord t.world.mem (wordOf x + 9#23) = loadWord s.world.mem (wordOf x + 9#23) ∧
      Set.EqOn t.world.mem s.world.mem (stack 10 x)ᶜ) s := by
  obtain ⟨hsp, hr4, hr5, hr6, hr7, hthird, hfourth⟩ := h
  apply (encode_enter hpc hx hsp hr4).trans
  rintro t ⟨hcall, h⟩
  apply (encode_quotient h hcall).trans
  rintro t ⟨hpc, hr2, h⟩
  apply (encode_second hx h hr2 hpc hr6).trans
  rintro t ⟨hcall, h⟩
  apply (encode_remainder h hcall).trans
  rintro t ⟨hpc, hr2, h⟩
  apply (encode_third hx h hr2 hpc hr7 hr5).trans
  rintro t ⟨hcall, h⟩
  apply (encode_quotient h hcall).trans
  rintro t ⟨hpc, hr2, h⟩
  apply (encode_fourth hx h hr2 hpc (by simpa [hx.lane, saved] using hthird)).trans
  rintro t ⟨hcall, h⟩
  apply (encode_remainder h hcall).trans
  rintro t ⟨hpc, hr2, h⟩
  have hsaved := (((saved_saved s x).update hx (k := 32) (by decide) (heures.toBitVec / 10)).update hx (k := 33)
    (by decide) (heures.toBitVec % 10)).update hx (k := 34) (by decide) (minutes.toBitVec / 10)
  apply (encode_leave hx h hr2 hpc (by simpa [hx.lane, saved] using hfourth) hsaved hsp).mono
  rintro u ⟨hpc, hkeeps, hworld⟩
  have hmem := congrArg World.mem hworld
  refine ⟨hpc, hkeeps, by rw [hworld], ⟨?_, ?_, ?_, ?_⟩, ?_, ?_⟩
  · simp [hmem, encodeHhmm]
  · simp [hmem, encodeHhmm]
  · simp [hmem, encodeHhmm]
  · simp [hmem, encodeHhmm]
  · simp [hmem, hx.lane, saved]
  · rw [hmem]
    exact (hx.eqOn_byte (c := 35) (by decide) _ _).trans ((hx.eqOn_byte (c := 34) (by decide) _ _).trans
      ((hx.eqOn_byte (c := 33) (by decide) _ _).trans ((hx.eqOn_byte (c := 32) (by decide) _ _).trans (eqOn_saved hx))))

/-- Inside `update_display`, called from s with its frame, and that of `encode_hhmm`, from x up: the IOWRs
ws are made. -/
structure Displaying (s : Cpu Io) (x : Word) (ws : List Iowr) (t : Cpu Io) : Prop where
  sp : t.get .sp = x + 24#32
  ra : loadWord t.world.mem (wordOf x + 9#23) = s.get .ra
  keeps : s.Keeps [.ra, .sp, .r2, .r3, .r4, .r5, .r6, .r7] t
  world : t.world = { s.world with mem := t.world.mem, dev := s.world.dev.emit ws }
  spares : Set.EqOn t.world.mem s.world.mem (stack 10 x)ᶜ

theorem display_enter (hpc : s.pc = 0x800520) (hx : Frame 10 x) (hsp : s.get .sp = x + 40#32) :
    Leads (step code io) (fun t => t.pc = 0x800538 ∧ Displaying s x [] t ∧ Digits x (0, 0, 0, 0) t.world.mem) s := by
  apply Leads.block [.alui .add .sp .sp (-16), .stw .ra .sp 12, .stb .zero .sp 8, .stb .zero .sp 9, .stb .zero .sp 10,
    .stb .zero .sp 11] hpc (by rfl)
  apply Leads.done
  refine ⟨by simp [exec], ⟨?_, ?_, keeps_block (by decide) s _, ?_, ?_⟩, ⟨?_, ?_, ?_, ?_⟩⟩
  · simp [exec, Alu.eval, hsp, add_ofNat_add]
  · simp [exec, Alu.eval, hsp, add_ofNat_add, hx.storeW, hx.storeB, hx.lane]
  · simp [exec, Alu.eval, hsp, add_ofNat_add, hx.storeW, hx.storeB]
  · have hspares := (hx.eqOn_byte (c := 35) (by decide) _ 0).trans ((hx.eqOn_byte (c := 34) (by decide) _ 0).trans
      ((hx.eqOn_byte (c := 33) (by decide) _ 0).trans ((hx.eqOn_byte (c := 32) (by decide) _ 0).trans
        (hx.eqOn_word (c := 36) (by decide) s.world.mem (s.get .ra)))))
    simpa [exec, Alu.eval, hsp, add_ofNat_add, hx.storeW, hx.storeB] using hspares
  · simp [exec, Alu.eval, hsp, add_ofNat_add, hx.storeW, hx.storeB]
  · simp [exec, Alu.eval, hsp, add_ofNat_add, hx.storeW, hx.storeB]
  · simp [exec, Alu.eval, hsp, add_ofNat_add, hx.storeW, hx.storeB]
  · simp [exec, Alu.eval, hsp, add_ofNat_add, hx.storeW, hx.storeB]

theorem setWidth_ofBool (c : Bool) : (BitVec.ofBool c).setWidth 32 = flag c := by
  cases c <;> rfl

/-- The order in which the compiler adds the digits up. -/
theorem pack_digits (d : UInt8 × UInt8 × UInt8 × UInt8) :
    d.2.2.1.toBitVec.setWidth 32 <<< 4 + (d.1.toBitVec.setWidth 32 <<< 12 + d.2.1.toBitVec.setWidth 32 <<< 8 +
      d.2.2.2.toBitVec.setWidth 32) = packDigits d := by
  obtain ⟨d3, d2, d1, d0⟩ := d
  simp only [packDigits]
  ac_rfl

section Branches

variable {ws : List Iowr} {t : Cpu Io} (hx : Frame 10 x) (hgp : s.get .gp = 0x8158C0#32)
  (hw : Represents s.world.mem w) (h : Displaying s x ws t)
include hx hw h

theorem Displaying.represents : Represents t.world.mem w := hw.congr h.spares hx.globals_subset

theorem display_actif (hpc : t.pc = 0x800538) :
    Leads (step code io) (fun u => u.pc = 0x800550 ∧ u.world.mem = t.world.mem ∧
      Displaying s x (ws ++ [⟨.startChrono, flag w.gChrono.chronoActif⟩]) u) t := by
  have hactif : t.world.mem 0x80F36D#25 = (BitVec.ofBool w.gChrono.chronoActif).setWidth 8 :=
    (h.represents hx hw).byte .chronoActif
  have hstart (u : World Io) (v : Word) :=
    storeW_iowr (w := u) (v := v) (x := 0x1003030#32) (b := .startChrono) rfl (by decide)
  apply Leads.block [.alui .or .r2 .zero 0x810000, .alui .add .r2 .r2 (-3219), .ldbu .r3 .r2 0,
    .alui .or .r2 .zero 0x1000000, .alui .add .r2 .r2 12336, .stw .r3 .r2 0] hpc (by rfl)
  apply Leads.done
  refine ⟨by simp [exec], ?_, ⟨?_, ?_, h.keeps.trans (keeps_block (by decide) t _), ?_, ?_⟩⟩
  · simp [exec, Alu.eval, hstart]
  · simpa [exec] using h.sp
  · simpa [exec, Alu.eval, hstart] using h.ra
  · simp [exec, Alu.eval, hstart, hactif, setWidth_ofBool]
    rw [h.world]
    simp
  · simpa [exec, Alu.eval, hstart] using h.spares

include hgp

theorem display_mode (hpc : t.pc = 0x800550) :
    Leads (step code io) (fun u => u.pc = (match w.gMode with
        | .horloge => 0x80056c
        | .chrono => 0x800598
        | .minuterie => 0x8005ac) ∧ u.world.mem = t.world.mem ∧ Displaying s x ws u) t := by
  have hmode (mode : WatchMode) (hm : w.gMode = mode) : loadWord t.world.mem 0x203CDA#23 = BitVec.ofNat 32 mode.code :=
    hm ▸ (h.represents hx hw).gMode
  have hgp' : t.get .gp = 0x8158C0#32 := (h.keeps .gp (by decide)).trans hgp
  apply Leads.block [.ldw .r3 .gp (-25944), .alui .add .r2 .zero 1, .branch .eq .r3 .r2 60] hpc (by rfl)
  have hdisplaying {u : Cpu Io} (hsp : u.get .sp = t.get .sp) (hkeeps : t.Keeps [.r2, .r3] u)
      (hworld : u.world = t.world) : Displaying s x ws u :=
    ⟨hsp.trans h.sp, hworld ▸ h.ra, h.keeps.trans (hkeeps.mono (by decide)), hworld ▸ h.world, hworld ▸ h.spares⟩
  cases hm : w.gMode with
  | chrono =>
      have hcode := hmode _ hm
      simp only [WatchMode.code] at hcode
      apply Leads.done
      refine ⟨?_, by simp [exec], hdisplaying (by simp [exec]) (keeps_block (by decide) t _) (by simp [exec])⟩
      simp [exec, Alu.eval, Compare.eval, hgp', hcode, link, toPc]
  | horloge =>
      have hcode := hmode _ hm
      simp only [WatchMode.code] at hcode
      apply Leads.block (p := 0x80055c) [.branch .ltu .r3 .r2 12]
      · simp [exec, Alu.eval, Compare.eval, hgp', hcode]
      · rfl
      apply Leads.done
      refine ⟨?_, by simp [exec], hdisplaying (by simp [exec]) ?_ (by simp [exec])⟩
      · simp [exec, Alu.eval, Compare.eval, hgp', hcode, link, toPc]
      · exact (keeps_block (by decide) t _).trans (keeps_block (by decide) _ _)
  | minuterie =>
      have hcode := hmode _ hm
      simp only [WatchMode.code] at hcode
      apply Leads.block (p := 0x80055c) [.branch .ltu .r3 .r2 12]
      · simp [exec, Alu.eval, Compare.eval, hgp', hcode]
      · rfl
      apply Leads.block (p := 0x800560) [.alui .add .r2 .zero 2, .branch .ne .r3 .r2 108]
      · simp [exec, Alu.eval, Compare.eval, hgp', hcode]
      · rfl
      apply Leads.block (p := 0x800568) [.br 64]
      · simp [exec, Alu.eval, Compare.eval, hgp', hcode]
      · rfl
      apply Leads.done
      refine ⟨?_, by simp [exec], hdisplaying (by simp [exec]) ?_ (by simp [exec])⟩
      · simp [exec, link, toPc]
      · exact ((keeps_block (by decide) t _).trans (keeps_block (by decide) _ _)).trans
          ((keeps_block (by decide) _ _).trans (keeps_block (by decide) _ _))

/-- The code in front of both calls of `encode_hhmm`, for a time of day at k from the global pointer. -/
def passTime (k : Word) : List Instr :=
  [.ldbu .r4 .gp k, .alui .add .r2 .gp k, .ldbu .r5 .r2 1, .alui .add .r2 .sp 10, .stw .r2 .sp 0,
    .alui .add .r2 .sp 11, .stw .r2 .sp 4, .alui .add .r6 .sp 8, .alui .add .r7 .sp 9]

omit hw in
theorem display_arguments {p : BitVec 25} {k : Word} {heures minutes : UInt8} (hpc : t.pc = p)
    (hcode : listed code p (passTime k) = true) (hheures : t.world.loadB io (0x8158C0#32 + k) = heures.toBitVec)
    (hminutes : t.world.loadB io (0x8158C0#32 + k + 1#32) = minutes.toBitVec) :
    Leads (step code io) (fun u => u.pc = p + 36 ∧ Arguments x heures minutes u ∧ Displaying s x ws u) t := by
  have hgp' : t.get .gp = 0x8158C0#32 := (h.keeps .gp (by decide)).trans hgp
  have hspares (v v' : Word) := (hx.eqOn_word (c := 28) (by decide) _ v).trans
    (hx.eqOn_word (c := 24) (by decide) t.world.mem v')
  apply Leads.block (passTime k) hpc hcode
  apply Leads.done
  refine ⟨?_, ⟨?_, ?_, ?_, ?_, ?_, ?_, ?_⟩, ⟨?_, ?_, h.keeps.trans (keeps_block ?_ t _), ?_, ?_⟩⟩
  · simp [passTime, exec, BitVec.add_assoc]
  · simp [passTime, exec, h.sp]
  · simp [passTime, exec, hgp', hheures]
  · simp [passTime, exec, Alu.eval, hgp', hminutes]
  · simp [passTime, exec, Alu.eval, h.sp, add_ofNat_add]
  · simp [passTime, exec, Alu.eval, h.sp, add_ofNat_add]
  · simp [passTime, exec, Alu.eval, h.sp, add_ofNat_add, hx.storeW]
  · simp [passTime, exec, Alu.eval, h.sp, add_ofNat_add, hx.storeW]
  · simp [passTime, exec, h.sp]
  · simpa [passTime, exec, Alu.eval, h.sp, add_ofNat_add, hx.storeW] using h.ra
  · simp [passTime, Instr.dst]
  · simp [passTime, exec, Alu.eval, h.sp, add_ofNat_add, hx.storeW]
    rw [h.world]
    simp
  · simpa [passTime, exec, Alu.eval, h.sp, add_ofNat_add, hx.storeW] using (hspares _ _).trans h.spares

omit hx hgp hw in
theorem Displaying.jump {i : Instr} (hi : i.dst ⊆ [.ra, .sp, .r2, .r3, .r4, .r5, .r6, .r7]) (hsp : .sp ∉ i.dst)
    {p : BitVec 25} (hworld : (exec io (t.goto p) i).world = t.world) : Displaying s x ws (exec io (t.goto p) i) := by
  have hdst : ∀ j ∈ [i], j.dst ⊆ i.dst := by simp
  have hkeeps : t.Keeps i.dst (exec io (t.goto p) i) := keeps_block hdst t p
  exact ⟨(hkeeps .sp hsp).trans h.sp, hworld ▸ h.ra, h.keeps.trans (hkeeps.mono hi), hworld ▸ h.world,
    hworld ▸ h.spares⟩

omit hgp hw in
theorem display_encode {p : BitVec 25} {heures minutes : UInt8} (hpc : t.pc = p)
    (hcode : listed code p [.call 0x8001a4] = true) (harguments : Arguments x heures minutes t) :
    Leads (step code io) (fun u => u.pc = toPc ((p + 4).setWidth 32) ∧ Displaying s x ws u ∧
      Digits x (encodeHhmm heures minutes) u.world.mem) t := by
  have hcall : Displaying s x ws (exec io (t.goto p) (.call 0x8001a4)) :=
    h.jump (by decide) (by decide) (by simp [exec])
  apply Leads.block [.call 0x8001a4] hpc hcode
  have harguments' : Arguments x heures minutes (exec io (t.goto p) (.call 0x8001a4)) := by
    refine ⟨?_, ?_, ?_, ?_, ?_, ?_, ?_⟩
    · simpa [exec] using harguments.sp
    · simpa [exec] using harguments.heures
    · simpa [exec] using harguments.minutes
    · simpa [exec] using harguments.first
    · simpa [exec] using harguments.second
    · simpa [exec] using harguments.third
    · simpa [exec] using harguments.fourth
  apply (encode_hhmm_spec (by simp [exec, toPc]) hx harguments').mono
  rintro u ⟨hpc, hkeeps, hworld, hdigits, hra, hspares⟩
  refine ⟨hpc.trans (by simp [exec, link]), ⟨(hkeeps .sp (by decide)).trans hcall.sp, hra.trans hcall.ra,
    hcall.keeps.trans (hkeeps.mono (by decide)), ?_, hspares.trans hcall.spares⟩, hdigits⟩
  rw [hworld]
  exact congrArg (fun y : World Io => { y with mem := u.world.mem }) hcall.world

theorem display_horloge (hpc : t.pc = 0x80056c) :
    Leads (step code io) (fun u => u.pc = 0x8005d4 ∧ Displaying s x ws u ∧
      Digits x (encodeHhmm w.gHorloge.heures w.gHorloge.minutes) u.world.mem) t := by
  have hheures : t.world.mem 0x80F36E#25 = w.gHorloge.heures.toBitVec := (h.represents hx hw).byte .heures
  have hminutes : t.world.mem 0x80F36F#25 = w.gHorloge.minutes.toBitVec := (h.represents hx hw).byte .minutes
  apply (display_arguments (k := -25938) hx hgp h hpc (by rfl) (by simpa using hheures)
    (by simpa using hminutes)).trans
  rintro t ⟨hpc, harguments, h⟩
  apply (display_encode hx h hpc (by rfl) harguments).trans
  rintro u ⟨hpc, h, hdigits⟩
  apply Leads.block [.br 60] (p := 0x800594) (hpc.trans (by decide)) (by rfl)
  apply Leads.done
  refine ⟨by simp [exec, link, toPc], ?_, by simpa [exec] using hdigits⟩
  exact h.jump (i := .br 60) (by decide) (by decide) (by simp [exec])

theorem display_minuterie (hpc : t.pc = 0x8005ac) :
    Leads (step code io) (fun u => u.pc = 0x8005d4 ∧ Displaying s x ws u ∧
      Digits x (encodeHhmm w.gMinut.heures w.gMinut.minutes) u.world.mem) t := by
  have hheures : t.world.mem 0x80F360#25 = w.gMinut.heures.toBitVec := (h.represents hx hw).byte .alarmHeures
  have hminutes : t.world.mem 0x80F361#25 = w.gMinut.minutes.toBitVec := (h.represents hx hw).byte .alarmMinutes
  apply (display_arguments (k := -25952) hx hgp h hpc (by rfl) (by simpa using hheures)
    (by simpa using hminutes)).trans
  rintro t ⟨hpc, harguments, h⟩
  apply (display_encode hx h hpc (by rfl) harguments).mono
  rintro u ⟨hpc, h, hdigits⟩
  exact ⟨hpc.trans (by decide), h, hdigits⟩

theorem display_chrono (hpc : t.pc = 0x800598) :
    Leads (step code io) (fun u => u.pc = 0x8005d4 ∧ u.world.mem = t.world.mem ∧
      Displaying s x (ws ++ [⟨.chrono0, flag w.gChrono.running⟩]) u) t := by
  have hrunning : t.world.mem 0x80F36C#25 = (BitVec.ofBool w.gChrono.running).setWidth 8 :=
    (h.represents hx hw).byte .chronoRunning
  have hgp' : t.get .gp = 0x8158C0#32 := (h.keeps .gp (by decide)).trans hgp
  have hchrono (u : World Io) (v : Word) :=
    storeW_iowr (w := u) (v := v) (x := 0x1003078#32) (b := .chrono0) rfl (by decide)
  apply Leads.block [.ldbu .r3 .gp (-25940), .alui .or .r2 .zero 0x1000000, .alui .add .r2 .r2 12408, .stw .r3 .r2 0,
    .br 40] hpc (by rfl)
  apply Leads.done
  refine ⟨by simp [exec, link, toPc], ?_, ⟨?_, ?_, h.keeps.trans (keeps_block (by decide) t _), ?_, ?_⟩⟩
  · simp [exec, Alu.eval, hchrono]
  · simpa [exec] using h.sp
  · simpa [exec, Alu.eval, hchrono] using h.ra
  · simp [exec, Alu.eval, hgp', hchrono, hrunning, setWidth_ofBool]
    rw [h.world]
    simp
  · simpa [exec, Alu.eval, hchrono] using h.spares

omit hgp hw in
theorem display_leave (hpc : t.pc = 0x8005d4) (hsp : s.get .sp = x + 40#32) {d : UInt8 × UInt8 × UInt8 × UInt8}
    (hd : Digits x d t.world.mem) :
    Leads (step code io) (fun u => u.pc = toPc (s.get .ra) ∧ s.Keeps [.r2, .r3, .r4, .r5, .r6, .r7] u ∧
      u.world = { s.world with mem := u.world.mem, dev := s.world.dev.emit (ws ++ [⟨.hexs, packDigits d⟩]) } ∧
      Set.EqOn u.world.mem s.world.mem (stack 10 x)ᶜ) t := by
  have hhexs (u : World Io) (v : Word) := storeW_iowr (w := u) (v := v) (x := 0x1003050#32) (b := .hexs) rfl (by decide)
  apply Leads.block [.ldbu .r4 .sp 10, .alui .sll .r4 .r4 4, .ldbu .r3 .sp 8, .alui .sll .r3 .r3 12, .ldbu .r2 .sp 9,
    .alui .sll .r2 .r2 8, .alu .add .r3 .r3 .r2, .ldbu .r2 .sp 11, .alu .add .r3 .r3 .r2, .alu .add .r4 .r4 .r3,
    .alui .or .r2 .zero 0x1000000, .alui .add .r2 .r2 12368, .stw .r4 .r2 0, .ldw .ra .sp 12, .alui .add .sp .sp 16,
    .jmp .ra] hpc (by rfl)
  apply Leads.done
  refine ⟨?_, ?_, ?_, ?_⟩
  · simp [exec, Alu.eval, h.sp, add_ofNat_add, hx.loadW, hx.loadB, hhexs, h.ra]
  · apply Keeps.restore [.ra, .sp]
    · exact h.keeps.trans (keeps_block (by decide) t _)
    · simp [exec, Alu.eval, h.sp, add_ofNat_add, hx.loadW, hx.loadB, hhexs, h.ra, hsp]
  · simp [exec, Alu.eval, h.sp, add_ofNat_add, hx.loadW, hx.loadB, hhexs, hd.heuresTens, hd.heuresUnits,
      hd.minutesTens, hd.minutesUnits]
    rw [h.world, pack_digits]
    simp
  · simpa [exec, Alu.eval, h.sp, add_ofNat_add, hx.loadW, hx.loadB, hhexs] using h.spares

end Branches

theorem update_display_performs (hpc : s.pc = 0x800520) (hgp : s.get .gp = 0x8158C0#32) (hx : Frame 10 x)
    (hsp : s.get .sp = x + 40#32) (hw : Represents s.world.mem w) :
    Leads (step code io) (Performs updateDisplay w [.r2, .r3, .r4, .r5, .r6, .r7] (stack 10 x) s) s := by
  have hleave {t : Cpu Io} {ws : List Iowr} {d : UInt8 × UInt8 × UInt8 × UInt8} (hpc : t.pc = 0x8005d4)
      (h : Displaying s x ws t) (hd : Digits x d t.world.mem)
      (hws : (updateDisplay w) = (w, ws ++ [⟨.hexs, packDigits d⟩])) :
      Leads (step code io) (Performs updateDisplay w [.r2, .r3, .r4, .r5, .r6, .r7] (stack 10 x) s) t := by
    apply (display_leave hx h hpc hsp hd).mono
    rintro u ⟨hpc, hkeeps, hworld, hspares⟩
    refine ⟨hpc, hkeeps, by rw [hws]; exact hworld, ?_, hspares⟩
    rw [hws]
    exact hw.congr hspares hx.globals_subset
  apply (display_enter hpc hx hsp).trans
  rintro t ⟨hpc, h, hd⟩
  apply (display_actif hx hw h hpc).trans
  rintro t' ⟨hpc, hmem, h⟩
  apply (display_mode hx hgp hw h hpc).trans
  rintro u ⟨hpc, hmem', h⟩
  cases hm : w.gMode with
  | horloge =>
      rw [hm] at hpc
      apply (display_horloge hx hgp hw h hpc).trans
      rintro v ⟨hpc, h, hd⟩
      exact hleave hpc h hd (by simp only [updateDisplay, hm]; rfl)
  | chrono =>
      rw [hm] at hpc
      apply (display_chrono hx hgp hw h hpc).trans
      rintro v ⟨hpc, hmem'', h⟩
      exact hleave hpc h (by rw [hmem'', hmem', hmem]; exact hd) (by simp only [updateDisplay, hm]; rfl)
  | minuterie =>
      rw [hm] at hpc
      apply (display_minuterie hx hgp hw h hpc).trans
      rintro v ⟨hpc, h, hd⟩
      exact hleave hpc h hd (by simp only [updateDisplay, hm]; rfl)

/-- The compiled `update_display`, with the two divisions of each byte that it makes, writes to the devices
what the source says and nothing else, and leaves all but ten words of the stack as they were. -/
theorem update_display_spec (hpc : s.pc = 0x800520) (hgp : s.get .gp = 0x8158C0#32) (hx : Frame 10 x)
    (hsp : s.get .sp = x + 40#32) (hw : Represents s.world.mem w) :
    Leads (step code io) (fun t => Performs updateDisplay w [.r2, .r3, .r4, .r5, .r6, .r7] (stack 10 x) s t ∧
      t.world.dev.stores = s.world.dev.stores ++ (updateDisplay w).2.map store) s := by
  apply (update_display_performs hpc hgp hx hsp hw).mono
  intro t ht
  exact ⟨ht, ht.stores⟩

theorem beforeMidnight_displayed : Leads (step code io)
    (fun t => t.pc = 0x800858 ∧ t.world.dev.stores = [⟨0x1003030, 0xF, 0⟩, ⟨0x1003050, 0xF, 0x2359⟩])
    (running 0x800520 0x800858 (memory beforeMidnight) ⟨.reset, 0, 0, false, false, []⟩) := by
  have hx : Frame 10 0xFFFFD4 := ⟨by decide, by decide, by decide⟩
  apply (update_display_spec rfl rfl hx rfl represents_beforeMidnight).mono
  rintro t ⟨ht, hstores⟩
  refine ⟨ht.pc.trans rfl, ?_⟩
  rw [hstores]
  rfl

end Montre.Compiled
