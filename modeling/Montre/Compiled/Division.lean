import Montre.Compiled.Text
import Mathlib.Tactic.Ring

namespace Montre.Compiled

open Montre.Library Nios2 Cpu

variable {δ : Type} {bus : Bus δ} {n d k : ℕ} {s : Cpu δ}

/-- The divisor and the quotient bit of `udivmodsi4`, k places up. -/
structure Scaled (n d k : ℕ) (s : Cpu δ) : Prop where
  rest : (s.get .r4).toNat = n
  divisor : (s.get .r5).toNat = d * 2 ^ k
  bit : (s.get .r2).toNat = 2 ^ k

theorem slt_zero (x : Word) : x.slt 0#32 = decide (2 ^ 31 ≤ x.toNat) := by
  rw [Bool.eq_iff_iff, BitVec.slt_zero_iff_msb_cond, BitVec.msb_eq_decide]

theorem scale_turn (hpc : s.pc = 0x800894) (h : Scaled n d k s) (hden : 0 < d)
    (hcount : s.get .r3 = BitVec.ofNat 32 k) (hlast : s.get .r7 = 31) (hlt : d * 2 ^ k < 2 ^ 31) :
    Leads (step code bus) (fun t => Scaled n d (k + 1) t ∧ s.Keeps [.r2, .r3, .r5] t ∧ t.world = s.world ∧
      ((t.pc = 0x8008a4 ∧ n < 2 * (d * 2 ^ (k + 1))) ∨
        (t.pc = 0x800894 ∧ t.get .r3 = BitVec.ofNat 32 (k + 1) ∧ d * 2 ^ (k + 1) < 2 ^ 31))) s := by
  obtain ⟨hrest, hdivisor, hbit⟩ := h
  have hnum : n < 2 ^ 32 := hrest ▸ (s.get .r4).isLt
  have hpow : 2 ^ k ≤ d * 2 ^ k := Nat.le_mul_of_pos_left _ hden
  have hpos : 0 < 2 ^ k := Nat.two_pow_pos k
  have hk : k < 31 := (Nat.pow_lt_pow_iff_right Nat.one_lt_two).mp (hpow.trans_lt hlt)
  have hdouble : d * 2 ^ (k + 1) = 2 * (d * 2 ^ k) := by ring
  have hdivisor' : (s.get .r5 + s.get .r5).toNat = d * 2 ^ (k + 1) := by
    rw [BitVec.toNat_add, hdivisor]
    omega
  have hbit' : (s.get .r2 + s.get .r2).toNat = 2 ^ (k + 1) := by
    rw [BitVec.toNat_add, hbit, pow_succ]
    omega
  apply Leads.block [.alu .add .r5 .r5 .r5, .alu .add .r2 .r2 .r2, .branch .ltu .r5 .r4 (-24)] hpc
    (by rfl)
  by_cases hless : d * 2 ^ (k + 1) < n
  · have hult : (s.get .r5 + s.get .r5).ult (s.get .r4) = true := by
      rw [BitVec.ult, hdivisor', hrest]
      exact decide_eq_true hless
    have hcounts : s.get .r3 ≠ 31#32 := by
      rw [hcount, ne_eq, ← BitVec.toNat_inj, BitVec.toNat_ofNat, BitVec.toNat_ofNat]
      omega
    apply Leads.block (p := 0x800888) [.branch .eq .r3 .r7 76]
    · simp [exec, Alu.eval, Compare.eval, hult, link, toPc, wordOf]
    · rfl
    apply Leads.block (p := 0x80088c) [.alui .add .r3 .r3 1, .branch .lt .r5 .zero 16]
    · simp [exec, Alu.eval, Compare.eval, hlast, hcounts]
    · rfl
    apply Leads.done
    refine ⟨⟨?_, ?_, ?_⟩, ?_, by simp [exec], ?_⟩
    · simpa [exec] using hrest
    · simpa [exec, Alu.eval] using hdivisor'
    · simpa [exec, Alu.eval] using hbit'
    · exact ((keeps_block (by decide) s _).trans (keeps_block (by decide) _ _)).trans (keeps_block (by decide) _ _)
    · by_cases hmsb : d * 2 ^ (k + 1) < 2 ^ 31
      · refine .inr ⟨?_, ?_, hmsb⟩
        · have hpositive : (s.get .r5 + s.get .r5).slt 0#32 = false := by
            rw [slt_zero, hdivisor']
            exact decide_eq_false (Nat.not_le.mpr hmsb)
          simp [exec, Alu.eval, Compare.eval, hpositive]
        · simp [exec, Alu.eval, hcount, BitVec.ofNat_add]
      · refine .inl ⟨?_, by omega⟩
        have hnegative : (s.get .r5 + s.get .r5).slt 0#32 = true := by
          rw [slt_zero, hdivisor']
          exact decide_eq_true (Nat.le_of_not_lt hmsb)
        simp [exec, Alu.eval, Compare.eval, hnegative, link, toPc, wordOf]
  · have hult : (s.get .r5 + s.get .r5).ult (s.get .r4) = false := by
      rw [BitVec.ult, hdivisor', hrest]
      exact decide_eq_false hless
    have hbits : s.get .r2 + s.get .r2 ≠ 0#32 := by
      rw [ne_eq, ← BitVec.toNat_inj, hbit']
      exact (Nat.two_pow_pos _).ne'
    apply Leads.block (p := 0x8008a0) [.branch .eq .r2 .zero 52]
    · simp [exec, Alu.eval, Compare.eval, hult]
    · rfl
    apply Leads.done
    refine ⟨⟨?_, ?_, ?_⟩, ?_, by simp [exec], .inl ⟨?_, by omega⟩⟩
    · simpa [exec] using hrest
    · simpa [exec, Alu.eval] using hdivisor'
    · simpa [exec, Alu.eval] using hbit'
    · exact (keeps_block (by decide) s _).trans (keeps_block (by decide) _ _)
    · simp [exec, Alu.eval, Compare.eval, hbits]

theorem scale_loop (hpc : s.pc = 0x800894) (h : Scaled n d k s) (hden : 0 < d)
    (hcount : s.get .r3 = BitVec.ofNat 32 k) (hlast : s.get .r7 = 31) (hlt : d * 2 ^ k < 2 ^ 31) :
    Leads (step code bus) (fun t => t.pc = 0x8008a4 ∧ s.Keeps [.r2, .r3, .r5] t ∧ t.world = s.world ∧
      ∃ k, Scaled n d k t ∧ n < 2 * (d * 2 ^ k)) s := by
  apply Leads.loop (n := 31 - k) (I := fun m t => t.pc = 0x800894 ∧ s.Keeps [.r2, .r3, .r5] t ∧ t.world = s.world ∧
    ∃ k, m = 31 - k ∧ Scaled n d k t ∧ t.get .r3 = BitVec.ofNat 32 k ∧ d * 2 ^ k < 2 ^ 31)
  · rintro m t ⟨hpc, hkeeps, hworld, k, rfl, hscaled, hcount, hlt⟩
    have hk : k < 31 :=
      (Nat.pow_lt_pow_iff_right Nat.one_lt_two).mp ((Nat.le_mul_of_pos_left _ hden).trans_lt hlt)
    have hlast : t.get .r7 = 31 := (hkeeps .r7 (by decide)).trans hlast
    apply (scale_turn hpc hscaled hden hcount hlast hlt).mono
    rintro u ⟨hscaled, hkeeps', hworld', ⟨hpc, hless⟩ | ⟨hpc, hcount, hlt⟩⟩
    · exact .inl ⟨hpc, hkeeps.trans hkeeps', hworld'.trans hworld, k + 1, hscaled, hless⟩
    · exact .inr ⟨31 - (k + 1), by omega, hpc, hkeeps.trans hkeeps', hworld'.trans hworld, k + 1, rfl, hscaled,
        hcount, hlt⟩
  · exact ⟨hpc, Keeps.refl _ s, rfl, k, rfl, h, hcount, hlt⟩

/-- The state of the loop that subtracts: below bit k of the quotient all is still to come, and the rest
is below m times the scaled divisor. -/
structure Dividing (n d k m : ℕ) (s : Cpu δ) : Prop where
  divisor : (s.get .r5).toNat = d * 2 ^ k
  bit : (s.get .r2).toNat = 2 ^ k
  quotient : m * 2 ^ k ∣ (s.get .r3).toNat
  sum : (s.get .r3).toNat * d + (s.get .r4).toNat = n
  rest : (s.get .r4).toNat < m * (d * 2 ^ k)

theorem or_bit {x y : Word} (hx : 2 * 2 ^ k ∣ x.toNat) (hy : y.toNat = 2 ^ k) : (x ||| y).toNat = x.toNat + 2 ^ k := by
  obtain ⟨q, hq⟩ := hx
  have hlt : 2 ^ k < 2 ^ (k + 1) := Nat.pow_lt_pow_succ Nat.one_lt_two
  have hor := Nat.two_pow_add_eq_or_of_lt hlt q
  rw [BitVec.toNat_or, hy, hq, ← Nat.pow_succ', hor]

theorem subtract_turn (hpc : s.pc = 0x8008a8) (h : Dividing n d k 2 s) :
    Leads (step code bus) (fun t => t.pc = 0x8008b4 ∧ Dividing n d k 1 t ∧ s.Keeps [.r3, .r4] t ∧
      t.world = s.world) s := by
  obtain ⟨hdivisor, hbit, hquotient, hsum, hrest⟩ := h
  apply Leads.block [.branch .ltu .r4 .r5 8] hpc (by rfl)
  by_cases hless : (s.get .r4).toNat < d * 2 ^ k
  · have hult : (s.get .r4).ult (s.get .r5) = true := by
      rw [BitVec.ult, hdivisor]
      exact decide_eq_true hless
    apply Leads.done
    refine ⟨?_, ⟨?_, ?_, ?_, ?_, ?_⟩, ?_, by simp [exec]⟩
    · simp [exec, Compare.eval, hult, link, toPc, wordOf]
    · simpa [exec] using hdivisor
    · simpa [exec] using hbit
    · rw [Nat.one_mul]
      exact (Nat.dvd_mul_left _ 2).trans (by simpa [exec] using hquotient)
    · simpa [exec] using hsum
    · simpa [exec] using hless
    · exact keeps_block (by decide) s _
  · have hult : (s.get .r4).ult (s.get .r5) = false := by
      rw [BitVec.ult, hdivisor]
      exact decide_eq_false hless
    have hsub : (s.get .r4 - s.get .r5).toNat = (s.get .r4).toNat - d * 2 ^ k := by
      rw [BitVec.toNat_sub_of_le (BitVec.le_def.mpr (hdivisor ▸ Nat.le_of_not_lt hless)), hdivisor]
    have hor := or_bit hquotient hbit
    apply Leads.block (p := 0x8008ac) [.alu .sub .r4 .r4 .r5, .alu .or .r3 .r3 .r2]
    · simp [exec, Compare.eval, hult]
    · rfl
    apply Leads.done
    refine ⟨by simp [exec], ⟨?_, ?_, ?_, ?_, ?_⟩, ?_, by simp [exec]⟩
    · simpa [exec] using hdivisor
    · simpa [exec] using hbit
    · have hdvd : 2 ^ k ∣ (s.get .r3).toNat + 2 ^ k :=
        Nat.dvd_add ((Nat.dvd_mul_left _ 2).trans hquotient) dvd_rfl
      simpa [exec, Alu.eval, hor] using hdvd
    · have hmul : ((s.get .r3).toNat + 2 ^ k) * d = (s.get .r3).toNat * d + d * 2 ^ k := by ring
      simp [exec, Alu.eval, hor, hsub, hmul]
      omega
    · simp [exec, Alu.eval, hsub]
      omega
    · exact (keeps_block (by decide) s _).trans (keeps_block (by decide) _ _)

theorem shift_turn (hpc : s.pc = 0x8008b4) (h : Dividing n d k 1 s) :
    Leads (step code bus) (fun t => s.Keeps [.r2, .r5] t ∧ t.world = s.world ∧
      ((k = 0 ∧ t.pc = 0x8008c0) ∨ ∃ l, k = l + 1 ∧ t.pc = 0x8008a8 ∧ Dividing n d l 2 t)) s := by
  obtain ⟨hdivisor, hbit, hquotient, hsum, hrest⟩ := h
  apply Leads.block [.alui .srl .r2 .r2 1, .alui .srl .r5 .r5 1, .branch .ne .r2 .zero (-24)] hpc (by rfl)
  have hhalf : (s.get .r2 >>> 1).toNat = 2 ^ k / 2 := by
    rw [BitVec.toNat_ushiftRight, hbit, Nat.shiftRight_one]
  apply Leads.done
  refine ⟨keeps_block (by decide) s _, by simp [exec], ?_⟩
  · cases k with
    | zero =>
        have hzero : s.get .r2 >>> 1 = 0#32 := by
          rw [← BitVec.toNat_inj, hhalf]
          rfl
        exact .inl ⟨rfl, by simp [exec, Alu.eval, Compare.eval, hzero]⟩
    | succ l =>
        have hpow : 2 ^ (l + 1) / 2 = 2 ^ l := by
          rw [pow_succ]
          exact Nat.mul_div_cancel _ Nat.two_pos
        have hne : s.get .r2 >>> 1 ≠ 0#32 := by
          rw [ne_eq, ← BitVec.toNat_inj, hhalf, hpow]
          exact (Nat.two_pow_pos l).ne'
        have hden : (s.get .r5).toNat / 2 = d * 2 ^ l := by
          rw [hdivisor, pow_succ, ← Nat.mul_assoc]
          exact Nat.mul_div_cancel _ Nat.two_pos
        have hdouble : 2 * (d * 2 ^ l) = d * 2 ^ (l + 1) := by ring
        refine .inr ⟨l, rfl, ?_, ⟨?_, ?_, ?_, ?_, ?_⟩⟩
        · simp [exec, Alu.eval, Compare.eval, hne, link, toPc, wordOf]
        · simpa [exec, Alu.eval, Nat.shiftRight_one] using hden
        · simpa [exec, Alu.eval, hpow] using hhalf
        · rw [Nat.one_mul, pow_succ'] at hquotient
          simpa [exec] using hquotient
        · simpa [exec] using hsum
        · rw [Nat.one_mul, ← hdouble] at hrest
          simpa [exec] using hrest

theorem subtract_loop (hpc : s.pc = 0x8008a8) (h : Dividing n d k 2 s) :
    Leads (step code bus) (fun t => t.pc = 0x8008c0 ∧ (t.get .r3).toNat = n / d ∧ (t.get .r4).toNat = n % d ∧
      s.Keeps [.r2, .r3, .r4, .r5] t ∧ t.world = s.world) s := by
  apply Leads.loop (n := k) (I := fun k t => t.pc = 0x8008a8 ∧ Dividing n d k 2 t ∧
    s.Keeps [.r2, .r3, .r4, .r5] t ∧ t.world = s.world)
  · rintro k t ⟨hpc, hdividing, hkeeps, hworld⟩
    apply (subtract_turn hpc hdividing).trans
    rintro u ⟨hpc, hdividing, hkeeps', hworld'⟩
    have hkeeps := hkeeps.trans (hkeeps'.mono (by decide))
    apply (shift_turn hpc hdividing).mono
    rintro v ⟨hkeeps', hworld'', ⟨rfl, hpc⟩ | ⟨l, rfl, hpc, hdividing⟩⟩
    · have hr3 : v.get .r3 = u.get .r3 := hkeeps' .r3 (by decide)
      have hr4 : v.get .r4 = u.get .r4 := hkeeps' .r4 (by decide)
      have hrest := hdividing.rest
      have hsum := hdividing.sum
      rw [pow_zero, Nat.mul_one, Nat.one_mul] at hrest
      refine .inl ⟨hpc, ?_, ?_, hkeeps.trans (hkeeps'.mono (by decide)), (hworld''.trans hworld').trans hworld⟩
      · rw [hr3, ← hsum, Nat.mul_comm, Nat.mul_add_div (Nat.zero_lt_of_lt hrest), Nat.div_eq_of_lt hrest, Nat.add_zero]
      · rw [hr4, ← hsum, Nat.mul_comm, Nat.mul_add_mod, Nat.mod_eq_of_lt hrest]
    · exact .inr ⟨l, Nat.lt_succ_self l, hpc, hdividing, hkeeps.trans (hkeeps'.mono (by decide)),
        (hworld''.trans hworld').trans hworld⟩
  · exact ⟨hpc, h, Keeps.refl _ s, rfl⟩

def Ready (s t : Cpu δ) : Prop :=
  t.pc = 0x8008a8 ∧ s.Keeps [.r2, .r3, .r5, .r7] t ∧ t.world = s.world ∧
    ∃ k, Dividing (s.get .r4).toNat (s.get .r5).toNat k 2 t

theorem ready_of_same {t u : Cpu δ} (hget : ∀ r, t.get r = s.get r) (hworld : t.world = s.world) (h : Ready t u) :
    Ready s u := by
  obtain ⟨hpc, hkeeps, hworld', k, hdividing⟩ := h
  rw [hget, hget] at hdividing
  exact ⟨hpc, fun r hr => (hkeeps r hr).trans (hget r), hworld'.trans hworld, k, hdividing⟩

theorem ready_unscaled (hpc : s.pc = 0x8008e0) (hlt : (s.get .r4).toNat < 2 * (s.get .r5).toNat) :
    Leads (step code bus) (Ready s) s := by
  apply Leads.block [.alui .add .r2 .zero 1, .alu .add .r3 .zero .zero, .br (-68)] hpc (by rfl)
  apply Leads.done
  refine ⟨by simp [exec, link, toPc, wordOf], keeps_block (by decide) s _, by simp [exec], 0, ?_, ?_, ?_, ?_, ?_⟩
  · simp [exec]
  · simp [exec, Alu.eval]
  · simp [exec, Alu.eval]
  · simp [exec, Alu.eval]
  · simpa [exec] using hlt

theorem ready_scaled (hpc : s.pc = 0x800878) (hd : 0 < (s.get .r5).toNat) (hlt : (s.get .r5).toNat < 2 ^ 31) :
    Leads (step code bus) (Ready s) s := by
  apply Leads.block [.alui .add .r2 .zero 1, .alu .add .r3 .zero .zero, .alui .add .r7 .zero 31, .br 12] hpc
    (by rfl)
  have hloop : Leads (step code bus) (fun t => t.pc = 0x8008a4 ∧ s.Keeps [.r2, .r3, .r5, .r7] t ∧ t.world = s.world ∧
      ∃ k, Scaled (s.get .r4).toNat (s.get .r5).toNat k t ∧ (s.get .r4).toNat < 2 * ((s.get .r5).toNat * 2 ^ k))
      ([Instr.alui .add .r2 .zero 1, .alu .add .r3 .zero .zero, .alui .add .r7 .zero 31, .br 12].foldl (exec bus)
        (s.goto 0x800878)) := by
    apply (scale_loop (n := (s.get .r4).toNat) (k := 0) _ _ hd _ _ (by simpa using hlt)).mono
    · rintro t ⟨hpc, hkeeps, hworld, hscaled⟩
      refine ⟨hpc, ?_, by simpa [exec] using hworld, hscaled⟩
      exact (keeps_block (by decide) s _).trans (hkeeps.mono (by decide))
    · simp [exec, link, toPc, wordOf]
    · constructor <;> simp [exec, Alu.eval]
    · simp [exec, Alu.eval]
    · simp [exec, Alu.eval]
  apply hloop.trans
  rintro t ⟨hpc, hkeeps, hworld, k, ⟨hrest, hdivisor, hbit⟩, hlt⟩
  apply Leads.block [.alu .add .r3 .zero .zero] hpc (by rfl)
  apply Leads.done
  refine ⟨by simp [exec], ?_, by simpa [exec] using hworld, k, ?_, ?_, ?_, ?_, ?_⟩
  · exact hkeeps.trans (keeps_block (by decide) t _)
  · simpa [exec] using hdivisor
  · simpa [exec] using hbit
  · simp [exec, Alu.eval]
  · simpa [exec, Alu.eval] using hrest
  · simpa [exec, hrest] using hlt

theorem ready (hpc : s.pc = 0x800870) (hd : s.get .r5 ≠ 0) : Leads (step code bus) (Ready s) s := by
  have hpos : 0 < (s.get .r5).toNat := Nat.pos_of_ne_zero fun hzero => hd (BitVec.toNat_inj.mp hzero)
  have hn : (s.get .r4).toNat < 2 ^ 32 := (s.get .r4).isLt
  apply Leads.block [.branch .geu .r5 .r4 108] hpc (by rfl)
  by_cases hle : (s.get .r4).toNat ≤ (s.get .r5).toNat
  · have hule : (s.get .r4).ule (s.get .r5) = true := decide_eq_true hle
    apply (ready_unscaled _ _).mono
    · exact fun u => ready_of_same (by simp [exec]) (by simp [exec])
    · simp [exec, Compare.eval, hule, link, toPc, wordOf]
    · simp [exec]
      omega
  have hule : (s.get .r4).ule (s.get .r5) = false := decide_eq_false hle
  apply Leads.block (p := 0x800874) [.branch .lt .r5 .zero 104]
  · simp [exec, Compare.eval, hule]
  · rfl
  by_cases hmsb : 2 ^ 31 ≤ (s.get .r5).toNat
  · have hslt : (s.get .r5).slt 0#32 = true := by
      rw [slt_zero]
      exact decide_eq_true hmsb
    apply (ready_unscaled _ _).mono
    · exact fun u => ready_of_same (by simp [exec]) (by simp [exec])
    · simp [exec, Compare.eval, hslt, link, toPc, wordOf]
    · simp [exec]
      omega
  · have hslt : (s.get .r5).slt 0#32 = false := by
      rw [slt_zero]
      exact decide_eq_false hmsb
    apply (ready_scaled _ _ _).mono
    · exact fun u => ready_of_same (by simp [exec]) (by simp [exec])
    · simp [exec, Compare.eval, hslt]
    · simpa [exec] using hpos
    · simpa [exec] using hmsb

theorem udivmodsi4_spec (hpc : s.pc = 0x800870) (hd : s.get .r5 ≠ 0) :
    Leads (step code bus) (fun t => t.pc = toPc (s.get .ra) ∧
      t.get .r2 = (if s.get .r6 = 0#32 then s.get .r4 / s.get .r5 else s.get .r4 % s.get .r5) ∧
      s.Keeps [.r2, .r3, .r4, .r5, .r7] t ∧ t.world = s.world) s := by
  apply (ready hpc hd).trans
  rintro t ⟨hpc, hkeeps, hworld, k, hdividing⟩
  apply (subtract_loop hpc hdividing).trans
  rintro u ⟨hpc, hquotient, hrest, hkeeps', hworld'⟩
  have hkeeps : s.Keeps [.r2, .r3, .r4, .r5, .r7] u := (hkeeps.mono (by decide)).trans (hkeeps'.mono (by decide))
  have hra : u.get .ra = s.get .ra := hkeeps .ra (by decide)
  have hr6 : u.get .r6 = s.get .r6 := hkeeps .r6 (by decide)
  have hr3 : u.get .r3 = s.get .r4 / s.get .r5 := BitVec.toNat_inj.mp (hquotient.trans BitVec.toNat_udiv.symm)
  have hr4 : u.get .r4 = s.get .r4 % s.get .r5 := BitVec.toNat_inj.mp (hrest.trans BitVec.toNat_umod.symm)
  have hworld := hworld'.trans hworld
  apply Leads.block [.branch .eq .r6 .zero 8] hpc (by rfl)
  by_cases hmod : s.get .r6 = 0#32
  · apply Leads.block (p := 0x8008cc) [.alu .add .r4 .r3 .zero, .alu .add .r2 .r4 .zero, .jmp .ra]
    · simp [exec, Compare.eval, hr6, hmod, link, toPc, wordOf]
    · rfl
    apply Leads.done
    refine ⟨by simp [exec, hra], by simp [exec, Alu.eval, hmod, hr3], ?_, by simpa [exec] using hworld⟩
    exact hkeeps.trans ((keeps_block (by decide) u _).trans (keeps_block (by decide) _ _))
  · apply Leads.block (p := 0x8008c4) [.alu .add .r2 .r4 .zero, .jmp .ra]
    · simp [exec, Compare.eval, hr6, hmod]
    · rfl
    apply Leads.done
    refine ⟨by simp [exec, hra], by simp [exec, Alu.eval, hmod, hr4], ?_, by simpa [exec] using hworld⟩
    exact hkeeps.trans ((keeps_block (by decide) u _).trans (keeps_block (by decide) _ _))

theorem udivsi3_spec (hpc : s.pc = 0x8009ac) (hd : s.get .r5 ≠ 0) :
    Leads (step code bus) (fun t => t.pc = toPc (s.get .ra) ∧ t.get .r2 = s.get .r4 / s.get .r5 ∧
      s.Keeps [.r2, .r3, .r4, .r5, .r6, .r7] t ∧ t.world = s.world) s := by
  apply Leads.block [.alu .add .r6 .zero .zero, .jmpi 0x800870] hpc (by rfl)
  apply (udivmodsi4_spec (by simp [exec, toPc, wordOf]) (by simpa [exec] using hd)).mono
  rintro t ⟨hpc, hr2, hkeeps, hworld⟩
  refine ⟨by simpa [exec] using hpc, by simpa [exec, Alu.eval] using hr2, ?_, by simpa [exec] using hworld⟩
  exact (keeps_block (by decide) s _).trans (hkeeps.mono (by decide))

theorem umodsi3_spec (hpc : s.pc = 0x8009b4) (hd : s.get .r5 ≠ 0) :
    Leads (step code bus) (fun t => t.pc = toPc (s.get .ra) ∧ t.get .r2 = s.get .r4 % s.get .r5 ∧
      s.Keeps [.r2, .r3, .r4, .r5, .r6, .r7] t ∧ t.world = s.world) s := by
  apply Leads.block [.alui .add .r6 .zero 1, .jmpi 0x800870] hpc (by rfl)
  apply (udivmodsi4_spec (by simp [exec, toPc, wordOf]) (by simpa [exec] using hd)).mono
  rintro t ⟨hpc, hr2, hkeeps, hworld⟩
  refine ⟨by simpa [exec] using hpc, by simpa [exec, Alu.eval] using hr2, ?_, by simpa [exec] using hworld⟩
  exact (keeps_block (by decide) s _).trans (hkeeps.mono (by decide))

/-- The division that the processor lacks: whatever the operands and whatever the bus, both routines come
back with the exact result, and leave the memory, the devices and the saved registers alone. -/
theorem compiled_division_exact (hd : s.get .r5 ≠ 0) :
    (s.pc = 0x8009ac → Leads (step code bus) (fun t => t.pc = toPc (s.get .ra) ∧
      t.get .r2 = s.get .r4 / s.get .r5 ∧ s.Keeps [.r2, .r3, .r4, .r5, .r6, .r7] t ∧ t.world = s.world) s) ∧
    (s.pc = 0x8009b4 → Leads (step code bus) (fun t => t.pc = toPc (s.get .ra) ∧
      t.get .r2 = s.get .r4 % s.get .r5 ∧ s.Keeps [.r2, .r3, .r4, .r5, .r6, .r7] t ∧ t.world = s.world) s) :=
  ⟨fun hpc => udivsi3_spec hpc hd, fun hpc => umodsi3_spec hpc hd⟩

-- a divisor that is scaled until its upper bit is set
theorem large_dividend_divided : Leads (step code ⟨fun _ => false, fun _ _ => 0, fun d _ _ _ => d, fun _ => 0⟩)
    (fun t => t.pc = 0x8001e0 ∧ t.get .r2 = 429496729)
    (Cpu.mk (δ := Unit) 0x8009ac (fun r => if r = .r4 then 4294967295 else if r = .r5 then 10 else 0x8001e0)
      ⟨fun _ => 0, (), true, false, 7⟩) := by
  apply ((compiled_division_exact (by decide)).1 rfl).mono
  rintro t ⟨hpc, hr2, -⟩
  exact ⟨hpc, hr2⟩

end Montre.Compiled
