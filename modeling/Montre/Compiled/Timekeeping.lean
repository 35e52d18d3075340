import Montre.Compiled.Layout

namespace Montre.Compiled

open Montre.Library Nios2 Cpu Montre.Hardware

open Montre.Firmware hiding exec

theorem setWidth_and_255 (b : BitVec 8) : (b.setWidth 32 + 1#32) &&& 255#32 = (b + 1#8).setWidth 32 := by
  have hb := b.isLt
  apply BitVec.eq_of_toNat_eq
  rw [BitVec.toNat_and, BitVec.toNat_add, BitVec.toNat_setWidth, BitVec.toNat_setWidth, BitVec.toNat_add]
  change (b.toNat % 2 ^ 32 + 1) % 2 ^ 32 &&& (2 ^ 8 - 1) = (b.toNat + 1) % 2 ^ 8 % 2 ^ 32
  rw [Nat.and_two_pow_sub_one_eq_mod]
  omega

theorem setWidth_add_one (b : BitVec 8) : (b.setWidth 32 + 1#32).setWidth 8 = b + 1#8 := by
  rw [BitVec.setWidth_add _ _ (by decide)]
  simp

theorem setWidth_ule (b : BitVec 8) {k : ℕ} (hk : k < 2 ^ 32) :
    (b.setWidth 32).ule (BitVec.ofNat 32 k) = decide (b.toNat ≤ k) := by
  have hb := b.isLt
  rw [BitVec.ule, BitVec.toNat_setWidth, BitVec.toNat_ofNat, Nat.mod_eq_of_lt hk, Nat.mod_eq_of_lt (by omega)]

theorem setWidth_inj {b c : BitVec 8} : b.setWidth 32 = c.setWidth 32 ↔ b = c := by
  rw [← BitVec.toNat_inj, ← BitVec.toNat_inj, BitVec.toNat_setWidth_of_le (by decide),
    BitVec.toNat_setWidth_of_le (by decide)]

variable {s : Cpu Io} {w : Watch}

section Stores

variable {m : BitVec 25 → BitVec 8} (h : Represents m w) (x : UInt8)
include h

theorem store_secondes : Represents (Function.update m 0x80F370 x.toBitVec)
    { w with gHorloge := { w.gHorloge with secondes := x } } :=
  h.store .secondes rfl (fun u hu => by cases u <;> first | rfl | exact absurd rfl hu) rfl

theorem store_minutes : Represents (Function.update m 0x80F36F x.toBitVec)
    { w with gHorloge := { w.gHorloge with minutes := x } } :=
  h.store .minutes rfl (fun u hu => by cases u <;> first | rfl | exact absurd rfl hu) rfl

theorem store_heures : Represents (Function.update m 0x80F36E x.toBitVec)
    { w with gHorloge := { w.gHorloge with heures := x } } :=
  h.store .heures rfl (fun u hu => by cases u <;> first | rfl | exact absurd rfl hu) rfl

end Stores

/-- The comparisons of the source against those of the compiler. -/
theorem ite_ge {α : Type} (x : UInt8) {k : ℕ} {l : UInt8} (hl : l.toNat = k + 1) (c d : α) :
    (if x ≥ l then c else d) = if x.toBitVec.toNat ≤ k then d else c := by
  have hge : x ≥ l ↔ ¬ x.toBitVec.toNat ≤ k := by
    rw [ge_iff_le, UInt8.le_iff_toNat_le, hl, Nat.not_le]
    rfl
  rw [if_congr hge rfl rfl, ite_not]

structure Advanced (w : Watch) (h : Horloge) (s t : Cpu Io) : Prop where
  world : t.world = { s.world with mem := t.world.mem }
  represents : Represents t.world.mem { w with gHorloge := h }
  spares : Set.EqOn t.world.mem s.world.mem globalsᶜ

theorem Advanced.trans {h h' : Horloge} {t u : Cpu Io} (hst : Advanced w h s t)
    (htu : Advanced { w with gHorloge := h } h' t u) : Advanced w h' s u :=
  ⟨by rw [htu.world, hst.world], htu.represents, htu.spares.trans hst.spares⟩

theorem advance_secondes (hpc : s.pc = 0x800614) :
    Leads (step code io) (fun t => t.pc = (if (s.world.mem 0x80F370 + 1).toNat ≤ 59 then 0x800670 else 0x800638) ∧
      t.get .r3 = 0x80F370 ∧ t.get .r4 = 1 ∧ t.get .r5 = 59 ∧ s.Keeps [.r2, .r3, .r4, .r5] t ∧
      t.world = { s.world with mem := Function.update s.world.mem 0x80F370 (s.world.mem 0x80F370 + 1) }) s := by
  apply Leads.block [.alui .or .r3 .zero 0x810000, .alui .add .r3 .r3 (-3216), .alui .add .r4 .zero 1, .ldbu .r2 .r3 0,
    .alu .add .r2 .r2 .r4, .stb .r2 .r3 0, .alui .and .r2 .r2 255, .alui .add .r5 .zero 59,
    .branch .geu .r5 .r2 56] hpc (by rfl)
  apply Leads.done
  refine ⟨?_, ?_, ?_, ?_, ?_, ?_⟩
  · simp [exec, Alu.eval, Compare.eval, byteOf, setWidth_and_255, setWidth_ule, link, toPc, wordOf]
  · simp [exec, Alu.eval]
  · simp [exec, Alu.eval]
  · simp [exec, Alu.eval]
  · exact keeps_block (by decide) s _
  · simp [exec, Alu.eval, byteOf, setWidth_add_one]

theorem advance_secondes_spec (hpc : s.pc = 0x800614) (hw : Represents s.world.mem w) :
    Leads (step code io) (fun t => t.pc = (if w.gHorloge.secondes + 1 ≥ 60 then 0x800638 else 0x800670) ∧
      t.get .r3 = 0x80F370 ∧ t.get .r4 = 1 ∧ t.get .r5 = 59 ∧ s.Keeps [.r2, .r3, .r4, .r5] t ∧
      Advanced w { w.gHorloge with secondes := w.gHorloge.secondes + 1 } s t) s := by
  have hsecondes : s.world.mem 0x80F370 + 1 = (w.gHorloge.secondes + 1).toBitVec := by
    rw [show s.world.mem 0x80F370 = w.gHorloge.secondes.toBitVec from hw.byte .secondes]
    rfl
  apply (advance_secondes hpc).mono
  rintro t ⟨hpc, hr3, hr4, hr5, hkeeps, hworld⟩
  have hmem := congrArg World.mem hworld
  rw [hsecondes] at hpc hmem
  refine ⟨?_, hr3, hr4, hr5, hkeeps, by rw [hworld], ?_, ?_⟩
  · rw [hpc, ite_ge _ (k := 59) rfl]
  · rw [hmem]
    exact store_secondes hw _
  · rw [hmem]
    exact eqOn_update (address_mem .secondes) _

theorem advance_minutes (hpc : s.pc = 0x800638) (hr3 : s.get .r3 = 0x80F370#32) (hr4 : s.get .r4 = 1#32)
    (hr5 : s.get .r5 = 59#32) :
    Leads (step code io) (fun t => t.pc = (if (s.world.mem 0x80F36F + 1).toNat ≤ 59 then 0x800670 else 0x800650) ∧
      s.Keeps [.r2] t ∧
      t.world = { s.world with
        mem := Function.update (Function.update s.world.mem 0x80F370 0) 0x80F36F (s.world.mem 0x80F36F + 1) }) s := by
  apply Leads.block [.stb .zero .r3 0, .ldbu .r2 .r3 (-1), .alu .add .r2 .r2 .r4, .stb .r2 .r3 (-1),
    .alui .and .r2 .r2 255, .branch .geu .r5 .r2 32] hpc (by rfl)
  apply Leads.done
  refine ⟨?_, ?_, ?_⟩
  · simp [exec, Alu.eval, Compare.eval, byteOf, hr3, hr4, hr5, setWidth_and_255, setWidth_ule, link, toPc, wordOf]
  · exact keeps_block (by decide) s _
  · simp [exec, Alu.eval, byteOf, hr3, hr4, setWidth_add_one]

theorem advance_minutes_spec (hpc : s.pc = 0x800638) (hr3 : s.get .r3 = 0x80F370#32) (hr4 : s.get .r4 = 1#32)
    (hr5 : s.get .r5 = 59#32) (hw : Represents s.world.mem w) :
    Leads (step code io) (fun t => t.pc = (if w.gHorloge.minutes + 1 ≥ 60 then 0x800650 else 0x800670) ∧
      s.Keeps [.r2] t ∧
      Advanced w { w.gHorloge with minutes := w.gHorloge.minutes + 1, secondes := 0 } s t) s := by
  have hminutes : s.world.mem 0x80F36F + 1 = (w.gHorloge.minutes + 1).toBitVec := by
    rw [show s.world.mem 0x80F36F = w.gHorloge.minutes.toBitVec from hw.byte .minutes]
    rfl
  apply (advance_minutes hpc hr3 hr4 hr5).mono
  rintro t ⟨hpc, hkeeps, hworld⟩
  have hmem := congrArg World.mem hworld
  rw [hminutes] at hpc hmem
  refine ⟨?_, hkeeps, by rw [hworld], ?_, ?_⟩
  · rw [hpc, ite_ge _ (k := 59) rfl]
  · rw [hmem]
    exact store_minutes (store_secondes hw 0) _
  · rw [hmem]
    exact (eqOn_update (address_mem .minutes) _).trans (eqOn_update (address_mem .secondes) _)

theorem advance_heures (hpc : s.pc = 0x800650) (hgp : s.get .gp = 0x8158C0#32) (hr3 : s.get .r3 = 0x80F370#32)
    (hr4 : s.get .r4 = 1#32) :
    Leads (step code io) (fun t => t.pc = 0x800670 ∧ s.Keeps [.r2, .r3] t ∧
      t.world = { s.world with
        mem := Function.update (Function.update s.world.mem 0x80F36F 0) 0x80F36E
          (if (s.world.mem 0x80F36E + 1).toNat ≤ 23 then s.world.mem 0x80F36E + 1 else 0) }) s := by
  apply Leads.block [.stb .zero .r3 (-1), .ldbu .r2 .gp (-25938), .alu .add .r2 .r2 .r4, .stb .r2 .gp (-25938),
    .alui .and .r2 .r2 255, .alui .add .r3 .zero 23, .branch .geu .r3 .r2 4] hpc (by rfl)
  by_cases hle : (s.world.mem 0x80F36E + 1).toNat ≤ 23
  · apply Leads.done
    have hule : ((s.world.mem 0x80F36E#25 + 1#8).setWidth 32).ule 23#32 = true := by
      rw [setWidth_ule _ (by decide)]
      exact decide_eq_true hle
    refine ⟨?_, ?_, ?_⟩
    · simp [exec, Alu.eval, Compare.eval, byteOf, hr3, hr4, hgp, setWidth_and_255, hule, link, toPc, wordOf]
    · exact keeps_block (by decide) s _
    · rw [if_pos hle]
      simp [exec, Alu.eval, byteOf, hr3, hr4, hgp, setWidth_add_one]
  · have hule : ((s.world.mem 0x80F36E#25 + 1#8).setWidth 32).ule 23#32 = false := by
      rw [setWidth_ule _ (by decide)]
      exact decide_eq_false hle
    apply Leads.block (p := 0x80066c) [.stb .zero .gp (-25938)]
    · simp [exec, Alu.eval, Compare.eval, byteOf, hr3, hr4, hgp, setWidth_and_255, hule]
    · rfl
    apply Leads.done
    refine ⟨by simp [exec], ?_, ?_⟩
    · exact (keeps_block (by decide) s _).trans (keeps_block (by decide) _ _)
    · rw [if_neg hle]
      simp [exec, Alu.eval, byteOf, hr3, hr4, hgp, setWidth_add_one]

theorem advance_heures_spec (hpc : s.pc = 0x800650) (hgp : s.get .gp = 0x8158C0#32) (hr3 : s.get .r3 = 0x80F370#32)
    (hr4 : s.get .r4 = 1#32) (hw : Represents s.world.mem w) :
    Leads (step code io) (fun t => t.pc = 0x800670 ∧ s.Keeps [.r2, .r3] t ∧
      Advanced w { w.gHorloge with
        heures := if w.gHorloge.heures + 1 ≥ 24 then 0 else w.gHorloge.heures + 1
        minutes := 0 } s t) s := by
  have hheures : s.world.mem 0x80F36E + 1 = (w.gHorloge.heures + 1).toBitVec := by
    rw [show s.world.mem 0x80F36E = w.gHorloge.heures.toBitVec from hw.byte .heures]
    rfl
  have hstored : (if (w.gHorloge.heures + 1).toBitVec.toNat ≤ 23 then (w.gHorloge.heures + 1).toBitVec else 0) =
      (if w.gHorloge.heures + 1 ≥ 24 then 0 else w.gHorloge.heures + 1).toBitVec := by
    rw [ite_ge _ (k := 23) rfl]
    split_ifs <;> rfl
  apply (advance_heures hpc hgp hr3 hr4).mono
  rintro t ⟨hpc, hkeeps, hworld⟩
  have hmem := congrArg World.mem hworld
  rw [hheures, hstored] at hmem
  refine ⟨hpc, hkeeps, by rw [hworld], ?_, ?_⟩
  · rw [hmem]
    exact store_heures (store_minutes hw 0) _
  · rw [hmem]
    exact (eqOn_update (address_mem .heures) _).trans (eqOn_update (address_mem .minutes) _)

theorem advance_spec (hpc : s.pc = 0x800614) (hgp : s.get .gp = 0x8158C0#32) (hw : Represents s.world.mem w) :
    Leads (step code io) (fun t => t.pc = 0x800670 ∧ s.Keeps [.r2, .r3, .r4, .r5] t ∧
      Advanced w w.gHorloge.advance s t) s := by
  apply (advance_secondes_spec hpc hw).trans
  rintro t ⟨hpc, hr3, hr4, hr5, hkeeps, h⟩
  by_cases hsecondes : w.gHorloge.secondes + 1 ≥ 60
  · rw [if_pos hsecondes] at hpc
    apply (advance_minutes_spec hpc hr3 hr4 hr5 h.represents).trans
    rintro u ⟨hpc, hkeeps', h'⟩
    replace h' := h.trans h'
    replace hkeeps := hkeeps.trans (hkeeps'.mono (by decide))
    by_cases hminutes : w.gHorloge.minutes + 1 ≥ 60
    · rw [if_pos hminutes] at hpc
      have hadvance : w.gHorloge.advance =
          ⟨if w.gHorloge.heures + 1 ≥ 24 then 0 else w.gHorloge.heures + 1, 0, 0⟩ := by
        simp only [Horloge.advance, if_pos hsecondes, if_pos hminutes]
        split_ifs <;> rfl
      have hgp' : u.get .gp = 0x8158C0#32 := (hkeeps .gp (by decide)).trans hgp
      apply (advance_heures_spec hpc hgp' ((hkeeps' .r3 (by decide)).trans hr3) ((hkeeps' .r4 (by decide)).trans hr4)
        h'.represents).mono
      rintro v ⟨hpc, hkeeps'', h''⟩
      rw [hadvance]
      exact ⟨hpc, hkeeps.trans (hkeeps''.mono (by decide)), h'.trans h''⟩
    · rw [if_neg hminutes] at hpc
      have hadvance : w.gHorloge.advance = ⟨w.gHorloge.heures, w.gHorloge.minutes + 1, 0⟩ := by
        simp only [Horloge.advance, if_pos hsecondes, if_neg hminutes]
      rw [hadvance]
      exact Leads.done ⟨hpc, hkeeps, h'⟩
  · rw [if_neg hsecondes] at hpc
    have hadvance : w.gHorloge.advance = ⟨w.gHorloge.heures, w.gHorloge.minutes, w.gHorloge.secondes + 1⟩ := by
      simp only [Horloge.advance, if_neg hsecondes]
    rw [hadvance]
    exact Leads.done ⟨hpc, hkeeps, h⟩

theorem setWidth_bne (x y : UInt8) :
    ((x.toBitVec.setWidth 32) != (y.toBitVec.setWidth 32)) = decide (x ≠ y) := by
  rw [Bool.eq_iff_iff, bne_iff_ne, decide_eq_true_iff, ne_eq, setWidth_inj, UInt8.toBitVec_inj]

theorem test_running (hpc : s.pc = 0x800670) (hw : Represents s.world.mem w) :
    Leads (step code io) (fun t => t.pc = (if w.gMinut.running then 0x800680 else 0x8006e0) ∧
      t.get .r4 = 0x80F363 ∧ s.Keeps [.r2, .r4] t ∧ t.world = s.world) s := by
  have hrunning : s.world.mem 0x80F363#25 = (BitVec.ofBool w.gMinut.running).setWidth 8 := hw.byte .alarmRunning
  apply Leads.block [.alui .or .r4 .zero 0x810000, .alui .add .r4 .r4 (-3229), .ldbu .r2 .r4 0,
    .branch .eq .r2 .zero 96] hpc (by rfl)
  apply Leads.done
  refine ⟨?_, by simp [exec, Alu.eval], keeps_block (by decide) s _, by simp [exec]⟩
  cases hr : w.gMinut.running with
  | false => simp [exec, Alu.eval, Compare.eval, byteOf, hrunning, hr, link, toPc, wordOf]
  | true => simp [exec, Alu.eval, Compare.eval, byteOf, hrunning, hr]

theorem test_instant (hpc : s.pc = 0x800680) (hgp : s.get .gp = 0x8158C0#32) (hr4 : s.get .r4 = 0x80F363#32)
    (hw : Represents s.world.mem w) :
    Leads (step code io) (fun t => t.pc = (if w.gMinut.heures = w.gHorloge.heures ∧
        w.gMinut.minutes = w.gHorloge.minutes ∧ w.gMinut.secondes = w.gHorloge.secondes then 0x8006ac else 0x8006e0) ∧
      t.get .r6 = 0x80F360 ∧ s.Keeps [.r2, .r3, .r5, .r6] t ∧ t.world = s.world) s := by
  have hah : s.world.mem 0x80F360#25 = w.gMinut.heures.toBitVec := hw.byte .alarmHeures
  have ham : s.world.mem 0x80F361#25 = w.gMinut.minutes.toBitVec := hw.byte .alarmMinutes
  have has : s.world.mem 0x80F362#25 = w.gMinut.secondes.toBitVec := hw.byte .alarmSecondes
  have hh : s.world.mem 0x80F36E#25 = w.gHorloge.heures.toBitVec := hw.byte .heures
  have hm : s.world.mem 0x80F36F#25 = w.gHorloge.minutes.toBitVec := hw.byte .minutes
  have hs : s.world.mem 0x80F370#25 = w.gHorloge.secondes.toBitVec := hw.byte .secondes
  apply Leads.block [.alui .add .r6 .r4 (-3), .alui .add .r5 .gp (-25938), .ldbu .r3 .gp (-25952),
    .ldbu .r2 .gp (-25938), .branch .ne .r3 .r2 76] hpc (by rfl)
  by_cases hheures : w.gMinut.heures = w.gHorloge.heures
  · apply Leads.block (p := 0x800694) [.ldbu .r3 .r6 1, .ldbu .r2 .r5 1, .branch .ne .r3 .r2 64]
    · simp [exec, Alu.eval, Compare.eval, byteOf, hgp, hr4, hah, hh, hheures]
    · rfl
    by_cases hminutes : w.gMinut.minutes = w.gHorloge.minutes
    · apply Leads.block (p := 0x8006a0) [.ldbu .r3 .r6 2, .ldbu .r2 .r5 2, .branch .ne .r3 .r2 52]
      · simp [exec, Alu.eval, Compare.eval, byteOf, hgp, hr4, ham, hm, hminutes]
      · rfl
      apply Leads.done
      refine ⟨?_, by simp [exec, Alu.eval, hr4], ?_, by simp [exec]⟩
      · by_cases hsecondes : w.gMinut.secondes = w.gHorloge.secondes
        · simp [exec, Alu.eval, Compare.eval, byteOf, hgp, hr4, has, hs, hheures, hminutes, hsecondes]
        · simp [exec, Alu.eval, Compare.eval, byteOf, hgp, hr4, has, hs, setWidth_bne, hheures, hminutes, hsecondes,
            link, toPc, wordOf]
      · exact ((keeps_block (by decide) s _).trans (keeps_block (by decide) _ _)).trans (keeps_block (by decide) _ _)
    · apply Leads.done
      refine ⟨?_, by simp [exec, Alu.eval, hr4], ?_, by simp [exec]⟩
      · simp [exec, Alu.eval, Compare.eval, byteOf, hgp, hr4, ham, hm, setWidth_bne, hminutes, link, toPc, wordOf]
      · exact (keeps_block (by decide) s _).trans (keeps_block (by decide) _ _)
  · apply Leads.done
    refine ⟨?_, by simp [exec, Alu.eval, hr4], keeps_block (by decide) s _, by simp [exec]⟩
    simp [exec, Alu.eval, Compare.eval, byteOf, hgp, hr4, hah, hh, setWidth_bne, hheures, link, toPc, wordOf]

theorem alarm_fires (hpc : s.pc = 0x8006ac) (hgp : s.get .gp = 0x8158C0#32) (hr4 : s.get .r4 = 0x80F363#32)
    (hr6 : s.get .r6 = 0x80F360#32) :
    Leads (step code io) (fun t => t.pc = 0x8006e0 ∧ s.Keeps [.r2, .r3] t ∧ t.world = { s.world with
      mem := Function.update (Function.update (storeWord s.world.mem 0x203CDA#23 2) 0x80F363 0) 0x80F364 1
      dev := s.world.dev.emit [⟨.ledg, 4⟩, ⟨.alarmBell0, 1⟩] }) s := by
  have hledg (u : World Io) (v : Word) := storeW_iowr (w := u) (v := v) (x := 0x1003020#32) (b := .ledg) rfl (by decide)
  have hbell (u : World Io) (v : Word) :=
    storeW_iowr (w := u) (v := v) (x := 0x100307C#32) (b := .alarmBell0) rfl (by decide)
  apply Leads.block [.alui .add .r2 .zero 2, .stw .r2 .gp (-25944), .alui .add .r3 .zero 4,
    .alui .or .r2 .zero 0x1000000, .alui .add .r2 .r2 12320, .stw .r3 .r2 0, .stb .zero .r4 0, .alui .add .r2 .zero 1,
    .stb .r2 .r6 4, .alui .add .r3 .zero 1, .alui .or .r2 .zero 0x1000000, .alui .add .r2 .r2 12412,
    .stw .r3 .r2 0] hpc (by rfl)
  apply Leads.done
  refine ⟨by simp [exec], keeps_block (by decide) s _, ?_⟩
  simp [exec, Alu.eval, byteOf, wordOf, hgp, hr4, hr6, hledg, hbell]

theorem store_alarm {m : BitVec 25 → BitVec 8} (h : Represents m w) :
    Represents (Function.update (Function.update (storeWord m 0x203CDA#23 2) 0x80F363 0) 0x80F364 1)
      { w with gMode := .minuterie, gMinut := { w.gMinut with running := false, alarmActive := true } } := by
  have hmode : Represents (storeWord m 0x203CDA#23 2) { w with gMode := .minuterie } := h.storeMode rfl
  have hrunning : Represents (Function.update (storeWord m 0x203CDA#23 2) 0x80F363 0)
      { w with gMode := .minuterie, gMinut := { w.gMinut with running := false } } :=
    hmode.store .alarmRunning rfl (fun u hu => by cases u <;> first | rfl | exact absurd rfl hu) rfl
  exact hrunning.store .alarmActive rfl (fun u hu => by cases u <;> first | rfl | exact absurd rfl hu) rfl

/-- What `updateAllTime1s` does once the time of day has gone on. -/
def checkAlarm : Routine := fun w =>
  if w.gMinut.running ∧ w.gMinut.heures = w.gHorloge.heures ∧ w.gMinut.minutes = w.gHorloge.minutes ∧
      w.gMinut.secondes = w.gHorloge.secondes then
    ({ w with gMode := .minuterie, gMinut := { w.gMinut with running := false, alarmActive := true } },
      [⟨.ledg, 0x4⟩, ⟨.alarmBell0, flag true⟩])
  else (w, [])

theorem updateAllTime1s_eq (w : Watch) : updateAllTime1s w = checkAlarm { w with gHorloge := w.gHorloge.advance } := rfl

theorem check_alarm_spec (hpc : s.pc = 0x800670) (hgp : s.get .gp = 0x8158C0#32) (hw : Represents s.world.mem w) :
    Leads (step code io) (fun t => t.pc = 0x8006e0 ∧ s.Keeps [.r2, .r3, .r4, .r5, .r6] t ∧
      t.world = { s.world with mem := t.world.mem, dev := s.world.dev.emit (checkAlarm w).2 } ∧
      Represents t.world.mem (checkAlarm w).1 ∧ Set.EqOn t.world.mem s.world.mem globalsᶜ) s := by
  have hquiet {t : Cpu Io} (hno : ¬ (w.gMinut.running = true ∧ w.gMinut.heures = w.gHorloge.heures ∧
      w.gMinut.minutes = w.gHorloge.minutes ∧ w.gMinut.secondes = w.gHorloge.secondes)) (ht : t.world = s.world) :
      t.world = { s.world with mem := t.world.mem, dev := s.world.dev.emit (checkAlarm w).2 } ∧
        Represents t.world.mem (checkAlarm w).1 ∧ Set.EqOn t.world.mem s.world.mem globalsᶜ := by
    rw [checkAlarm, if_neg hno, ht]
    exact ⟨by simp, hw, Set.eqOn_refl _ _⟩
  apply (test_running hpc hw).trans
  rintro t ⟨hpc, hr4, hkeeps, ht⟩
  by_cases hrunning : w.gMinut.running = true
  · rw [if_pos hrunning] at hpc
    apply (test_instant hpc ((hkeeps .gp (by decide)).trans hgp) hr4 (ht ▸ hw)).trans
    rintro u ⟨hpc, hr6, hkeeps', hu⟩
    have hr4' : u.get .r4 = 0x80F363#32 := (hkeeps' .r4 (by decide)).trans hr4
    replace hkeeps : s.Keeps [.r2, .r3, .r4, .r5, .r6] u := (hkeeps.mono (by decide)).trans (hkeeps'.mono (by decide))
    split_ifs at hpc with hinstant
    · have hfires := And.intro hrunning hinstant
      apply (alarm_fires hpc ((hkeeps .gp (by decide)).trans hgp) hr4' hr6).mono
      rintro v ⟨hpc, hkeeps', hv⟩
      rw [hu, ht] at hv
      have hmem := congrArg World.mem hv
      have hmode := eqOn_storeWord (m := s.world.mem) (fun x hx => mem_globals_of_word hx) 2
      rw [checkAlarm, if_pos hfires]
      refine ⟨hpc, hkeeps.trans (hkeeps'.mono (by decide)), by rw [hv]; rfl, ?_, ?_⟩
      · rw [hmem]
        exact store_alarm hw
      · rw [hmem]
        exact ((eqOn_update (address_mem .alarmActive) _).trans (eqOn_update (address_mem .alarmRunning) _)).trans hmode
    · exact Leads.done ⟨hpc, hkeeps, hquiet (fun h => hinstant h.2) (hu.trans ht)⟩
  · rw [if_neg hrunning] at hpc
    exact Leads.done ⟨hpc, hkeeps.mono (by decide), hquiet (fun h => hrunning h.1) ht⟩

theorem update_all_time_1s_performs (hpc : s.pc = 0x800614) (hgp : s.get .gp = 0x8158C0#32)
    (hw : Represents s.world.mem w) :
    Leads (step code io) (Performs updateAllTime1s w [.r2, .r3, .r4, .r5, .r6] globals s) s := by
  apply (advance_spec hpc hgp hw).trans
  rintro t ⟨hpc, hkeeps, hworld, hw', hspares⟩
  apply (check_alarm_spec hpc ((hkeeps .gp (by decide)).trans hgp) hw').trans
  rintro u ⟨hpc, hkeeps', hworld', hrepresents, hspares'⟩
  replace hkeeps := (hkeeps.mono (by decide)).trans hkeeps'
  rw [← updateAllTime1s_eq] at hworld' hrepresents
  apply Leads.block [.jmp .ra] hpc (by rfl)
  apply Leads.done
  constructor
  · simp [exec, hkeeps .ra]
  · exact hkeeps.trans (keeps_block (by decide) u _)
  · rw [hworld] at hworld'
    simpa [exec] using hworld'
  · simpa [exec] using hrepresents
  · simpa [exec] using hspares'.trans hspares

/-- The compiled `update_all_time_1s` does what the source says, from every state of the processor: its IOWRs
are all that the devices have seen since. -/
theorem update_all_time_1s_spec (hpc : s.pc = 0x800614) (hgp : s.get .gp = 0x8158C0#32)
    (hw : Represents s.world.mem w) :
    Leads (step code io) (fun t => Performs updateAllTime1s w [.r2, .r3, .r4, .r5, .r6] globals s t ∧
      t.world.dev.stores = s.world.dev.stores ++ (updateAllTime1s w).2.map store) s := by
  apply (update_all_time_1s_performs hpc hgp hw).mono
  intro t ht
  exact ⟨ht, ht.stores⟩

theorem midnight_strikes : Leads (step code io)
    (fun t => t.pc = 0x800854 ∧ t.world.dev.stores = [⟨0x1003020, 0xF, 4⟩, ⟨0x100307C, 0xF, 1⟩] ∧
      Represents t.world.mem ⟨.minuterie, ⟨0, 0, 0⟩, ⟨false, false⟩, ⟨0, 0, 0, false, true⟩⟩)
    (running 0x800614 0x800854 (memory beforeMidnight) ⟨.reset, 0, 0, false, false, []⟩) := by
  apply (update_all_time_1s_spec rfl rfl represents_beforeMidnight).mono
  rintro t ⟨ht, hstores⟩
  refine ⟨ht.pc.trans rfl, ?_, ht.represents⟩
  rw [hstores]
  rfl

end Montre.Compiled
