import Montre.Firmware.Frames
import Montre.Hardware.TopLevel

namespace Montre.Firmware

open Montre.Library Montre.Library.Runs Montre.Hardware

/-- The four digits of HEXS are decimal, and read as HH:MM. -/
structure Decodes (hexs : BitVec 16) (heures minutes : UInt8) : Prop where
  decimal : (digitsOf hexs).Decimal
  heures : 10 * (digitsOf hexs).digitHH2.toNat + (digitsOf hexs).digitHH1.toNat = heures.toNat
  minutes : 10 * (digitsOf hexs).digitMM2.toNat + (digitsOf hexs).digitMM1.toNat = minutes.toNat

/-- The packing adds the digits unmasked: below 10 each keeps to its own four bits. -/
theorem packDigits_toNat {d3 d2 d1 d0 : UInt8} (h3 : d3 < 10) (h2 : d2 < 10) (h1 : d1 < 10) (h0 : d0 < 10) :
    (packDigits (d3, d2, d1, d0)).toNat =
      d3.toNat * 4096 + d2.toNat * 256 + d1.toNat * 16 + d0.toNat := by
  simp only [UInt8.lt_iff_toNat_lt, UInt8.reduceToNat] at h3 h2 h1 h0
  simp only [packDigits, BitVec.toNat_add, BitVec.toNat_shiftLeft, BitVec.toNat_setWidth,
    UInt8.toNat_toBitVec, Nat.shiftLeft_eq]
  omega

theorem digitsOf_packDigits {d3 d2 d1 d0 : UInt8} (h3 : d3 < 10) (h2 : d2 < 10) (h1 : d1 < 10)
    (h0 : d0 < 10) : digitsOf ((packDigits (d3, d2, d1, d0)).setWidth 16) =
      ⟨BitVec.ofNat 4 d0.toNat, BitVec.ofNat 4 d1.toNat, BitVec.ofNat 4 d2.toNat, BitVec.ofNat 4 d3.toNat⟩ := by
  have hpack := packDigits_toNat h3 h2 h1 h0
  simp only [UInt8.lt_iff_toNat_lt, UInt8.reduceToNat] at h3 h2 h1 h0
  simp only [digitsOf, Digits.mk.injEq, ← BitVec.toNat_inj, nibble_toNat, BitVec.toNat_setWidth, hpack,
    BitVec.toNat_ofNat]
  omega

theorem decodes_encodeHhmm {heures minutes : UInt8} (hh : heures < 24) (hm : minutes < 60) :
    Decodes ((packDigits (encodeHhmm heures minutes)).setWidth 16) heures minutes := by
  simp only [UInt8.lt_iff_toNat_lt, UInt8.reduceToNat] at hh hm
  have h3 : heures / 10 < 10 := by
    simp only [UInt8.lt_iff_toNat_lt, UInt8.toNat_div, UInt8.reduceToNat]
    omega
  have h1 : minutes / 10 < 10 := by
    simp only [UInt8.lt_iff_toNat_lt, UInt8.toNat_div, UInt8.reduceToNat]
    omega
  have hmod (d : UInt8) : d % 10 < 10 := by
    simp only [UInt8.lt_iff_toNat_lt, UInt8.toNat_mod, UInt8.reduceToNat]
    omega
  have hdigits := digitsOf_packDigits h3 (hmod heures) h1 (hmod minutes)
  simp only [UInt8.toNat_div, UInt8.toNat_mod, UInt8.reduceToNat] at hdigits
  rw [encodeHhmm]
  constructor
  · constructor <;> simp only [hdigits, BitVec.toNat_ofNat] <;> omega
  · simp only [hdigits, BitVec.toNat_ofNat]
    omega
  · simp only [hdigits, BitVec.toNat_ofNat]
    omega

theorem display_hexs (s : System) : (call s .updateDisplay).env.hexs =
    (packDigits s.state.hexsDigits).setWidth 16 := by
  rw [call_eq_run, Call.events, run_cons, run_nil, step_display_env]

/-- HEXS is a BCD image of the time on show after every display in the clock or alarm mode. -/
theorem hexs_decodes (cs : List Call) :
    ((run call start cs).state.gMode = .horloge →
      Decodes (call (run call start cs) .updateDisplay).env.hexs
        (run call start cs).state.gHorloge.heures (run call start cs).state.gHorloge.minutes ∧
      (run call start cs).state.gHorloge.heures < 24 ∧ (run call start cs).state.gHorloge.minutes < 60) ∧
    ((run call start cs).state.gMode = .minuterie →
      Decodes (call (run call start cs) .updateDisplay).env.hexs
        (run call start cs).state.gMinut.heures (run call start cs).state.gMinut.minutes ∧
      (run call start cs).state.gMinut.heures < 24 ∧ (run call start cs).state.gMinut.minutes < 60) := by
  obtain ⟨⟨hh, hm, -⟩, ⟨hah, ham, -⟩, -⟩ := coherent_calls cs
  rw [display_hexs, Watch.hexsDigits]
  constructor
  · intro hmode
    rw [hmode]
    exact ⟨decodes_encodeHhmm hh hm, hh, hm⟩
  · intro hmode
    rw [hmode]
    exact ⟨decodes_encodeHhmm hah ham, hah, ham⟩

/-- KEY3 sets the clock to 7:20; KEY1, twice, leads to the alarm mode, where KEY3 sets the alarm to 8:15. -/
def settings : List Call :=
  [.handleKeysAndSwitches 0x8 244, .handleKeysAndSwitches 0x2 0, .handleKeysAndSwitches 0x2 0,
    .handleKeysAndSwitches 0x8 271, .updateAllTime1s]

theorem hexs_decodes_settings :
    Decodes (call (run call start settings) .updateDisplay).env.hexs 8 15 ∧
      Decodes (call (run call start (settings ++ [.handleKeysAndSwitches 0x2 0])) .updateDisplay).env.hexs 7 20 := by
  have halarm : (run call start settings).state =
      ⟨.minuterie, ⟨7, 20, 1⟩, ⟨false, false⟩, ⟨8, 15, 0, false, false⟩⟩ := by decide +kernel
  have hclock : (run call start (settings ++ [.handleKeysAndSwitches 0x2 0])).state =
      ⟨.horloge, ⟨7, 20, 1⟩, ⟨false, false⟩, ⟨8, 15, 0, false, false⟩⟩ := by decide +kernel
  have hminuterie := (hexs_decodes settings).2 (by rw [halarm])
  have hhorloge := (hexs_decodes (settings ++ [.handleKeysAndSwitches 0x2 0])).1 (by rw [hclock])
  rw [halarm] at hminuterie
  rw [hclock] at hhorloge
  exact ⟨hminuterie.1, hhorloge.1⟩

theorem decimal_hexsDigits {w : Watch} (h : Coherent w) :
    (digitsOf ((packDigits w.hexsDigits).setWidth 16)).Decimal := by
  obtain ⟨⟨hh, hm, -⟩, ⟨hah, ham, -⟩, -⟩ := h
  cases hmode : w.gMode <;> simp only [Watch.hexsDigits, hmode]
  · exact (decodes_encodeHhmm hh hm).decimal
  · exact (decodes_encodeHhmm (by decide : (0 : UInt8) < 24) (by decide : (0 : UInt8) < 60)).decimal
  · exact (decodes_encodeHhmm hah ham).decimal

end Montre.Firmware
