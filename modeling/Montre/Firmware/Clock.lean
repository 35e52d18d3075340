import Montre.Firmware.Program
import Mathlib.Data.ZMod.Basic

namespace Montre.Firmware

structure Horloge.InRange (h : Horloge) : Prop where
  heures : h.heures < 24
  minutes : h.minutes < 60
  secondes : h.secondes < 60

def Horloge.seconds (h : Horloge) : ℕ :=
  h.heures.toNat * 3600 + h.minutes.toNat * 60 + h.secondes.toNat

def Minuterie.instant (m : Minuterie) : Horloge := ⟨m.heures, m.minutes, m.secondes⟩

def configTime (sw : UInt16) : Horloge := ⟨configHeures sw, configMinutes sw, 0⟩

theorem Horloge.InRange.seconds_lt {h : Horloge} (hr : h.InRange) : h.seconds < 86400 := by
  obtain ⟨hh, hm, hs⟩ := hr
  simp only [UInt8.lt_iff_toNat_lt, UInt8.reduceToNat] at hh hm hs
  simp only [Horloge.seconds]
  omega

theorem Horloge.eq_of_seconds_eq {a b : Horloge} (ha : a.InRange) (hb : b.InRange)
    (h : a.seconds = b.seconds) : a = b := by
  obtain ⟨ha₁, ha₂, ha₃⟩ := ha
  obtain ⟨hb₁, hb₂, hb₃⟩ := hb
  simp only [UInt8.lt_iff_toNat_lt, UInt8.reduceToNat] at ha₁ ha₂ ha₃ hb₁ hb₂ hb₃
  simp only [Horloge.seconds] at h
  cases a
  cases b
  simp only [Horloge.mk.injEq, ← UInt8.toNat_inj] at *
  omega

theorem Horloge.advance_spec {h : Horloge} (hr : h.InRange) :
    h.advance.InRange ∧ h.advance.seconds = (h.seconds + 1) % 86400 := by
  obtain ⟨hh, hm, hs⟩ := hr
  simp only [UInt8.lt_iff_toNat_lt, UInt8.reduceToNat] at hh hm hs
  simp only [Horloge.advance, ge_iff_le, UInt8.le_iff_toNat_le, UInt8.toNat_add, UInt8.reduceToNat]
  split_ifs <;> refine ⟨⟨?_, ?_, ?_⟩, ?_⟩ <;>
    simp [Horloge.seconds, UInt8.lt_iff_toNat_lt] <;> omega

theorem configHeures_toNat (sw : UInt16) :
    (configHeures sw).toNat = if sw.toNat / 32 % 32 < 24 then sw.toNat / 32 % 32 else 0 := by
  have hd : ((sw >>> 5) &&& 0x1F).toUInt8.toNat = sw.toNat / 32 % 32 := by
    simp [Nat.shiftRight_eq_div_pow, Nat.and_two_pow_sub_one_eq_mod _ 5]
  simp only [configHeures, ge_iff_le, UInt8.le_iff_toNat_le, hd, UInt8.reduceToNat]
  split_ifs <;> simp_all
  omega

theorem configMinutes_toNat (sw : UInt16) : (configMinutes sw).toNat = sw.toNat % 32 := by
  have hd : (sw &&& 0x1F).toUInt8.toNat = sw.toNat % 32 := by
    simp [Nat.and_two_pow_sub_one_eq_mod _ 5]
  simp only [configMinutes, gt_iff_lt, UInt8.lt_iff_toNat_lt, hd, UInt8.reduceToNat]
  split_ifs
  · omega
  · exact hd

theorem configTime_inRange (sw : UInt16) : (configTime sw).InRange := by
  have hm := configMinutes_toNat sw
  have hh := configHeures_toNat sw
  constructor <;> simp only [configTime, UInt8.lt_iff_toNat_lt, UInt8.reduceToNat]
  · rw [hh]
    split_ifs <;> omega
  · omega
  · omega

/-- The day as a cyclic group: what the abstract alarm clock counts in. -/
def Horloge.ofDay (h : Horloge) : ZMod 86400 := (h.seconds : ZMod 86400)

theorem Horloge.ofDay_inj {a b : Horloge} (ha : a.InRange) (hb : b.InRange) :
    a.ofDay = b.ofDay ↔ a = b := by
  constructor
  · intro h
    apply eq_of_seconds_eq ha hb
    have hm := (ZMod.natCast_eq_natCast_iff' _ _ _).mp h
    rwa [Nat.mod_eq_of_lt ha.seconds_lt, Nat.mod_eq_of_lt hb.seconds_lt] at hm
  · rintro rfl
    rfl

theorem Horloge.ofDay_advance {h : Horloge} (hr : h.InRange) : h.advance.ofDay = h.ofDay + 1 := by
  have hs := congrArg (Nat.cast : ℕ → ZMod 86400) (advance_spec hr).2
  rwa [ZMod.natCast_mod, Nat.cast_add, Nat.cast_one] at hs

end Montre.Firmware
