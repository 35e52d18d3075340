import Montre.Firmware.Display
import Montre.Joint.Decoder
import Mathlib.Data.Fintype.Basic

namespace Montre.Joint

open Montre.Library Montre.Library.Runs Montre.Library.Emit Montre.Firmware Montre.Hardware

/-- The segments of a digit, from 0 at the top clockwise to 5, and 6 in the middle. -/
def shape : ℕ → Finset (Fin 7)
  | 0 => {0, 1, 2, 3, 4, 5}
  | 1 => {1, 2}
  | 2 => {0, 1, 3, 4, 6}
  | 3 => {0, 1, 2, 3, 6}
  | 4 => {1, 2, 5, 6}
  | 5 => {0, 2, 3, 5, 6}
  | 6 => {0, 2, 3, 4, 5, 6}
  | 7 => {0, 1, 2}
  | 8 => {0, 1, 2, 3, 4, 5, 6}
  | 9 => {0, 1, 2, 3, 5, 6}
  | _ => ∅

/-- The display lights a segment with a 0. -/
def lit (hex : BitVec 7) : Finset (Fin 7) := Finset.univ.filter fun i => hex.getLsbD i.val = false

def Reads (data : BitVec 4) (n : ℕ) : Prop := n ≤ 9 ∧ (segout data).map lit = some (shape n)

instance (data : BitVec 4) (n : ℕ) : Decidable (Reads data n) := inferInstanceAs (Decidable (_ ∧ _))

theorem reads_iff (data : BitVec 4) {n : ℕ} (hn : n ≤ 9) : Reads data n ↔ data.toNat = n := by
  have htable : ∀ (d : Fin 16) (m : Fin 10), Reads (BitVec.ofFin d) m.val ↔ d.val = m.val := by decide +kernel
  exact htable data.toFin ⟨n, by omega⟩

structure Shows (d : Digits) (hh mm : ℕ) : Prop where
  hex3 : Reads d.digitHH2 (hh / 10)
  hex2 : Reads d.digitHH1 (hh % 10)
  hex1 : Reads d.digitMM2 (mm / 10)
  hex0 : Reads d.digitMM1 (mm % 10)

theorem shows_iff (d : Digits) {hh mm : ℕ} (hhh : hh < 100) (hmm : mm < 100) : Shows d hh mm ↔
    (10 * d.digitHH2.toNat + d.digitHH1.toNat = hh ∧ 10 * d.digitMM2.toNat + d.digitMM1.toNat = mm) ∧
      d.Decimal := by
  have h3 := reads_iff d.digitHH2 (n := hh / 10) (by omega)
  have h2 := reads_iff d.digitHH1 (n := hh % 10) (by omega)
  have h1 := reads_iff d.digitMM2 (n := mm / 10) (by omega)
  have h0 := reads_iff d.digitMM1 (n := mm % 10) (by omega)
  constructor
  · rintro ⟨s3, s2, s1, s0⟩
    rw [h3] at s3
    rw [h2] at s2
    rw [h1] at s1
    rw [h0] at s0
    refine ⟨?_, ?_, ?_, ?_, ?_⟩ <;> omega
  · rintro ⟨⟨hhours, hminutes⟩, d0, d1, d2, d3⟩
    exact ⟨h3.mpr (by omega), h2.mpr (by omega), h1.mpr (by omega), h0.mpr (by omega)⟩

theorem shows_of_decodes {hexs : BitVec 16} {heures minutes : UInt8} (h : Decodes hexs heures minutes)
    (hh : heures < 24) (hm : minutes < 60) : Shows (digitsOf hexs) heures.toNat minutes.toNat := by
  simp only [UInt8.lt_iff_toNat_lt, UInt8.reduceToNat] at hh hm
  exact (shows_iff _ (by omega) (by omega)).mpr ⟨⟨h.heures, h.minutes⟩, h.decimal⟩

theorem shows_chronoDigits {S : ℕ} (h : S / 60 % 160 < 100) : Shows (chronoDigits S) (S / 60 % 160) (S % 60) := by
  refine (shows_iff _ h (by omega)).mpr ⟨?_, (chronoDigits_decimal_iff S).mpr (by omega)⟩
  simp only [chronoDigits, BitVec.toNat_ofNat]
  omega

/-- What should be on show when the stopwatch has counted S seconds: hours and minutes in the clock and in the
alarm mode, minutes and seconds in that of the stopwatch, which goes back to 0 after 160 minutes. -/
def onShow (w : Watch) (S : ℕ) : ℕ × ℕ :=
  match w.gMode with
  | .horloge => (w.gHorloge.heures.toNat, w.gHorloge.minutes.toNat)
  | .chrono => (S / 60 % 160, S % 60)
  | .minuterie => (w.gMinut.heures.toNat, w.gMinut.minutes.toNat)

theorem shows_hexsDigits {w : Watch} (h : Coherent w) (hmode : w.gMode ≠ .chrono) (S : ℕ) :
    Shows (digitsOf ((packDigits w.hexsDigits).setWidth 16)) (onShow w S).1 (onShow w S).2 := by
  obtain ⟨⟨hh, hm, -⟩, ⟨hah, ham, -⟩, -⟩ := h
  cases hw : w.gMode <;> simp only [onShow, Watch.hexsDigits, hw]
  · exact shows_of_decodes (decodes_encodeHhmm hh hm) hh hm
  · exact absurd hw hmode
  · exact shows_of_decodes (decodes_encodeHhmm hah ham) hah ham

/-- From the variables of the firmware to the segments: once the accesses of a display are made, the board
shows what the mode is about, running or stopped. Of the stopwatch it shows no more than two digits of minutes,
and only if no alarm has gone off during it and left `chrono_actif` set. -/
theorem board_shows (g : Generics) (is js : List Input) (hjs : ∀ i ∈ js, i = .idle ∨ i = .access)
    (hmade : (board g (is ++ .event .display :: js)).pending = [])
    (hfollows : ActifFollowsMode (system (board g (is ++ .event .display :: js))))
    (hminutes : (board g (is ++ .event .display :: js)).state.gMode = .chrono →
      seconds g (is ++ .event .display :: js) / 60 % 160 < 100) :
    Shows (routed (board g (is ++ .event .display :: js)))
      (onShow (board g (is ++ .event .display :: js)).state (seconds g (is ++ .event .display :: js))).1
      (onShow (board g (is ++ .event .display :: js)).state (seconds g (is ++ .event .display :: js))).2 := by
  have hchrono := digitsOf_chrono g (is ++ .event .display :: js)
  have hcoherent := coherent_board g (is ++ .event .display :: js)
  have hsystem : (⟨(board g (is ++ .event .display :: js)).state,
      (board g (is ++ .event .display :: js)).env.registers⟩ : System) =
        Firmware.step (system (board g is)) .display := by
    rw [← system_of_pending_nil hmade, board, run_append, run_cons, system_quiet g _ hjs, system_event]
    rfl
  rw [system_of_pending_nil hmade] at hfollows
  generalize board g (is ++ .event .display :: js) = b at hchrono hcoherent hsystem hfollows hminutes ⊢
  generalize seconds g (is ++ .event .display :: js) = S at hchrono hminutes ⊢
  have hstate := congrArg Emit.Coupled.state hsystem
  have henv := congrArg Emit.Coupled.env hsystem
  simp only [step_display_state, step_display_env] at hstate henv
  have hselect : ∀ actif, ((flag actif).setWidth 8).getLsbD 0 = actif := by decide
  rw [routed, digits_eq, henv, ← hstate]
  dsimp only
  rw [hselect, hchrono]
  by_cases hmode : b.state.gMode = .chrono
  · rw [if_pos (hfollows.mpr hmode), onShow, hmode]
    exact shows_chronoDigits (hminutes hmode)
  · rw [if_neg (mt hfollows.mp hmode)]
    exact shows_hexsDigits hcoherent hmode S

def everySecond : Generics := ⟨⟨1, positive_one⟩, ⟨1, positive_one⟩, ⟨1, positive_one⟩, Nat.le_refl 1⟩

def stopCounting : List Input :=
  startCounting ++ List.replicate 70 .idle ++ [.event .key2, .event .tick]

-- stopped, the stopwatch keeps its 71 seconds on show
theorem board_shows_stopped : Shows (routed (board everySecond
    (stopCounting ++ .event .display :: List.replicate 10 .access))) 1 11 :=
  board_shows everySecond stopCounting (List.replicate 10 .access) (by decide) (by decide +kernel)
    (by decide +kernel) (by decide +kernel)

end Montre.Joint
