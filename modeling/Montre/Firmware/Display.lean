import Montre.Firmware.MainLoop
import Montre.Hardware.TopLevel

namespace Montre.Firmware

open Montre.Library Montre.Library.Runs Montre.Hardware

/-- The digits come from the register that belongs to the current mode: HEXS with the
clock or the alarm in it, or CHRONO, whatever the stopwatch counts at that moment. -/
def ShowsMode (s : System) : Prop :=
  match s.state.gMode with
  | .horloge =>
      s.env.hexs = (packDigits (encodeHhmm s.state.gHorloge.heures s.state.gHorloge.minutes)).setWidth 16 ∧
        ∀ q, digits s.env.startChrono q s.env.hexs = digitsOf s.env.hexs
  | .chrono => ∀ q, digits s.env.startChrono q s.env.hexs = digitsOf q
  | .minuterie =>
      s.env.hexs = (packDigits (encodeHhmm s.state.gMinut.heures s.state.gMinut.minutes)).setWidth 16 ∧
        ∀ q, digits s.env.startChrono q s.env.hexs = digitsOf s.env.hexs

def ActifFollowsMode (s : System) : Prop :=
  s.state.gChrono.chronoActif = true ↔ s.state.gMode = .chrono

instance (s : System) : Decidable (ActifFollowsMode s) := inferInstanceAs (Decidable (_ ↔ _))

theorem showsMode_display (s : System) : ShowsMode (step s .display) ↔ ActifFollowsMode s := by
  rw [ShowsMode, ActifFollowsMode, step_display_state, step_display_env]
  cases hm : s.state.gMode <;> cases ha : s.state.gChrono.chronoActif <;>
    simp [Watch.hexsDigits, hm, shows_hexs_iff, shows_chrono_iff, flag]

theorem actif_key1 (s : System) : ActifFollowsMode (step s .key1) := by
  simp [ActifFollowsMode]

theorem actif_keys {s : System} (h : ActifFollowsMode s) (rising : UInt8) (switches : BitVec 10) :
    ActifFollowsMode (loopStep s (.keys rising switches)) := by
  apply keys_invariant (I := ActifFollowsMode)
  · intro s _
    simp [ActifFollowsMode, start, exec, Emit.exec, watchInit]
  · intro s _
    exact actif_key1 s
  · intro s hs
    simpa [ActifFollowsMode] using hs
  · intro s sw hs
    simpa [ActifFollowsMode] using hs
  · exact h

theorem actif_tick {s : System} (h : ActifFollowsMode s) (hf : Fires s.state → s.state.gMode ≠ .chrono) :
    ActifFollowsMode (loopStep s .tick) := by
  rw [loopStep_tick, ActifFollowsMode, step_display_state]
  by_cases hfire : Fires s.state
  · have ha : s.state.gChrono.chronoActif = false := by
      simpa using mt h.mp (hf hfire)
    rw [step_tick_of_fires hfire]
    simp [ha]
  · rw [step_tick_of_not_fires hfire]
    exact h

theorem actif_step (s : System) (e : LoopEvent) (h : ActifFollowsMode s)
    (hf : e = .tick → Fires s.state → s.state.gMode ≠ .chrono) : ActifFollowsMode (loopStep s e) := by
  cases e with
  | tick =>
      apply actif_tick h
      exact hf rfl
  | keys rising switches => exact actif_keys h rising switches

theorem actif_stale {s : System} (h : s.state.gMode = .chrono → s.state.gChrono.chronoActif = true)
    (hf : Fires s.state) (hm : s.state.gMode = .chrono) : ¬ ActifFollowsMode (loopStep s .tick) := by
  rw [loopStep_tick, ActifFollowsMode, step_display_state, step_tick_of_fires hf]
  simp [h hm]

/-- The digits follow the mode after every display exactly in the runs where the alarm
never fires in the stopwatch mode. -/
theorem digits_follow_mode_iff (es : List LoopEvent) :
    Meets loopStep (fun s e => e = .tick →
        ShowsMode (loopStep s e) ∧ ActifFollowsMode (loopStep s e)) start es ↔
      Meets loopStep (fun s e => e = .tick → Fires s.state → s.state.gMode ≠ .chrono) start es := by
  apply meets_iff (I := ActifFollowsMode)
  · exact actif_step
  · intro s e hs
    apply imp_congr_right
    rintro rfl
    constructor
    · rintro ⟨-, hfollows⟩ hf hm
      exact actif_stale hs.mpr hf hm hfollows
    · intro hf
      have hnext := actif_tick hs hf
      refine ⟨?_, hnext⟩
      rw [loopStep_tick, showsMode_display]
      rwa [loopStep_tick, ActifFollowsMode, step_display_state] at hnext
  · decide

def firingInChrono : List LoopEvent :=
  [.keys 0x8 384, .keys 0x2 0, .keys 0x2 0, .keys 0x8 385, .keys 0x4 0, .keys 0x2 0, .keys 0x2 0] ++
    List.replicate 59 .tick

theorem chrono_digits_in_minuterie :
    ¬ ∀ es : List LoopEvent, Meets loopStep (fun s e => e = .tick →
        ShowsMode (loopStep s e) ∧ ActifFollowsMode (loopStep s e)) start es := by
  intro h
  have hlast := (meets_snoc.mp (h (firingInChrono ++ [.tick]))).2 rfl
  have hmode : (loopStep (run loopStep start firingInChrono) .tick).state.gMode = .minuterie := by
    decide +kernel
  have hactif : (loopStep (run loopStep start firingInChrono) .tick).state.gChrono.chronoActif = true := by
    decide +kernel
  exact absurd (hmode.symm.trans (hlast.2.mp hactif)) (by decide)

end Montre.Firmware
