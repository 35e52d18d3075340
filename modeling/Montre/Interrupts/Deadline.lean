import Montre.Interrupts.Ticks
import Montre.Library.Progress

namespace Montre.Interrupts

open Montre.Library Montre.Library.Runs Montre.Library.Progress Montre.Firmware

/-- The steps that main may still make before it clears a tick that is flagged now. -/
def Pc.remaining : Pc → ℕ
  | .clearTick => 0
  | .testTick => 1
  | .branches es => es.length + 2
  | .printRising _ _ => 7
  | .readSwitches _ => 8
  | .clearRising _ => 9
  | .readRising => 10
  | .clearKeys => 11
  | .testKeys => 12
  | .updateDisplay => 13
  | .updateAllTime1s => 14

def isMain : Action → Bool
  | .main _ => true
  | .press _ | .keysIsr | .timerIsr => false

theorem length_keyEvents_le (rising : UInt8) (sw : UInt16) : (keyEvents rising sw).length ≤ 4 := by
  simp only [keyEvents, List.length_append]
  split_ifs <;> simp

theorem remaining_main_le {s : State} (h : s.pc.remaining ≤ 14) (switches : BitVec 10) :
    (stepMain s switches).pc.remaining ≤ 14 := by
  cases hp : s.pc with
  | testTick | testKeys =>
      simp only [stepMain, hp]
      split_ifs <;> decide
  | printRising rising sw =>
      have hlength := length_keyEvents_le rising sw
      simp only [stepMain, hp, Pc.remaining]
      omega
  | branches es =>
      rw [hp] at h
      cases es with
      | nil => simp [stepMain, hp, Pc.remaining]
      | cons e es =>
          simp only [stepMain, hp, Pc.remaining, List.length_cons] at h ⊢
          omega
  | clearTick | updateAllTime1s | updateDisplay | clearKeys | readRising | clearRising rising
  | readSwitches rising => simp [stepMain, hp, Pc.remaining]

theorem remaining_main_lt {s : State} (hf : s.tick1sFlag = true) (hpc : s.pc ≠ .clearTick)
    (switches : BitVec 10) : (stepMain s switches).pc.remaining + 1 ≤ s.pc.remaining := by
  cases hp : s.pc with
  | clearTick => exact absurd hp hpc
  | testTick => simp [stepMain, hp, hf, Pc.remaining]
  | testKeys =>
      simp only [stepMain, hp]
      split_ifs <;> decide
  | printRising rising sw =>
      have hlength := length_keyEvents_le rising sw
      simp only [stepMain, hp, Pc.remaining]
      omega
  | branches es => cases es <;> simp [stepMain, hp, Pc.remaining]
  | updateAllTime1s | updateDisplay | clearKeys | readRising | clearRising rising
  | readSwitches rising => simp [stepMain, hp, Pc.remaining]

@[simp] theorem stepKeysIsr_pc (s : State) : (stepKeysIsr s).pc = s.pc := by
  unfold stepKeysIsr
  split <;> rfl

@[simp] theorem stepKeysIsr_tick1sFlag (s : State) : (stepKeysIsr s).tick1sFlag = s.tick1sFlag := by
  unfold stepKeysIsr
  split <;> rfl

theorem remaining_step {s : State} (h : s.pc.remaining ≤ 14) (a : Action) : (step s a).pc.remaining ≤ 14 := by
  cases a with
  | press b | timerIsr => exact h
  | keysIsr => rwa [step, stepKeysIsr_pc]
  | main switches => exact remaining_main_le h switches

theorem tick1sFlag_quiet {s : State} (h : s.tick1sFlag = false) {a : Action} (ha : a ≠ .timerIsr) :
    (step s a).tick1sFlag = false := by
  cases a with
  | press b => exact h
  | timerIsr => exact absurd rfl ha
  | keysIsr => rwa [step, stepKeysIsr_tick1sFlag]
  | main switches => rw [step, stepMain_tick1sFlag, h, ite_self]

/-- Fifteen steps of main drain the tick, whatever it was doing and whatever interrupts it
in between, short of the next tick. -/
theorem drained_after_fifteen {s : State} {as : List Action} (h : s.pc.remaining ≤ 14)
    (hquiet : .timerIsr ∉ as) (hmain : 15 ≤ as.countP isMain) : (run step s as).tick1sFlag = false := by
  have hne : Meets step (fun _ a => a ≠ .timerIsr) s as := by
    apply meets_of_forall
    rintro a ha rfl
    exact hquiet ha
  apply reaches (I := fun s => s.pc.remaining ≤ 14) (P := fun s => s.tick1sFlag = false)
    (C := fun _ a => a ≠ .timerIsr) (r := fun s => s.pc.remaining) (c := isMain) _ _ _ s as h hne
  · omega
  · intro t a ht _
    exact remaining_step ht a
  · intro t a ht ha
    exact tick1sFlag_quiet ht ha
  · intro t a _ ha hflag
    cases a with
    | press b => exact .inr le_rfl
    | timerIsr => exact absurd rfl ha
    | keysIsr =>
        right
        rw [step, stepKeysIsr_pc]
        exact le_rfl
    | main switches =>
        by_cases hpc : t.pc = .clearTick
        · left
          rw [step, stepMain_tick1sFlag, if_pos hpc]
        · right
          exact remaining_main_lt (by simpa using hflag) hpc switches

/-- Main makes at least n steps between any two timer interrupts. -/
def Spaced (n : ℕ) (as : List Action) : Prop :=
  ∀ pre mid post, as = pre ++ .timerIsr :: mid ++ .timerIsr :: post → n ≤ mid.countP isMain

theorem drained_at_interrupt {pre post : List Action} (h : Spaced 15 (pre ++ .timerIsr :: post)) :
    (run step init pre).tick1sFlag = false := by
  by_cases hmem : .timerIsr ∈ pre
  · obtain ⟨before, mid, rfl, hquiet⟩ := exists_last_occurrence hmem
    rw [run_append, run_cons]
    apply drained_after_fifteen
    · exact invariant (I := fun s : State => s.pc.remaining ≤ 14) (fun _ a hs => remaining_step hs a) (by decide) before
    · exact hquiet
    · exact h before mid post (by simp)
  · have hne : Meets step (fun _ a => a ≠ .timerIsr) init pre := by
      apply meets_of_forall
      rintro a ha rfl
      exact hmem ha
    exact hne.invariant (I := fun s => s.tick1sFlag = false) (fun _ _ hs ha => tick1sFlag_quiet hs ha) rfl

theorem no_overrun_of_spaced {as : List Action} (h : Spaced 15 as) :
    Meets step (fun s a => overruns s a = false) init as := by
  intro x hx
  obtain ⟨before, after, ht⟩ := List.append_of_mem hx
  obtain ⟨pre, post, rfl, -, hs, -⟩ := trace_split ht
  obtain ⟨s, a⟩ := x
  cases a with
  | press b | keysIsr | main switches => rfl
  | timerIsr =>
      have hdrained := drained_at_interrupt h
      rw [← hs] at hdrained
      exact hdrained

/-- When main makes at least fifteen steps between two timer interrupts, no interrupt finds the
previous tick still flagged, and each has advanced the clock or is on its way to it. -/
theorem spaced_interrupts_served {as : List Action} (h : Spaced 15 as) :
    Meets step (fun s a => overruns s a = false) init as ∧
      as.countP interrupts = times advances init as + (run step init as).tick1sFlag.toNat +
        (inUpdate (run step init as)).toNat := by
  have hno := no_overrun_of_spaced h
  refine ⟨hno, ?_⟩
  have hzero := (times_overruns_eq_zero init as).mpr hno
  have hbalance := timer_balance consistent_init as
  have hdrain := drain_balance consistent_init as
  have hflag : init.tick1sFlag.toNat = 0 := rfl
  have hidle : (inUpdate init).toNat = 0 := rfl
  omega

theorem spaced_two {n : ℕ} (mid : List Action) (hquiet : .timerIsr ∉ mid) (hmain : n ≤ mid.countP isMain) :
    Spaced n (.timerIsr :: mid ++ [.timerIsr]) := by
  intro pre gap post h
  have hcount := congrArg (List.count Action.timerIsr) h
  have hmid : mid.count .timerIsr = 0 := List.count_eq_zero.mpr hquiet
  simp only [List.cons_append, List.count_cons_self, List.count_append, List.count_nil, hmid] at hcount
  have hpre : .timerIsr ∉ pre := List.count_eq_zero.mp (by omega)
  cases pre with
  | nil =>
      have hsplit : mid ++ .timerIsr :: [] = gap ++ .timerIsr :: post := (List.cons.inj h).2
      obtain ⟨rfl, -⟩ := (List.append_cons_inj_of_notMem hquiet List.not_mem_nil).mp hsplit
      exact hmain
  | cons a pre =>
      rw [← (List.cons.inj h).1] at hpre
      exact absurd List.mem_cons_self hpre

theorem two_interrupts_served : (run step init (.timerIsr :: List.replicate 15 (.main 0) ++ [.timerIsr])).tick1sFlag =
    true ∧ times advances init (.timerIsr :: List.replicate 15 (.main 0) ++ [.timerIsr]) = 1 := by
  have hserved := (spaced_interrupts_served (spaced_two (n := 15) (List.replicate 15 (.main 0))
    (by decide) (by decide))).2
  have hflag : (run step init (.timerIsr :: List.replicate 15 (.main 0) ++ [.timerIsr])).tick1sFlag = true := by
    decide +kernel
  have hidle : inUpdate (run step init (.timerIsr :: List.replicate 15 (.main 0) ++ [.timerIsr])) = false := by
    decide +kernel
  rw [hflag, hidle] at hserved
  refine ⟨hflag, ?_⟩
  exact (Nat.succ.inj hserved).symm

def pressAll : List Action := (List.finRange 4).map .press ++ List.replicate 4 .keysIsr

def fullTurn : List Action := .timerIsr :: List.replicate 14 (.main 0)

-- with fourteen steps a tick flagged at `updateAllTime1s` waits for a whole turn with all four keys
example : ¬ Meets step (fun s a => overruns s a = false) init (pressAll ++ [.main 0] ++ fullTurn ++
    pressAll ++ fullTurn ++ pressAll ++ fullTurn ++ [.timerIsr]) := by decide +kernel

end Montre.Interrupts
