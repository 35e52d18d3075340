import Montre.Library.Runs
import Mathlib.Data.ZMod.Basic

namespace Montre.Abstract.AlarmClock

open Montre.Library Montre.Library.Runs

inductive Phase
  | idle
  | armed
  | ringing
deriving DecidableEq

/-- What an alarm clock is for, over any type of instants: it keeps a current
instant, a programmed one, and whether the alarm waits, rings or does neither. -/
structure Clock (τ : Type) where
  now : τ
  target : τ
  phase : Phase

inductive Action (τ : Type)
  | tick
  | set (t : τ)
  | program (t : τ)
  | toggle
  | silence
  | reset (t u : τ)
  | rest

section Step

variable {τ : Type} [AddMonoidWithOne τ] [DecidableEq τ]

def Phase.toggle : Phase → Phase
  | .idle => .armed
  | .armed => .idle
  | .ringing => .ringing

def step (c : Clock τ) : Action τ → Clock τ
  | .tick => ⟨c.now + 1, c.target,
      if c.phase = .armed ∧ c.target = c.now + 1 then .ringing else c.phase⟩
  | .set t => { c with now := t }
  | .program t => if c.phase = .idle then { c with target := t } else c
  | .toggle => { c with phase := c.phase.toggle }
  | .silence => { c with phase := if c.phase = .ringing then .idle else c.phase }
  | .reset t u => ⟨t, u, .idle⟩
  | .rest => c

def origin (o : τ × ℕ) : Action τ → τ × ℕ
  | .tick => (o.1, o.2 + 1)
  | .set t | .reset t _ => (t, 0)
  | .program _ | .toggle | .silence | .rest => o

theorem now_step {c : Clock τ} {o : τ × ℕ} (h : c.now = o.1 + o.2) (a : Action τ) :
    (step c a).now = (origin o a).1 + (origin o a).2 := by
  cases a with
  | tick => simp only [step, origin, h, Nat.cast_add, Nat.cast_one, add_assoc]
  | set t | reset t u => simp [step, origin]
  | program t => simp only [step, origin]; split_ifs <;> exact h
  | toggle | silence | rest => exact h

theorem now_run {c : Clock τ} {o : τ × ℕ} (h : c.now = o.1 + o.2) (as : List (Action τ)) :
    (run step c as).now = (as.foldl origin o).1 + (as.foldl origin o).2 := by
  induction as generalizing c o with
  | nil => exact h
  | cons a as ih => exact ih (now_step h a)

def Rings (c : Clock τ) (a : Action τ) : Prop := c.phase ≠ .ringing ∧ (step c a).phase = .ringing

def Falls (c : Clock τ) (a : Action τ) : Prop := c.phase = .ringing ∧ (step c a).phase ≠ .ringing

theorem rings_iff (c : Clock τ) (a : Action τ) :
    Rings c a ↔ a = .tick ∧ c.phase = .armed ∧ c.target = c.now + 1 := by
  cases a <;> cases hp : c.phase <;> simp [Rings, step, Phase.toggle, hp]

theorem falls_iff (c : Clock τ) (a : Action τ) :
    Falls c a ↔ c.phase = .ringing ∧ (a = .silence ∨ ∃ t u, a = .reset t u) := by
  cases a <;> cases hp : c.phase <;> simp [Falls, step, Phase.toggle, hp]

theorem arms {c : Clock τ} {a : Action τ} (h : c.phase ≠ .armed) (ha : (step c a).phase = .armed) :
    a = .toggle ∧ c.phase = .idle := by
  cases a <;> cases hp : c.phase <;> simp_all [step, Phase.toggle]

theorem stays_armed {c : Clock τ} {a : Action τ} (h : c.phase = .armed)
    (ha : (step c a).phase = .armed) :
    ¬ Rings c a ∧ a ≠ .toggle ∧ (∀ t u, a ≠ .reset t u) ∧ (step c a).target = c.target := by
  cases a <;> simp_all [step, Phase.toggle, Rings]

/-- Every ringing goes back to its own arming, and rings at the instant programmed then. -/
theorem armed_before_ringing {c : Clock τ} {as : List (Action τ)}
    {before after : List (Clock τ × Action τ)} {x : Clock τ × Action τ} (hc : c.phase ≠ .armed)
    (ht : trace step c as = before ++ x :: after) (hx : Rings x.1 x.2) :
    ∃ b y m, before = b ++ y :: m ∧ y.2 = .toggle ∧ y.1.phase = .idle ∧
      (∀ z ∈ m, ¬ Rings z.1 z.2 ∧ z.2 ≠ .toggle ∧ ∀ t u, z.2 ≠ .reset t u) ∧
      (step x.1 x.2).now = y.1.target := by
  obtain ⟨ha, hp, hn⟩ := (rings_iff x.1 x.2).mp hx
  obtain ⟨pre, post, -, rfl, hs, -⟩ := trace_split ht
  rw [hs] at hp
  obtain ⟨b, y, m, hb, hy, hfy, hm⟩ := exists_last_rise (P := fun c : Clock τ => c.phase = .armed) hc hp
  obtain ⟨hya, hyp⟩ := arms hy hfy
  refine ⟨b, y, m, hb, hya, hyp, ?_, ?_⟩
  · intro z hz
    obtain ⟨hz₁, hz₂⟩ := hm z hz
    obtain ⟨hrings, htoggle, hreset, -⟩ := stays_armed hz₁ hz₂
    exact ⟨hrings, htoggle, hreset⟩
  · have htarget : (run step c pre).target = y.1.target := by
      obtain ⟨pre₁, post₁, rfl, -, hy₁, rfl⟩ := trace_split hb
      rw [run_append, run_cons, ← hy₁]
      have hkeep : Meets step (fun (d : Clock τ) a => (step d a).target = d.target) (step y.1 y.2) post₁ := by
        intro z hz
        obtain ⟨hz₁, hz₂⟩ := hm z hz
        exact (stays_armed hz₁ hz₂).2.2.2
      apply hkeep.invariant (I := fun d => d.target = y.1.target)
      · intro d a hd hda
        exact hda.trans hd
      · rw [hya]
        rfl
    rw [← htarget, ← hs, hn, ha]
    rfl

end Step

section Countdown

variable {m : ℕ}

structure Waiting (c : Clock (ZMod m)) (k : ℕ) : Prop where
  armed : c.phase = .armed
  pos : 0 < k
  le : k ≤ m
  reaches : c.now + k = c.target

theorem reaches_unique {now target : ZMod m} {j k : ℕ} (hj : 0 < j) (hjm : j ≤ m) (hk : 0 < k)
    (hkm : k ≤ m) (hrj : now + j = target) (hrk : now + k = target) : j = k := by
  have h : ((j : ℕ) : ZMod m) = k := add_left_cancel (hrj.trans hrk.symm)
  rw [ZMod.natCast_eq_natCast_iff'] at h
  rcases Nat.lt_or_eq_of_le hjm with hj' | rfl <;> rcases Nat.lt_or_eq_of_le hkm with hk' | rfl
  · rwa [Nat.mod_eq_of_lt hj', Nat.mod_eq_of_lt hk'] at h
  · rw [Nat.mod_eq_of_lt hj', Nat.mod_self] at h; omega
  · rw [Nat.mod_eq_of_lt hk', Nat.mod_self] at h; omega
  · rfl

theorem exists_reaches [NeZero m] (now target : ZMod m) : ∃ k : ℕ, 0 < k ∧ k ≤ m ∧ now + k = target := by
  by_cases h : target = now
  · exact ⟨m, Nat.pos_of_ne_zero (NeZero.ne m), le_rfl, by simp [h]⟩
  · refine ⟨(target - now).val, ?_, (ZMod.val_lt _).le, by simp⟩
    rw [Nat.pos_iff_ne_zero, Ne, ZMod.val_eq_zero, sub_eq_zero]
    exact h

theorem Waiting.tick {c : Clock (ZMod m)} {k : ℕ} (h : Waiting c (k + 1)) (hk : 0 < k) :
    Waiting (step c .tick) k := by
  have hnext : c.now + 1 + k = c.target := by
    rw [← h.reaches, add_assoc, Nat.cast_add, Nat.cast_one, add_comm (1 : ZMod m)]
  have hle := h.le
  have hne : ¬ c.target = c.now + 1 := by
    intro he
    have hone : c.now + (1 : ℕ) = c.target := by rw [he, Nat.cast_one]
    have heq := reaches_unique h.pos h.le Nat.one_pos (by omega) h.reaches hone
    omega
  exact ⟨by simp [step, h.armed, hne], hk, by omega, hnext⟩

theorem Waiting.rings {c : Clock (ZMod m)} (h : Waiting c 1) : Rings c .tick := by
  have hr := h.reaches
  rw [Nat.cast_one] at hr
  exact (rings_iff c .tick).mpr ⟨rfl, h.armed, hr.symm⟩

theorem Waiting.not_rings {c : Clock (ZMod m)} {k : ℕ} (h : Waiting c (k + 1)) (hk : 0 < k)
    (a : Action (ZMod m)) : ¬ Rings c a := by
  intro hr
  obtain rfl := ((rings_iff c a).mp hr).1
  have hp := hr.2
  rw [(h.tick hk).armed] at hp
  exact absurd hp (by decide)

def Action.isTick {τ : Type} : Action τ → Bool
  | .tick => true
  | _ => false

def Calm {τ : Type} : Action τ → Prop
  | .tick | .program _ | .silence | .rest => True
  | .set _ | .toggle | .reset _ _ => False

theorem Waiting.calm {c : Clock (ZMod m)} {k : ℕ} (h : Waiting c k) {a : Action (ZMod m)}
    (ha : Calm a) (ht : a.isTick = false) : step c a = c := by
  obtain ⟨now, target, phase⟩ := c
  obtain rfl : phase = .armed := h.armed
  cases a <;> simp_all [step, Calm, Action.isTick]

/-- Calm actions run the countdown down by their ticks and ring nothing before its end. -/
theorem Waiting.run {c : Clock (ZMod m)} {k : ℕ} (h : Waiting c k) {as : List (Action (ZMod m))}
    (ha : ∀ a ∈ as, Calm a) (hk : as.countP Action.isTick < k) :
    Waiting (Runs.run step c as) (k - as.countP Action.isTick) ∧
      Meets step (fun d a => ¬ Rings d a ∧ (step d a).target = d.target) c as := by
  induction as generalizing c k with
  | nil => exact ⟨h, by simp [Meets]⟩
  | cons a as ih =>
      obtain ⟨ha, has⟩ := List.forall_mem_cons.mp ha
      rw [meets_cons, run_cons]
      cases ht : a.isTick with
      | false =>
          rw [List.countP_cons_of_neg (by simp [ht])] at hk ⊢
          obtain ⟨hw, hm⟩ := ih h has hk
          have hno : ¬ Rings c a := by simp [Rings, h.calm ha ht]
          rw [h.calm ha ht]
          exact ⟨hw, ⟨hno, rfl⟩, hm⟩
      | true =>
          obtain rfl : a = .tick := by cases a <;> simp_all [Action.isTick]
          rw [List.countP_cons_of_pos (by rfl)] at hk ⊢
          obtain ⟨j, rfl⟩ : ∃ j, k = j + 1 := ⟨k - 1, by omega⟩
          obtain ⟨hw, hm⟩ := ih (h.tick (by omega)) has (by omega)
          rw [Nat.add_sub_add_right]
          exact ⟨hw, ⟨h.not_rings (by omega) .tick, rfl⟩, hm⟩

theorem Waiting.exists_rings {c : Clock (ZMod m)} {k : ℕ} (h : Waiting c k) {as : List (Action (ZMod m))}
    (ha : ∀ a ∈ as, Calm a) (hk : k ≤ as.countP Action.isTick) : ∃ x ∈ trace step c as, Rings x.1 x.2 := by
  induction as generalizing c k with
  | nil => exact absurd h.pos (Nat.not_lt.mpr hk)
  | cons a as ih =>
      obtain ⟨ha, has⟩ := List.forall_mem_cons.mp ha
      have hlater {j : ℕ} (hw : Waiting (step c a) j) (hj : j ≤ as.countP Action.isTick) :
          ∃ x ∈ trace step c (a :: as), Rings x.1 x.2 := by
        obtain ⟨x, hx, hr⟩ := ih hw has hj
        exact ⟨x, List.mem_cons_of_mem _ hx, hr⟩
      cases ht : a.isTick with
      | false =>
          rw [List.countP_cons_of_neg (by simp [ht])] at hk
          apply hlater _ hk
          rwa [h.calm ha ht]
      | true =>
          obtain rfl : a = .tick := by cases a <;> simp_all [Action.isTick]
          rw [List.countP_cons_of_pos (by rfl)] at hk
          obtain ⟨j, rfl⟩ : ∃ j, k = j + 1 := ⟨k - 1, by have := h.pos; omega⟩
          rcases Nat.eq_zero_or_pos j with rfl | hj
          · exact ⟨(c, .tick), List.mem_cons_self, h.rings⟩
          · exact hlater (h.tick hj) (Nat.le_of_succ_le_succ hk)

/-- Left alone, an alarm that is k ticks away rings when the k-th of them is made, and only then. -/
theorem Waiting.rings_iff_ticks {c : Clock (ZMod m)} {k : ℕ} (h : Waiting c k) {as : List (Action (ZMod m))}
    (ha : ∀ a ∈ as, Calm a) : (∃ x ∈ trace step c as, Rings x.1 x.2) ↔ k ≤ as.countP Action.isTick := by
  constructor
  · rintro ⟨x, hx, hr⟩
    by_contra hlt
    exact ((h.run ha (Nat.lt_of_not_le hlt)).2 x hx).1 hr
  · exact h.exists_rings ha

end Countdown

end Montre.Abstract.AlarmClock
