import Montre.Hardware.KeyWiring

namespace Montre.Hardware

namespace AlteraResetController

/-- The registers that a request passes through, each by the number of edges that it is away from the output. -/
def stage (c : AlteraResetController) : ℕ → Bool
  | 0 => c.rSyncRst
  | 1 => c.rSyncRstDly
  | 2 => c.rSyncRstChain.getLsbD 1
  | 3 => c.intChain.getLsbD 2
  | 4 => c.intChain.getLsbD 1
  | 5 => c.intChain.getLsbD 0
  | 6 => c.altRstSync.intChainOut
  | _ => false

theorem stage_clock {c : AlteraResetController} {n : ℕ} (h : c.stage (n + 1) = true) (mergedReset : Bool) :
    (c.clock mergedReset).stage n = true := by
  have hshift (i : ℕ) : (c.clock mergedReset).intChain.getLsbD i =
      if i < 1 then (BitVec.ofBool c.altRstSync.intChainOut).getLsbD i else (c.intChain.setWidth 2).getLsbD (i - 1) :=
    BitVec.getLsbD_append
  match n, h with
  | 0, h =>
      simp only [stage] at h
      simp only [stage, clock, h]
  | 1, h => exact h
  | 2, h =>
      simp only [stage] at h
      simp [stage, clock, h]
  | 3, h | 4, h | 5, h =>
      simp only [stage] at h
      simp [stage, hshift, h]

/-- The reset comes within n edges, whatever is requested from now on. -/
def Due (c : AlteraResetController) (n : ℕ) : Prop := ∃ k ≤ n, c.stage k = true

section Due

variable {c : AlteraResetController} {m n : ℕ}

theorem Due.mono (h : c.Due m) (hmn : m ≤ n) : c.Due n := by
  obtain ⟨k, hk, hstage⟩ := h
  exact ⟨k, hk.trans hmn, hstage⟩

theorem Due.resetOut (h : c.Due 0) : c.resetOut true = true := by
  obtain ⟨k, hk, hstage⟩ := h
  rwa [Nat.le_zero.mp hk] at hstage

theorem Due.clock (h : c.Due (n + 1)) (hout : c.resetOut true = false) (mergedReset : Bool) :
    (c.clock mergedReset).Due n := by
  obtain ⟨k, hk, hstage⟩ := h
  cases k with
  | zero =>
      rw [show c.stage 0 = c.resetOut true from rfl, hout] at hstage
      exact absurd hstage Bool.false_ne_true
  | succ k => exact ⟨k, Nat.le_of_succ_le_succ hk, stage_clock hstage mergedReset⟩

theorem stage_settle (h : c.stage n = true) (mergedReset : Bool) : (c.settle mergedReset).stage n = true := by
  match n, h with
  | 0, h | 1, h | 2, h | 3, h | 4, h | 5, h => exact h
  | 6, h =>
      cases mergedReset with
      | false => exact h
      | true => rfl

theorem Due.settle (h : c.Due n) (mergedReset : Bool) : (c.settle mergedReset).Due n := by
  obtain ⟨k, hk, hstage⟩ := h
  exact ⟨k, hk, stage_settle hstage mergedReset⟩

theorem due_settle (c : AlteraResetController) : (c.settle true).Due 6 := ⟨6, le_rfl, rfl⟩

end Due

end AlteraResetController

namespace KeyWiring

open Montre.Library Runs

/-- The controller once a release of KEY(0) has gone through all of it. -/
def quiescent : AlteraResetController := ⟨⟨0, false⟩, 0, 0, false, false⟩

def pressed : ℕ → AlteraResetController
  | 0 => quiescent.settle true
  | n + 1 => (pressed n).clock true

theorem pressed_settle (n : ℕ) : (pressed n).settle true = pressed n := by
  cases n <;> rfl

theorem pressed_later (n : ℕ) : pressed (6 + n) = pressed 6 := by
  induction n with
  | zero => rfl
  | succ n ih =>
      rw [← Nat.add_assoc, pressed, ih]
      decide

theorem pressed_resetOut (n : ℕ) : (pressed n).resetOut true = decide (6 ≤ n) := by
  match n with
  | 0 | 1 | 2 | 3 | 4 | 5 => decide
  | n + 6 =>
      rw [Nat.add_comm, pressed_later]
      simp only [Nat.le_add_right, decide_true]
      decide

variable {s : KeyWiring} {n : ℕ} {p : Period}

theorem settle_of_held (hs : s.rstController = pressed n) (hkey : s.resetResetN = false) :
    settle true s = { s with keys := if 6 ≤ n then .reset else s.keys } := by
  simp only [settle, hkey, hs, Bool.not_false, pressed_settle, resetN, pressed_resetOut, NiosSystemKeys.settle]
  by_cases h : 6 ≤ n <;> simp [h]

theorem run_pins_of_held (hs : s.rstController = pressed n) (hkeys : 6 ≤ n → s.keys = .reset)
    {ks : List (BitVec 4)} (hks : ∀ k ∈ ks, k.getLsbD 0 = false) :
    run (pins true) s ks = { s with key := ks.getLast?.getD s.key } := by
  apply run_pins_eq (P := fun k => k.getLsbD 0 = false) _ hks
  intro k hk
  rw [settle_of_held (s := { s with key := k }) hs hk]
  split_ifs with h
  · rw [hkeys h]
  · rfl

theorem step_of_held (hs : s.rstController = pressed n) (hkey : s.resetResetN = false)
    (hkeys : 6 ≤ n → s.keys = .reset) (hp : ∀ k ∈ p.levels, k.getLsbD 0 = false) :
    step true s p = ⟨sampled s p, pressed (n + 1),
      if 6 ≤ n + 1 then .reset else s.keys.clock (sampled s p) p.access⟩ := by
  have hsampled : resetResetN ⟨sampled s p, pressed n, s.keys⟩ = false :=
    sampled_of (P := fun k => k.getLsbD 0 = false) hkey hp
  have hout : resetN true ⟨sampled s p, pressed n, s.keys⟩ = !decide (6 ≤ n) := by
    rw [resetN, pressed_resetOut]
  rw [step, run_pins_of_held hs hkeys hp]
  change edge true { s with key := sampled s p } p.access = _
  rw [hs, edge, hsampled, hout]
  refine (settle_of_held (n := n + 1) (s := ⟨sampled s p, pressed (n + 1), _⟩) rfl hsampled).trans ?_
  by_cases h : 6 ≤ n + 1
  · rw [if_pos h, if_pos h]
  · rw [if_neg h, if_neg h, decide_eq_false (by omega : ¬ 6 ≤ n), Bool.not_false, if_pos rfl]

/-- KEY(0) has been low for n edges, and nothing has cleared its bit but the reset. -/
structure Held (n : ℕ) (s : KeyWiring) : Prop where
  rstController : s.rstController = pressed n
  key : s.resetResetN = false
  wiped : 6 ≤ n → s.keys = .reset
  seen : n < 6 → n = 1 ∧ s.keys.d1DataIn.getLsbD 0 = false ∧ s.keys.d2DataIn.getLsbD 0 = true ∨
    s.keys.edgeCapture.getLsbD 0 = true

theorem Held.step (hs : Held n s) (hp : ∀ k ∈ p.levels, k.getLsbD 0 = false)
    (hwrite : NiosSystemKeys.edgeCaptureWrStrobe p.access = false) : Held (n + 1) (step true s p) := by
  rw [step_of_held hs.rstController hs.key hs.wiped hp]
  constructor
  · rfl
  · exact sampled_of (P := fun k => k.getLsbD 0 = false) hs.key hp
  · intro h
    exact if_pos h
  · intro h
    right
    have hclock := NiosSystemKeys.clock_edgeCapture s.keys (sampled s p) p.access 0
    rw [if_neg (by omega)]
    refine hclock.trans ?_
    rw [hwrite]
    rcases hs.seen (by omega) with ⟨-, hd₁, hd₂⟩ | hseen
    · simp only [Fin.val_zero, hd₁, hd₂, Bool.not_false, Bool.and_true, Bool.or_true]
    · simp only [Fin.val_zero, hseen, Bool.not_false, Bool.true_or, Bool.and_true]

theorem Held.run (hs : Held n s) {ps : List Period} (hps : ∀ p ∈ ps, ∀ k ∈ p.levels, k.getLsbD 0 = false)
    (hwrites : ∀ p ∈ ps, NiosSystemKeys.edgeCaptureWrStrobe p.access = false) :
    Held (n + ps.length) (run (KeyWiring.step true) s ps) := by
  induction ps generalizing n s with
  | nil => exact hs
  | cons p ps ih =>
      obtain ⟨hp, hps⟩ := List.forall_mem_cons.mp hps
      obtain ⟨hwrite, hwrites⟩ := List.forall_mem_cons.mp hwrites
      rw [List.length_cons, ← Nat.add_assoc, Nat.add_right_comm]
      exact ih (hs.step hp hwrite) hps hwrites

theorem held_of_falls (hs : s.rstController = quiescent) (hd : s.keys.d1DataIn = 0xF)
    (hfalls : p.levels ≠ []) (hp : ∀ k ∈ p.levels, k.getLsbD 0 = false) : Held 1 (step true s p) := by
  obtain ⟨levels, access⟩ := p
  obtain ⟨k, ks, rfl⟩ := List.exists_cons_of_ne_nil hfalls
  obtain ⟨hk, hks⟩ := List.forall_mem_cons.mp hp
  have hfall : pins true s k = ⟨k, pressed 0, s.keys⟩ := by
    simp only [pins, settle, resetResetN, hk, hs, Bool.not_false, resetN, pressed_resetOut,
      show quiescent.settle true = pressed 0 from rfl, NiosSystemKeys.settle]
    rfl
  have hstep : step true s ⟨k :: ks, access⟩ = step true ⟨k, pressed 0, s.keys⟩ ⟨ks, access⟩ := by
    rw [step, run_cons, hfall]
    rfl
  have hsampled := sampled_of (s := ⟨k, pressed 0, s.keys⟩) (p := ⟨ks, access⟩)
    (P := fun k => k.getLsbD 0 = false) hk hks
  rw [hstep, step_of_held (s := ⟨k, pressed 0, s.keys⟩) (n := 0) (p := ⟨ks, access⟩) rfl hk
    (fun h => absurd h (by decide)) hks]
  constructor
  · rfl
  · exact hsampled
  · intro h
    exact absurd h (by decide)
  · intro _
    refine .inl ⟨rfl, hsampled, ?_⟩
    rw [if_neg (by decide)]
    exact congrArg (fun d => d.getLsbD 0) hd

/-- With RESET_REQUEST_PRESENT, which nios_system sets for this controller, the reset comes late:
a press of KEY(0) that nothing else touches sets the bit for four periods, then the reset of the
whole system, the processor included, takes it away again. -/
theorem key0_seen_until_reset {low : List Period} (hs : s.rstController = quiescent) (hd : s.keys.d1DataIn = 0xF)
    (hfalls : ∀ p ∈ low.head?, p.levels ≠ []) (hlow : ∀ p ∈ low, ∀ k ∈ p.levels, k.getLsbD 0 = false)
    (hwrites : ∀ p ∈ low, NiosSystemKeys.edgeCaptureWrStrobe p.access = false) (hn : 2 ≤ n)
    (hlength : n ≤ low.length) :
    (run (step true) s (low.take n)).keys.edgeCapture.getLsbD 0 = decide (n < 6) ∧
      (run (step true) s (low.take n)).resetN true = decide (n < 6) := by
  obtain ⟨m, rfl⟩ := Nat.exists_eq_add_of_le hn
  obtain ⟨p, rest, rfl⟩ := List.exists_cons_of_length_pos (show 0 < low.length by omega)
  have hfirst := held_of_falls hs hd (hfalls p rfl) (hlow p (by simp))
  have hheld : Held (2 + m) (run (step true) s ((p :: rest).take (2 + m))) := by
    have hlast : (rest.take (m + 1)).length = m + 1 := by
      rw [List.length_take]
      rw [List.length_cons] at hlength
      omega
    have hrun : Held (1 + (rest.take (m + 1)).length)
        (run (KeyWiring.step true) (KeyWiring.step true s p) (rest.take (m + 1))) := by
      apply hfirst.run
      · intro x hx
        exact hlow x (List.mem_cons_of_mem p (List.mem_of_mem_take hx))
      · intro x hx
        exact hwrites x (List.mem_cons_of_mem p (List.mem_of_mem_take hx))
    rw [hlast, show 1 + (m + 1) = 2 + m by omega] at hrun
    rwa [show 2 + m = m + 1 + 1 by omega, List.take_succ_cons, run_cons, show m + 1 + 1 = 2 + m by omega]
  constructor
  · by_cases h : 2 + m < 6
    · rw [decide_eq_true h]
      rcases hheld.seen h with ⟨hone, -⟩ | hseen
      · omega
      · exact hseen
    · rw [decide_eq_false h, hheld.wiped (by omega)]
      rfl
  · rw [resetN, hheld.rstController, pressed_resetOut]
    by_cases h : 2 + m < 6
    · rw [decide_eq_true h, decide_eq_false (by omega)]
      rfl
    · rw [decide_eq_false h, decide_eq_true (by omega)]
      rfl

/-- However far a press of KEY(0) has got in the port, the reset that it asks for is close behind. -/
structure Overtaken (s : KeyWiring) : Prop where
  low : s.resetResetN = false → s.rstController.Due 6
  falling : s.keys.d1DataIn.getLsbD 0 = false → s.keys.d2DataIn.getLsbD 0 = true → s.rstController.Due 5
  captured : s.keys.edgeCapture.getLsbD 0 = true → s.rstController.Due 4

theorem Overtaken.settle
    (hfalling : s.keys.d1DataIn.getLsbD 0 = false → s.keys.d2DataIn.getLsbD 0 = true → s.rstController.Due 5)
    (hcaptured : s.keys.edgeCapture.getLsbD 0 = true → s.rstController.Due 4) : Overtaken (settle true s) := by
  have hlow : (KeyWiring.settle true s).resetResetN = false → (KeyWiring.settle true s).rstController.Due 6 := by
    intro hkey
    have hkey : s.resetResetN = false := hkey
    simp only [KeyWiring.settle, hkey, Bool.not_false]
    exact AlteraResetController.due_settle s.rstController
  rcases settle_keys true s with hkeys | hkeys
  · refine ⟨hlow, ?_, ?_⟩
    · rw [hkeys]
      exact fun hd₁ hd₂ => (hfalling hd₁ hd₂).settle _
    · rw [hkeys]
      exact fun hcapture => (hcaptured hcapture).settle _
  · refine ⟨hlow, ?_, ?_⟩
    · rw [hkeys]
      exact fun _ hd₂ => absurd hd₂ (by decide)
    · rw [hkeys]
      exact fun hcapture => absurd hcapture (by decide)

theorem Overtaken.pins (h : Overtaken s) (k : BitVec 4) : Overtaken (pins true s k) :=
  Overtaken.settle h.falling h.captured

theorem Overtaken.edge (h : Overtaken s) (a : PioAccess) : Overtaken (edge true s a) := by
  by_cases hout : s.resetN true = true
  · have hquiet : s.rstController.resetOut true = false := by simpa [resetN] using hout
    rw [KeyWiring.edge, if_pos hout]
    apply Overtaken.settle
    · intro (hd₁ : s.key.getLsbD 0 = false) _
      exact (h.low hd₁).clock hquiet _
    · intro hcapture
      have hclock := (NiosSystemKeys.clock_edgeCapture s.keys s.key a 0).symm.trans hcapture
      apply AlteraResetController.Due.clock _ hquiet
      simp only [Bool.and_eq_true, Bool.or_eq_true, Bool.not_eq_true', Fin.val_zero] at hclock
      rcases hclock.2 with hbefore | ⟨hd₁, hd₂⟩
      · exact (h.captured hbefore).mono (by decide)
      · exact h.falling hd₁ hd₂
  · rw [KeyWiring.edge, if_neg hout]
    apply Overtaken.settle
    · intro _ (hd₂ : NiosSystemKeys.reset.d2DataIn.getLsbD 0 = true)
      exact absurd hd₂ (by decide)
    · intro (hcapture : NiosSystemKeys.reset.edgeCapture.getLsbD 0 = true)
      exact absurd hcapture (by decide)

end KeyWiring

end Montre.Hardware
