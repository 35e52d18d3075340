import Montre.Hardware.KeyWiring

namespace Montre.Hardware.KeyWiring

open Montre.Library Runs

/-- Key i falls after at least four edges at which all keys are high and the system is
out of reset, and is still low at the next three. -/
structure Press (requestPresent : Bool) (i : Fin 4) (s : KeyWiring) (high low : List Period) : Prop where
  four_high : 4 ≤ high.length
  key_high : s.key = 0xF
  stable : ∀ p ∈ high, ∀ k ∈ p.levels, k = 0xF
  out_of_reset : Meets (step requestPresent) (fun t _ => t.resetN requestPresent = true) s high
  out_of_reset_end : (run (step requestPresent) s high).resetN requestPresent = true
  three_low : 3 ≤ low.length
  falls : ∀ p ∈ low.head?, p.levels ≠ []
  stays_low : ∀ p ∈ low, ∀ k ∈ p.levels, k.getLsbD i.val = false

/-- Bit i is set in a state from the second edge of the press on; before it, only an
earlier press can have set it. -/
def Captured (requestPresent : Bool) (i : Fin 4) (s : KeyWiring) (low : List Period) : Prop :=
  ∃ n, 2 ≤ n ∧ n ≤ low.length ∧
    (run (step requestPresent) s (low.take n)).keys.edgeCapture.getLsbD i.val = true

variable {i : Fin 4} {s : KeyWiring} {p q : Period}

theorem step_of_still_released (hout : s.resetN false = true) (hkey : s.resetResetN = true)
    (hp : ∀ k ∈ p.levels, k.getLsbD 0 = true) (hout' : (step false s p).resetN false = true) :
    step false s p = ⟨sampled s p, s.rstController.clock false, s.keys.clock (sampled s p) p.access⟩ := by
  have hsampled := sampled_of (P := fun k => k.getLsbD 0 = true) hkey hp
  rw [step_of_released hout hkey hp] at hout' ⊢
  apply settle_of_released
  · rwa [settle_resetN] at hout'
    exact hsampled
  · exact hsampled

def Idle (s : KeyWiring) : Prop := s.rstController.altRstSync = ⟨0, false⟩

theorem Idle.resetN (hs : Idle s) : s.resetN false = true := by
  simp [KeyWiring.resetN, AlteraResetController.resetOut, show s.rstController.altRstSync = ⟨0, false⟩ from hs]

theorem Idle.step (hs : Idle s) (hkey : s.resetResetN = true) (hp : ∀ k ∈ p.levels, k.getLsbD 0 = true) :
    Idle (step false s p) ∧ (step false s p).resetResetN = true ∧
      (step false s p).keys = s.keys.clock (sampled s p) p.access := by
  have hsampled := sampled_of (P := fun k => k.getLsbD 0 = true) hkey hp
  have hidle : Idle ⟨sampled s p, s.rstController.clock false, s.keys.clock (sampled s p) p.access⟩ := by
    simp [Idle, AlteraResetController.clock, AlteraResetSynchronizer.clock,
      show s.rstController.altRstSync = ⟨0, false⟩ from hs]
  rw [step_of_released hs.resetN hkey hp, settle_of_released hidle.resetN hsampled]
  exact ⟨hidle, hsampled, rfl⟩

theorem Press.ready {high low : List Period} (h : Press false i s high low) :
    Idle (run (step false) s high) ∧ (run (step false) s high).key = 0xF ∧
      (run (step false) s high).keys.d1DataIn = 0xF := by
  obtain ⟨pre, p, q, rfl⟩ : ∃ pre p q, high = pre ++ [p, q] := by
    have hfour := h.four_high
    rcases List.eq_nil_or_concat' high with rfl | ⟨pre, q, rfl⟩
    · simp at hfour
    · rcases List.eq_nil_or_concat' pre with rfl | ⟨pre, p, rfl⟩
      · simp at hfour
      · exact ⟨pre, p, q, by simp⟩
  obtain ⟨-, hreset⟩ := meets_append.mp h.out_of_reset
  obtain ⟨hout, hreset⟩ := meets_cons.mp hreset
  obtain ⟨hout', -⟩ := meets_cons.mp hreset
  have hout'' := h.out_of_reset_end
  have hkey : (run (step false) s pre).key = 0xF := by
    apply key_run (P := fun k => k = 0xF) h.key_high
    intro p hp
    exact h.stable p (by simp [hp])
  have hp := h.stable p (by simp)
  have hq := h.stable q (by simp)
  rw [run_append] at hout'' ⊢
  simp only [run_cons, run_nil] at hout'' ⊢
  generalize run (step false) s pre = t at *
  have hhigh : ∀ k : BitVec 4, k = 0xF → k.getLsbD 0 = true := by
    rintro k rfl
    rfl
  have hkey' : (step false t p).key = 0xF := by
    rw [step_key]
    exact sampled_of (P := fun k => k = 0xF) hkey hp
  have hkey'' := sampled_of (P := fun k => k = 0xF) hkey' hq
  have hfirst := step_of_still_released hout (hhigh _ hkey) (fun k hk => hhigh k (hp k hk)) hout'
  have hsecond := step_of_still_released hout' (hhigh _ hkey') (fun k hk => hhigh k (hq k hk)) hout''
  have hshift : ∀ chain : BitVec 2, chain >>> 1 >>> 1 = 0 := by decide
  rw [hsecond] at hout'' ⊢
  refine ⟨?_, hkey'', hkey''⟩
  rw [hfirst] at hout'' ⊢
  simpa [Idle, resetN, AlteraResetController.resetOut, AlteraResetController.clock,
    AlteraResetSynchronizer.clock, hshift] using hout''

theorem second_edge (hs : Idle s) (hkey : s.key = 0xF) (hd : s.keys.d1DataIn = 0xF) (hfalls : p.levels ≠ [])
    (hp : ∀ k ∈ p.levels, k.getLsbD i.val = false) (hq : ∀ k ∈ q.levels, k.getLsbD i.val = false)
    (hp₀ : ∀ k ∈ p.levels, k.getLsbD 0 = true) (hq₀ : ∀ k ∈ q.levels, k.getLsbD 0 = true) :
    (run (step false) s [p, q]).keys.edgeCapture.getLsbD i.val =
        !NiosSystemKeys.edgeCaptureWrStrobe q.access ∧
      (NiosSystemKeys.edgeCaptureWrStrobe q.access = true → Unseen i (run (step false) s [p, q])) := by
  have hhigh : s.resetResetN = true := by rw [resetResetN, hkey]; rfl
  have hsampled : (sampled s p).getLsbD i.val = false := by
    rw [sampled, List.getLast?_eq_some_getLast hfalls]
    exact hp _ (List.getLast_mem hfalls)
  obtain ⟨hidle, hhigh', hfirst⟩ := hs.step hhigh hp₀
  obtain ⟨-, -, hsecond⟩ := hidle.step hhigh' hq₀
  have hsampled' : (sampled (step false s p) q).getLsbD i.val = false := by
    apply sampled_of (P := fun k => k.getLsbD i.val = false) _ hq
    rwa [step_key]
  have hones : ∀ i : Fin 4, (0xF : BitVec 4).getLsbD i.val = true := by decide
  have hd₁ : (step false s p).keys.d1DataIn = sampled s p := by
    rw [hfirst]
    rfl
  have hd₂ : (step false s p).keys.d2DataIn = 0xF := by
    rw [hfirst]
    exact hd
  have hcapture : (run (step false) s [p, q]).keys.edgeCapture.getLsbD i.val =
      !NiosSystemKeys.edgeCaptureWrStrobe q.access := by
    rw [run_cons, run_cons, run_nil, hsecond, NiosSystemKeys.clock_edgeCapture, hd₁, hd₂, hsampled, hones,
      Bool.not_false, Bool.and_true, Bool.or_true, Bool.and_true]
  refine ⟨hcapture, ?_⟩
  intro hstrobe
  rw [hstrobe] at hcapture
  constructor
  · exact hcapture
  · rw [run_cons, run_cons, run_nil, hsecond]
    exact hsampled'
  · rw [run_cons, run_cons, run_nil, hsecond]
    exact (congrArg (fun k => k.getLsbD i.val) hd₁).trans hsampled
  · rw [run_cons, run_cons, run_nil, step_key]
    exact hsampled'

theorem Captured.seen {rest : List Period} (h : Captured false i s (p :: q :: rest))
    (hrest : ∀ x ∈ rest, ∀ k ∈ x.levels, k.getLsbD i.val = false) : ¬ Unseen i (run (step false) s [p, q]) := by
  intro hunseen
  obtain ⟨n, hn, -, hset⟩ := h
  obtain ⟨n, rfl⟩ := Nat.exists_eq_add_of_le' hn
  have hlost : Unseen i (run (step false) (run (step false) s [p, q]) (rest.take n)) := by
    apply hunseen.run
    intro x hx
    exact hrest x (List.mem_of_mem_take hx)
  rw [← run_append] at hlost
  exact Bool.false_ne_true (hlost.edgeCapture.symm.trans hset)

/-- With the reset asserted asynchronously, a press is captured exactly when KEY(0) stays high
up to its second edge, and the port is not cleared at that edge. -/
theorem press_captured_iff {high low : List Period} (h : Press false i s high low) :
    Captured false i (run (step false) s high) low ↔
      (∀ p ∈ low.take 2, ∀ k ∈ p.levels, k.getLsbD 0 = true) ∧
        ∀ p ∈ low[1]?, NiosSystemKeys.edgeCaptureWrStrobe p.access = false := by
  obtain ⟨hidle, hkey, hd⟩ := h.ready
  obtain ⟨p, q, rest, rfl⟩ : ∃ p q rest, low = p :: q :: rest := by
    match low, h.three_low with
    | p :: q :: rest, _ => exact ⟨p, q, rest, rfl⟩
  have hfalls := h.falls p rfl
  have hp := h.stays_low p (by simp)
  have hq := h.stays_low q (by simp)
  have hrest : ∀ x ∈ rest, ∀ k ∈ x.levels, k.getLsbD i.val = false := by
    intro x hx
    exact h.stays_low x (by simp [hx])
  generalize run (step false) s high = t at *
  constructor
  · intro hcaptured
    have hseen := hcaptured.seen hrest
    have hp₀ : ∀ k ∈ p.levels, k.getLsbD 0 = true := by
      by_contra hlow
      have hlast : ∀ x ∈ [q], ∀ k ∈ x.levels, k.getLsbD i.val = false := by simpa using hq
      exact hseen ((unseen_of_low hlow hp).run hlast)
    have hq₀ : ∀ k ∈ q.levels, k.getLsbD 0 = true := by
      by_contra hlow
      exact hseen (unseen_of_low hlow hq)
    obtain ⟨-, hmissed⟩ := second_edge hidle hkey hd hfalls hp hq hp₀ hq₀
    constructor
    · simp only [List.take_succ_cons, List.take_zero, List.forall_mem_cons, List.not_mem_nil]
      exact ⟨hp₀, hq₀, by simp⟩
    · rintro _ ⟨⟩
      rw [← Bool.not_eq_true]
      intro hstrobe
      exact hseen (hmissed hstrobe)
  · rintro ⟨hkey₀, hstrobe⟩
    refine ⟨2, le_rfl, by simp, ?_⟩
    have hcapture := (second_edge hidle hkey hd hfalls hp hq (hkey₀ p (by simp)) (hkey₀ q (by simp))).1
    rw [hstrobe q rfl] at hcapture
    exact hcapture

theorem press_untouched {key : BitVec 4} (hkey : key.getLsbD i.val = false) :
    Press false i released (List.replicate 4 (untouched 0xF)) (List.replicate 3 (untouched key)) := by
  constructor
  · decide
  · decide
  · decide
  · decide
  · decide
  · exact Nat.le_refl 3
  · rintro p ⟨⟩
    exact List.cons_ne_nil key []
  · intro p hp k hk
    obtain rfl := List.eq_of_mem_replicate hp
    obtain rfl := List.mem_singleton.mp hk
    exact hkey

theorem press_captured_iff_key1 :
    Captured false 1 (run (step false) released (List.replicate 4 (untouched 0xF)))
      (List.replicate 3 (untouched 0xD)) :=
  (press_captured_iff (press_untouched (by decide))).mpr ⟨by decide, by decide⟩

theorem key0_press_lost :
    ¬ ∀ (i : Fin 4) (s : KeyWiring) (high low : List Period), Press false i s high low →
      Captured false i (run (step false) s high) low := by
  intro h
  have hcaptured := h 0 released (List.replicate 4 (untouched 0xF)) (List.replicate 3 (untouched 0xE))
    (press_untouched (by decide))
  obtain ⟨n, hn, hlength, hset⟩ := hcaptured
  rw [List.length_replicate] at hlength
  obtain rfl | rfl : n = 2 ∨ n = 3 := by omega
  · exact absurd hset (by decide)
  · exact absurd hset (by decide)

end Montre.Hardware.KeyWiring
