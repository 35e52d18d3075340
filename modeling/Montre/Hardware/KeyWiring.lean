import Montre.Hardware.NiosSystem
import Montre.Library.Runs

namespace Montre.Hardware

open Montre.Library Runs

/-- KEY in TOP_LEVEL: all of it goes to the KEYS port, and KEY(0) to reset_reset_n as well.
The other reset request, that of the debug module, stays low. -/
structure KeyWiring where
  key : BitVec 4
  rstController : AlteraResetController
  keys : NiosSystemKeys
deriving DecidableEq

namespace KeyWiring

/-- A clock period: the levels that KEY takes in it, then the rising edge that ends it. -/
structure Period where
  levels : List (BitVec 4)
  access : PioAccess
deriving DecidableEq

variable (requestPresent : Bool)

def resetResetN (s : KeyWiring) : Bool := s.key.getLsbD 0

def resetN (s : KeyWiring) : Bool := !s.rstController.resetOut requestPresent

def settle (s : KeyWiring) : KeyWiring :=
  let s := { s with rstController := s.rstController.settle (!s.resetResetN) }
  { s with keys := s.keys.settle (s.resetN requestPresent) }

def pins (s : KeyWiring) (key : BitVec 4) : KeyWiring := settle requestPresent { s with key := key }

def edge (s : KeyWiring) (a : PioAccess) : KeyWiring :=
  settle requestPresent { s with
    rstController := s.rstController.clock (!s.resetResetN)
    keys := if s.resetN requestPresent then s.keys.clock s.key a else .reset }

def step (s : KeyWiring) (p : Period) : KeyWiring :=
  edge requestPresent (run (pins requestPresent) s p.levels) p.access

theorem edge_key (s : KeyWiring) (a : PioAccess) : (edge requestPresent s a).key = s.key := rfl

theorem settle_keys (s : KeyWiring) :
    (settle requestPresent s).keys = s.keys ∨ (settle requestPresent s).keys = .reset := by
  simp only [settle, NiosSystemKeys.settle]
  split_ifs
  · exact .inl rfl
  · exact .inr rfl

structure Unseen (i : Fin 4) (s : KeyWiring) : Prop where
  edgeCapture : s.keys.edgeCapture.getLsbD i.val = false
  d1DataIn : s.keys.d1DataIn.getLsbD i.val = false
  d2DataIn : s.keys.d2DataIn.getLsbD i.val = false
  key : s.key.getLsbD i.val = false

section Unseen

variable {requestPresent : Bool} {i : Fin 4} {s : KeyWiring}

theorem unseen_of_reset (hkeys : s.keys = .reset) (hkey : s.key.getLsbD i.val = false) : Unseen i s := by
  constructor
  · simp [hkeys, NiosSystemKeys.reset]
  · simp [hkeys, NiosSystemKeys.reset]
  · simp [hkeys, NiosSystemKeys.reset]
  · exact hkey

theorem Unseen.settle (h : Unseen i s) : Unseen i (settle requestPresent s) := by
  rcases settle_keys requestPresent s with hkeys | hkeys
  · constructor
    · rw [hkeys]
      exact h.edgeCapture
    · rw [hkeys]
      exact h.d1DataIn
    · rw [hkeys]
      exact h.d2DataIn
    · exact h.key
  · exact unseen_of_reset hkeys h.key

theorem Unseen.pins (h : Unseen i s) {k : BitVec 4} (hk : k.getLsbD i.val = false) :
    Unseen i (pins requestPresent s k) := by
  apply Unseen.settle
  exact ⟨h.edgeCapture, h.d1DataIn, h.d2DataIn, hk⟩

theorem Unseen.edge (h : Unseen i s) (a : PioAccess) : Unseen i (edge requestPresent s a) := by
  apply Unseen.settle
  split_ifs
  · constructor
    · rw [NiosSystemKeys.clock_edgeCapture, h.edgeCapture, h.d2DataIn, Bool.and_false, Bool.or_false,
        Bool.and_false]
    · exact h.key
    · exact h.d1DataIn
    · exact h.key
  · exact unseen_of_reset rfl h.key

theorem Unseen.run_pins (h : Unseen i s) {ks : List (BitVec 4)} (hks : ∀ k ∈ ks, k.getLsbD i.val = false) :
    Unseen i (run (KeyWiring.pins requestPresent) s ks) := by
  apply invariant_of_forall _ h hks
  intro t k ht hk
  exact ht.pins hk

theorem Unseen.run (h : Unseen i s) {ps : List Period}
    (hps : ∀ p ∈ ps, ∀ k ∈ p.levels, k.getLsbD i.val = false) :
    Unseen i (run (step requestPresent) s ps) := by
  apply invariant_of_forall _ h hps
  intro t p ht hp
  exact (ht.run_pins hp).edge p.access

end Unseen

def sampled (s : KeyWiring) (p : Period) : BitVec 4 := p.levels.getLast?.getD s.key

section Keys

variable {requestPresent : Bool} {P : BitVec 4 → Prop} {s : KeyWiring}

theorem run_pins_key (ks : List (BitVec 4)) :
    (run (pins requestPresent) s ks).key = ks.getLast?.getD s.key := by
  induction ks generalizing s with
  | nil => rfl
  | cons k ks ih =>
      rw [run_cons, ih, List.getLast?_cons]
      rfl

theorem run_pins_eq (hsettle : ∀ k, P k → settle requestPresent { s with key := k } = { s with key := k })
    {ks : List (BitVec 4)} (hks : ∀ k ∈ ks, P k) :
    run (pins requestPresent) s ks = { s with key := ks.getLast?.getD s.key } := by
  induction ks generalizing s with
  | nil => rfl
  | cons k ks ih =>
      obtain ⟨hk, hks⟩ := List.forall_mem_cons.mp hks
      rw [run_cons, pins, hsettle k hk, List.getLast?_cons]
      exact ih hsettle hks

theorem step_key (p : Period) : (step requestPresent s p).key = sampled s p := by
  rw [step, edge_key]
  exact run_pins_key p.levels

theorem sampled_of (hs : P s.key) {p : Period} (hp : ∀ k ∈ p.levels, P k) : P (sampled s p) := by
  cases h : p.levels.getLast? with
  | none => rwa [sampled, h]
  | some k =>
      rw [sampled, h]
      exact hp k (List.mem_of_getLast? h)

theorem key_run (hs : P s.key) {ps : List Period} (hps : ∀ p ∈ ps, ∀ k ∈ p.levels, P k) :
    P (run (step requestPresent) s ps).key := by
  refine invariant_of_forall (I := fun t => P t.key) (f := step requestPresent) ?_ hs hps
  intro t p ht hp
  rw [step_key]
  exact sampled_of ht hp

end Keys

section Asynchronous

variable {i : Fin 4} {s : KeyWiring} {p q : Period}

theorem settle_of_low (hkey : s.resetResetN = false) : (settle false s).keys = .reset := by
  simp [settle, hkey, AlteraResetController.settle, AlteraResetSynchronizer.settle,
    AlteraResetSynchronizer.asserted, resetN, AlteraResetController.resetOut, NiosSystemKeys.settle]

theorem settle_of_released (hout : s.resetN false = true) (hkey : s.resetResetN = true) :
    settle false s = s := by
  have hrelease : s.rstController.settle false = s.rstController := rfl
  simp only [settle, hkey, Bool.not_true, hrelease, hout, NiosSystemKeys.settle, if_true]

theorem settle_resetN (hkey : s.resetResetN = true) : (settle false s).resetN false = s.resetN false := by
  have hrelease : s.rstController.settle false = s.rstController := rfl
  simp only [settle, hkey, Bool.not_true, hrelease, resetN]

theorem edge_of_released (hout : s.resetN false = true) (hkey : s.resetResetN = true) (a : PioAccess) :
    edge false s a = settle false
      { s with rstController := s.rstController.clock false, keys := s.keys.clock s.key a } := by
  rw [edge, hkey, hout, if_pos rfl]
  rfl

theorem run_pins_of_released (hout : s.resetN false = true) {ks : List (BitVec 4)}
    (hks : ∀ k ∈ ks, k.getLsbD 0 = true) :
    run (pins false) s ks = { s with key := ks.getLast?.getD s.key } := by
  apply run_pins_eq (P := fun k => k.getLsbD 0 = true) _ hks
  intro k hk
  exact settle_of_released hout hk

theorem step_of_released (hout : s.resetN false = true) (hkey : s.resetResetN = true)
    (hp : ∀ k ∈ p.levels, k.getLsbD 0 = true) :
    step false s p = settle false ⟨sampled s p, s.rstController.clock false,
      s.keys.clock (sampled s p) p.access⟩ := by
  rw [step, run_pins_of_released hout hp]
  apply edge_of_released
  · exact hout
  · exact sampled_of (P := fun k => k.getLsbD 0 = true) hkey hp

/-- A reset leaves nothing of the press, whether it comes before or after the first edge of it. -/
theorem unseen_of_low (hlow : ¬ ∀ k ∈ p.levels, k.getLsbD 0 = true)
    (hp : ∀ k ∈ p.levels, k.getLsbD i.val = false) : Unseen i (step false s p) := by
  apply Unseen.edge
  push Not at hlow
  obtain ⟨k, hk, hk₀⟩ := hlow
  have hk₀ := Bool.eq_false_of_not_eq_true hk₀
  obtain ⟨before, after, hlevels⟩ := List.append_of_mem hk
  rw [hlevels, run_append, run_cons]
  rw [hlevels] at hp
  apply Unseen.run_pins
  · exact unseen_of_reset (settle_of_low hk₀) (hp k (by simp))
  · intro k' hk'
    exact hp k' (by simp [hk'])

end Asynchronous

/-- The port has not captured KEY(0), and is not about to: a low level of it is a reset. -/
structure Blind (s : KeyWiring) : Prop where
  edgeCapture : s.keys.edgeCapture.getLsbD 0 = false
  rises : s.keys.d2DataIn.getLsbD 0 = true → s.keys.d1DataIn.getLsbD 0 = true
  pressed : s.resetResetN = false → s.keys = .reset

theorem blind_of_reset {s : KeyWiring} (h : s.keys = .reset) : Blind s := by
  constructor
  · rw [h]
    rfl
  · intro hd
    rw [h] at hd
    exact absurd hd (by decide)
  · intro _
    exact h

theorem Blind.settle {s : KeyWiring} (hcapture : s.keys.edgeCapture.getLsbD 0 = false)
    (hrises : s.keys.d2DataIn.getLsbD 0 = true → s.keys.d1DataIn.getLsbD 0 = true) :
    Blind (settle false s) := by
  rcases settle_keys false s with h | h
  · constructor
    · rw [h]
      exact hcapture
    · rw [h]
      exact hrises
    · intro hkey
      exact settle_of_low (s := s) hkey
  · exact blind_of_reset h

theorem Blind.pins {s : KeyWiring} (hs : Blind s) (k : BitVec 4) : Blind (pins false s k) :=
  Blind.settle hs.edgeCapture hs.rises

theorem Blind.edge {s : KeyWiring} (hs : Blind s) (a : PioAccess) : Blind (edge false s a) := by
  by_cases hout : s.resetN false = true
  · rw [KeyWiring.edge, if_pos hout]
    apply Blind.settle
    · have hdetect : (!s.keys.d1DataIn.getLsbD 0 && s.keys.d2DataIn.getLsbD 0) = false := by
        cases hd : s.keys.d2DataIn.getLsbD 0 with
        | false => exact Bool.and_false _
        | true => rw [hs.rises hd, Bool.not_true, Bool.false_and]
      have hclock := NiosSystemKeys.clock_edgeCapture s.keys s.key a 0
      simp only [Fin.val_zero, hs.edgeCapture, hdetect, Bool.or_false, Bool.and_false] at hclock
      exact hclock
    · intro (hd : s.keys.d1DataIn.getLsbD 0 = true)
      -- the last sample of KEY(0) was high, so KEY(0) is not holding the port in reset now
      by_contra hkey
      rw [hs.pressed (Bool.eq_false_of_not_eq_true hkey)] at hd
      exact absurd hd (by decide)
  · rw [KeyWiring.edge, if_neg hout]
    have hreset : Blind ⟨s.key, s.rstController.clock (!s.resetResetN), .reset⟩ := blind_of_reset rfl
    exact Blind.settle hreset.edgeCapture hreset.rises

theorem Blind.step {s : KeyWiring} (hs : Blind s) (p : Period) : Blind (step false s p) := by
  apply Blind.edge
  apply invariant (I := Blind) _ hs
  intro t k ht
  exact ht.pins k

/-- Configured while KEY(0) is held. -/
def powerUp : KeyWiring := ⟨0xE, .powerUp, .reset⟩

def untouched (key : BitVec 4) : Period := ⟨[key], ⟨0, false, true, 0⟩⟩

def released : KeyWiring := run (step false) powerUp (List.replicate 3 (untouched 0xF))

/-- With the reset asserted asynchronously, in no run is a press of KEY(0) ever seen. -/
theorem key0_never_captured (ps : List Period) :
    (run (step false) powerUp ps).keys.edgeCapture.getLsbD 0 = false := by
  apply Blind.edgeCapture
  apply invariant _ (blind_of_reset rfl)
  intro s p hs
  exact hs.step p

end KeyWiring

end Montre.Hardware
