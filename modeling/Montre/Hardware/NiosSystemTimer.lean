import Montre.Firmware.Program
import Montre.Hardware.Fdiv
import Montre.Library.Flow
import Mathlib.Data.BitVec
import Mathlib.Data.List.DropRight

namespace Montre.Hardware

open Montre.Library Runs Flow

structure TimerAccess where
  address : BitVec 3
  chipselect : Bool
  writeN : Bool
  writedata : BitVec 16
deriving DecidableEq

structure NiosSystemTimer where
  internalCounter : BitVec 32
  forceReload : Bool
  counterIsRunning : Bool
  delayedCounterIsZero : Bool
  timeoutOccurred : Bool
  readdata : BitVec 16
  periodLRegister : BitVec 16
  periodHRegister : BitVec 16
  controlRegister : BitVec 4
deriving DecidableEq

namespace TimerAccess

variable (a : TimerAccess)

def write (address : BitVec 3) (writedata : BitVec 16) : TimerAccess := ⟨address, true, false, writedata⟩

def wrStrobe (address : BitVec 3) : Bool := a.chipselect && !a.writeN && a.address == address

def statusWrStrobe : Bool := a.wrStrobe 0

def controlWrStrobe : Bool := a.wrStrobe 1

def periodLWrStrobe : Bool := a.wrStrobe 2

def periodHWrStrobe : Bool := a.wrStrobe 3

def startStrobe : Bool := a.writedata.getLsbD 2 && a.controlWrStrobe

def stopStrobe : Bool := a.writedata.getLsbD 3 && a.controlWrStrobe

structure Spares : Prop where
  control : a.controlWrStrobe = false
  periodL : a.periodLWrStrobe = false
  periodH : a.periodHWrStrobe = false

instance : Decidable a.Spares :=
  decidable_of_iff (a.controlWrStrobe = false ∧ a.periodLWrStrobe = false ∧ a.periodHWrStrobe = false)
    ⟨fun ⟨h₁, h₂, h₃⟩ => ⟨h₁, h₂, h₃⟩, fun ⟨h₁, h₂, h₃⟩ => ⟨h₁, h₂, h₃⟩⟩

def programs : Bool := a.controlWrStrobe || a.periodLWrStrobe || a.periodHWrStrobe

theorem spares_of_not_programs {a : TimerAccess} (h : a.programs ≠ true) : a.Spares := by
  simp only [programs, Bool.not_eq_true, Bool.or_eq_false_iff] at h
  exact ⟨h.1.1, h.1.2, h.2⟩

theorem Spares.not_programs {a : TimerAccess} (h : a.Spares) : a.programs = false := by
  rw [programs, h.control, h.periodL, h.periodH, Bool.or_false, Bool.or_false]

theorem Spares.startStrobe {a : TimerAccess} (h : a.Spares) : a.startStrobe = false := by
  rw [TimerAccess.startStrobe, h.control, Bool.and_false]

theorem Spares.stopStrobe {a : TimerAccess} (h : a.Spares) : a.stopStrobe = false := by
  rw [TimerAccess.stopStrobe, h.control, Bool.and_false]

/-- The access that an IOWR makes on the slave, which has 16 of the 32 data lines. -/
def ofIowr (w : Firmware.Iowr) : Option TimerAccess :=
  match w.base with
  | .timerControl => some (write 1 (w.data.setWidth 16))
  | .timerPeriodl => some (write 2 (w.data.setWidth 16))
  | .timerPeriodh => some (write 3 (w.data.setWidth 16))
  | .keysEdgeCap | .keysIrqMask | .ledg | .alarmBell0 | .chrono0 | .startChrono | .hexs => none

end TimerAccess

namespace NiosSystemTimer

open TimerAccess

def reset : NiosSystemTimer := ⟨0x2FAF07F, false, false, false, false, 0, 61567, 762, 0⟩

variable (s : NiosSystemTimer) (a : TimerAccess)

def counterIsZero : Bool := s.internalCounter == 0

def counterLoadValue : BitVec 32 := s.periodHRegister ++ s.periodLRegister

def controlContinuous : Bool := s.controlRegister.getLsbD 1

-- the register has four bits, the wire it is assigned to has one
def controlInterruptEnable : Bool := s.controlRegister.getLsbD 0

def doStopCounter : Bool := a.stopStrobe || s.forceReload || (s.counterIsZero && !s.controlContinuous)

def timeoutEvent : Bool := s.counterIsZero && !s.delayedCounterIsZero

def irq : Bool := s.timeoutOccurred && s.controlInterruptEnable

def readMuxOut : BitVec 16 :=
  (if a.address = 2 then s.periodLRegister else 0) ||| (if a.address = 3 then s.periodHRegister else 0) |||
    (if a.address = 1 then s.controlRegister.setWidth 16 else 0) |||
    (if a.address = 0 then (BitVec.ofBool s.counterIsRunning ++ BitVec.ofBool s.timeoutOccurred).setWidth 16 else 0)

def clock : NiosSystemTimer where
  internalCounter :=
    if s.counterIsRunning || s.forceReload then
      if s.counterIsZero || s.forceReload then s.counterLoadValue else s.internalCounter - 1
    else s.internalCounter
  forceReload := a.periodHWrStrobe || a.periodLWrStrobe
  counterIsRunning :=
    if a.startStrobe then true else if s.doStopCounter a then false else s.counterIsRunning
  delayedCounterIsZero := s.counterIsZero
  timeoutOccurred :=
    if a.statusWrStrobe then false else if s.timeoutEvent then true else s.timeoutOccurred
  readdata := s.readMuxOut a
  periodLRegister := if a.periodLWrStrobe then a.writedata else s.periodLRegister
  periodHRegister := if a.periodHWrStrobe then a.writedata else s.periodHRegister
  controlRegister := if a.controlWrStrobe then a.writedata.setWidth 4 else s.controlRegister

def timeouts (s : NiosSystemTimer) (as : List TimerAccess) : ℕ :=
  total clock (fun s _ => s.timeoutEvent.toNat) s as

/-- The timer runs continuously with period p, and has counted n edges since it started. -/
structure Counting (p n : ℕ) (s : NiosSystemTimer) : Prop where
  counter : s.internalCounter.toNat = p - n % (p + 1)
  load : s.counterLoadValue.toNat = p
  steady : s.forceReload = false
  running : s.counterIsRunning = true
  continuous : s.controlContinuous = true
  fresh : s.counterIsZero = true → s.delayedCounterIsZero = false

section Counting

variable {s} {a} {p n : ℕ}

theorem Counting.counterIsZero_iff (h : Counting p n s) : s.counterIsZero = true ↔ n % (p + 1) = p := by
  have hlt := Nat.mod_lt n p.add_one_pos
  have hzero : (0 : BitVec 32).toNat = 0 := rfl
  rw [counterIsZero, beq_iff_eq, ← BitVec.toNat_inj, h.counter, hzero]
  omega

theorem Counting.timeoutEvent_eq (h : Counting p n s) : s.timeoutEvent = s.counterIsZero := by
  cases hz : s.counterIsZero with
  | false => rw [timeoutEvent, hz, Bool.false_and]
  | true => rw [timeoutEvent, hz, h.fresh hz]; rfl

theorem Counting.counter_clock (h : Counting p n s) :
    (s.clock a).internalCounter.toNat = p - (n + 1) % (p + 1) := by
  have hiff := h.counterIsZero_iff
  simp only [clock, h.running, h.steady, Bool.or_false, if_true]
  rcases succ_div_mod p.add_one_pos n with ⟨hlt, hmod, -, -⟩ | ⟨hlast, hmod, -, -⟩
  · have hz : s.counterIsZero = false := by
      rw [Bool.eq_false_iff, Ne, hiff]
      omega
    have hone : 1 ≤ s.internalCounter.toNat := by
      rw [h.counter]
      omega
    have hle : (1 : BitVec 32) ≤ s.internalCounter := hone
    rw [hz, if_neg Bool.false_ne_true, BitVec.toNat_sub_of_le hle, h.counter, hmod]
    exact Nat.sub_sub p (n % (p + 1)) 1
  · have hz : s.counterIsZero = true := by
      rw [hiff]
      omega
    rw [hz, if_pos rfl, h.load, hmod, Nat.sub_zero]

theorem counting_clock (hp : 0 < p) (h : Counting p n s) (ha : a.Spares) : Counting p (n + 1) (s.clock a) := by
  have hcounter := h.counter_clock (a := a)
  constructor
  · exact hcounter
  · have hload := h.load
    simpa only [counterLoadValue, clock, ha.periodL, ha.periodH, Bool.false_eq_true, if_false] using hload
  · simp only [clock, ha.periodL, ha.periodH, Bool.or_false]
  · have hstop : s.doStopCounter a = false := by
      simp [doStopCounter, ha.stopStrobe, h.steady, h.continuous]
    simp only [clock, ha.startStrobe, hstop, Bool.false_eq_true, if_false, h.running]
  · have hcontinuous := h.continuous
    simpa only [controlContinuous, clock, ha.control, Bool.false_eq_true, if_false] using hcontinuous
  · intro hzero
    -- the counter has just been reloaded if it was at zero before
    rw [counterIsZero, beq_iff_eq] at hzero
    rw [hzero] at hcounter
    have hmod : (n + 1) % (p + 1) = p := by
      have hlt := Nat.mod_lt (n + 1) p.add_one_pos
      have hnat : (0 : BitVec 32).toNat = 0 := rfl
      omega
    change s.counterIsZero = false
    rw [Bool.eq_false_iff, Ne, h.counterIsZero_iff]
    rcases succ_div_mod p.add_one_pos n with ⟨hlt, -, -, -⟩ | ⟨-, hm, -, -⟩
    · omega
    · omega

theorem counting_run (hp : 0 < p) {as : List TimerAccess} (h : Counting p n s) (has : ∀ a ∈ as, a.Spares) :
    Counting p (n + as.length) (run clock s as) := by
  induction as generalizing s n with
  | nil => exact h
  | cons a as ih =>
      obtain ⟨ha, has⟩ := List.forall_mem_cons.mp has
      have hrest := ih (counting_clock hp h ha) has
      rwa [List.length_cons, run_cons, Nat.add_comm as.length, ← Nat.add_assoc]

theorem Counting.timeoutEvent_toNat (h : Counting p n s) :
    n / (p + 1) + s.timeoutEvent.toNat = (n + 1) / (p + 1) := by
  have hiff := h.counterIsZero_iff
  rw [h.timeoutEvent_eq]
  rcases succ_div_mod p.add_one_pos n with ⟨hlt, -, hdiv, -⟩ | ⟨hlast, -, hdiv, -⟩
  · have hz : s.counterIsZero = false := by
      rw [Bool.eq_false_iff, Ne, hiff]
      omega
    rw [hz, hdiv]
    rfl
  · have hz : s.counterIsZero = true := by
      rw [hiff]
      omega
    rw [hz, hdiv]
    rfl

theorem timeouts_counting (hp : 0 < p) {as : List TimerAccess} (h : Counting p n s)
    (has : ∀ a ∈ as, a.Spares) : n / (p + 1) + timeouts s as = (n + as.length) / (p + 1) := by
  induction as generalizing s n with
  | nil => rfl
  | cons a as ih =>
      obtain ⟨ha, has⟩ := List.forall_mem_cons.mp has
      have hfirst := h.timeoutEvent_toNat
      have hrest := ih (counting_clock hp h ha) has
      rw [timeouts, total_cons, List.length_cons, Nat.add_comm as.length, ← Nat.add_assoc n, ← hrest, ← hfirst,
        timeouts]
      omega

end Counting

@[simp] theorem clock_write_control (control : BitVec 16) :
    (s.clock (write 1 control)).controlRegister = control.setWidth 4 := rfl

theorem startStrobe_write (control : BitVec 16) : (write 1 control).startStrobe = control.getLsbD 2 :=
  Bool.and_true _

structure Ready (p : ℕ) (s : NiosSystemTimer) : Prop where
  load : s.counterLoadValue.toNat = p
  loaded : s.forceReload = true ∨ s.forceReload = false ∧ s.counterIsRunning = false ∧ s.internalCounter.toNat = p

section Programming

variable {s} {a} {p : ℕ}

theorem ready_clock (h : Ready p s) (ha : a.Spares) : Ready p (s.clock a) := by
  have hload := h.load
  refine ⟨?_, .inr ⟨?_, ?_, ?_⟩⟩
  · simpa only [counterLoadValue, clock, ha.periodL, ha.periodH, Bool.false_eq_true, if_false] using hload
  · simp only [clock, ha.periodL, ha.periodH, Bool.or_false]
  · rcases h.loaded with hforce | ⟨-, hidle, -⟩
    · simp [clock, ha.startStrobe, doStopCounter, hforce]
    · simp [clock, ha.startStrobe, hidle]
  · rcases h.loaded with hforce | ⟨hforce, hidle, hcounter⟩
    · simp only [clock, hforce, Bool.or_true, if_true, hload]
    · simp only [clock, hforce, hidle, Bool.or_false, Bool.false_eq_true, if_false, hcounter]

theorem Ready.start (hp : 0 < p) (h : Ready p s) {control : BitVec 16} (hstart : control.getLsbD 2 = true)
    (hcontinuous : control.getLsbD 1 = true) : Counting p 0 (s.clock (write 1 control)) := by
  have hcounter : (s.clock (write 1 control)).internalCounter.toNat = p := by
    rcases h.loaded with hforce | ⟨hforce, hidle, hcounter⟩
    · simp only [clock, hforce, Bool.or_true, if_true, h.load]
    · simp only [clock, hforce, hidle, Bool.or_false, Bool.false_eq_true, if_false, hcounter]
  constructor
  · rw [hcounter, Nat.zero_mod, Nat.sub_zero]
  · exact h.load
  · rfl
  · simp only [clock, startStrobe_write, hstart, if_true]
  · rw [controlContinuous, clock_write_control, BitVec.getLsbD_setWidth, hcontinuous]
    rfl
  · intro hzero
    rw [counterIsZero, beq_iff_eq] at hzero
    rw [hzero] at hcounter
    exact absurd hcounter.symm (Nat.pos_iff_ne_zero.mp hp)

theorem periodLRegister_run {as : List TimerAccess} (has : ∀ a ∈ as, a.Spares) :
    (run clock s as).periodLRegister = s.periodLRegister := by
  apply invariant_of_forall (I := fun t : NiosSystemTimer => t.periodLRegister = s.periodLRegister) (P := Spares)
  · intro t a ht ha
    simp only [clock, ha.periodL, Bool.false_eq_true, if_false, ht]
  · rfl
  · exact has

theorem controlRegister_run {as : List TimerAccess} (has : ∀ a ∈ as, a.Spares) :
    (run clock s as).controlRegister = s.controlRegister := by
  apply invariant_of_forall (I := fun t : NiosSystemTimer => t.controlRegister = s.controlRegister) (P := Spares)
  · intro t a ht ha
    simp only [clock, ha.control, Bool.false_eq_true, if_false, ht]
  · rfl
  · exact has

/-- From any state of the timer, with any other accesses in between, the three writes start
it at its full period. -/
theorem counting_of_writes (s : NiosSystemTimer) (low high control : BitVec 16) {gap₁ gap₂ : List TimerAccess}
    (hgap₁ : ∀ a ∈ gap₁, a.Spares) (hgap₂ : ∀ a ∈ gap₂, a.Spares) (hp : 0 < (high ++ low).toNat)
    (hstart : control.getLsbD 2 = true) (hcontinuous : control.getLsbD 1 = true) :
    Counting (high ++ low).toNat 0
      (run clock s (write 2 low :: gap₁ ++ write 3 high :: gap₂ ++ [write 1 control])) := by
  rw [run_snoc, run_append, run_cons, run_cons]
  apply Ready.start hp
  · apply invariant_of_forall (I := Ready (high ++ low).toNat) (P := Spares)
    · intro t a ht ha
      exact ready_clock ht ha
    · refine ⟨?_, .inl rfl⟩
      have hlow : (run clock (s.clock (write 2 low)) gap₁).periodLRegister = low := periodLRegister_run hgap₁
      generalize run clock (s.clock (write 2 low)) gap₁ = t at hlow
      change (high ++ t.periodLRegister).toNat = (high ++ low).toNat
      rw [hlow]
    · exact hgap₂
  · exact hstart
  · exact hcontinuous

end Programming

/-- The edges since the last access that programmed the timer. -/
def edgesSinceProgrammed (as : List TimerAccess) : ℕ := (as.rtakeWhile fun a => !a.programs).length

theorem edgesSinceProgrammed_append {as bs : List TimerAccess} {a : TimerAccess} (ha : a.programs = true)
    (hbs : ∀ b ∈ bs, b.Spares) : edgesSinceProgrammed (as ++ [a] ++ bs) = bs.length := by
  induction bs using List.reverseRecOn with
  | nil => rw [List.append_nil, edgesSinceProgrammed, List.rtakeWhile_concat_neg _ _ _ (by simp [ha])]
  | append_singleton bs b ih =>
      obtain ⟨hbs, hb⟩ := List.forall_mem_append.mp hbs
      have hkept := (List.forall_mem_singleton.mp hb).not_programs
      have hlength := ih hbs
      rw [edgesSinceProgrammed] at hlength
      rw [edgesSinceProgrammed, ← List.append_assoc, List.rtakeWhile_concat_pos _ _ _ (by simp [hkept]),
        List.length_append, List.length_append, hlength]

theorem exists_gaps {as : List TimerAccess} {a b c : TimerAccess} (h : as.filter programs = [a, b, c]) :
    ∃ gap₀ gap₁ gap₂ rest, as = gap₀ ++ (a :: gap₁ ++ b :: gap₂) ++ [c] ++ rest ∧ (∀ x ∈ gap₁, x.Spares) ∧
      (∀ x ∈ gap₂, x.Spares) ∧ ∀ x ∈ rest, x.Spares := by
  obtain ⟨gap₀, as, rfl, -, -, h⟩ := List.filter_eq_cons_iff.mp h
  obtain ⟨gap₁, as, rfl, hgap₁, -, h⟩ := List.filter_eq_cons_iff.mp h
  obtain ⟨gap₂, as, rfl, hgap₂, -, h⟩ := List.filter_eq_cons_iff.mp h
  refine ⟨gap₀, gap₁, gap₂, as, by simp, ?_, ?_, ?_⟩
  · intro x hx
    exact spares_of_not_programs (hgap₁ x hx)
  · intro x hx
    exact spares_of_not_programs (hgap₂ x hx)
  · intro x hx
    apply spares_of_not_programs
    exact List.filter_eq_nil_iff.mp h x hx

/-- The accesses of timer_init_1s, in their order, among any others that spare the timer. -/
def Initialises (as : List TimerAccess) : Prop := as.filter programs = Firmware.timerInit1s.filterMap ofIowr

instance (as : List TimerAccess) : Decidable (Initialises as) := inferInstanceAs (Decidable (_ = _))

theorem counting_of_initialises (s : NiosSystemTimer) {as : List TimerAccess} (h : Initialises as) :
    Counting 49999999 (edgesSinceProgrammed as) (run clock s as) ∧
      (run clock s as).controlInterruptEnable = true := by
  have hwrites : Firmware.timerInit1s.filterMap ofIowr = [write 2 61567, write 3 762, write 1 7] := by decide
  obtain ⟨gap₀, gap₁, gap₂, rest, rfl, hgap₁, hgap₂, hrest⟩ := exists_gaps (h.trans hwrites)
  have hperiod : ((762 : BitVec 16) ++ (61567 : BitVec 16)).toNat = 49999999 := by decide
  have hstarted := counting_of_writes (run clock s gap₀) 61567 762 7 hgap₁ hgap₂
    (by rw [hperiod]; decide) (by decide) (by decide)
  rw [edgesSinceProgrammed_append rfl hrest, run_append _ _ _ rest]
  constructor
  · rw [hperiod, ← run_append, ← List.append_assoc] at hstarted
    have hcounting := counting_run (by decide) hstarted hrest
    rwa [Nat.zero_add] at hcounting
  · rw [controlInterruptEnable, controlRegister_run hrest, run_snoc, clock_write_control]
    rfl

/-- Whatever the timer did before, and whatever the order in which other accesses mix with those
of timer_init_1s, it then times out once in every 50 000 000 edges. -/
theorem timer_init_1s_ticks_every_second (s : NiosSystemTimer) {as bs : List TimerAccess} (has : Initialises as)
    (hbs : ∀ a ∈ bs, a.Spares) :
    edgesSinceProgrammed as / 50000000 + timeouts (run clock s as) bs =
        (edgesSinceProgrammed as + bs.length) / 50000000 ∧
      (run clock s (as ++ bs)).internalCounter.toNat =
        49999999 - (edgesSinceProgrammed as + bs.length) % 50000000 := by
  have hcounting := (counting_of_initialises s has).1
  refine ⟨timeouts_counting (by decide) hcounting hbs, ?_⟩
  rw [run_append]
  exact (counting_run (by decide) hcounting hbs).counter

theorem timer_init_1s_after_reset : timeouts (run clock reset [write 2 61567, write 3 762, write 1 7])
    (List.replicate 50000000 ⟨0, false, true, 0⟩) = 1 := by
  have hinit : Initialises [write 2 61567, write 3 762, write 1 7] := by decide
  have hspares : ∀ a ∈ List.replicate 50000000 (⟨0, false, true, 0⟩ : TimerAccess), a.Spares := by
    intro a ha
    rw [List.eq_of_mem_replicate ha]
    decide
  have hticks := (timer_init_1s_ticks_every_second reset hinit hspares).1
  rw [show edgesSinceProgrammed [write 2 61567, write 3 762, write 1 7] = 0 from rfl, List.length_replicate,
    Nat.zero_div, Nat.zero_add, Nat.zero_add, Nat.div_self (by decide)] at hticks
  exact hticks

section Handshake

variable (s : NiosSystemTimer) (a : TimerAccess)

def acknowledges : Bool := a.statusWrStrobe && s.timeoutOccurred

/-- A timeout that TO does not record: it is set already, or STATUS is written in that cycle. -/
def misses : Bool := s.timeoutEvent && (a.statusWrStrobe || s.timeoutOccurred)

theorem timeoutOccurred_clock : s.timeoutOccurred.toNat + s.timeoutEvent.toNat =
    (s.acknowledges a).toNat + (s.misses a).toNat + (s.clock a).timeoutOccurred.toNat := by
  cases he : s.timeoutEvent <;> cases hw : a.statusWrStrobe <;> cases ho : s.timeoutOccurred <;>
    simp [acknowledges, misses, clock, he, hw, ho]

end Handshake

/-- In every history of the bus, each timeout is acknowledged by a write of STATUS, missed,
or still shown in TO. -/
theorem timeouts_accounted (s : NiosSystemTimer) (as : List TimerAccess) :
    s.timeoutOccurred.toNat + timeouts s as =
      total clock (fun s a => (s.acknowledges a).toNat) s as + total clock (fun s a => (s.misses a).toNat) s as +
        (run clock s as).timeoutOccurred.toNat := by
  rw [← total_add]
  apply conserved (I := fun _ => True) (C := fun _ _ => True) _ _ s as trivial (meets_true clock s as)
  · intro t a _ _
    trivial
  · intro t a _ _
    exact t.timeoutOccurred_clock a

end NiosSystemTimer

end Montre.Hardware
