import Montre.Library.Emit
import Montre.Library.Runs
import Mathlib.Data.BitVec

namespace Montre.Hal

open Montre.Library Runs Emit

variable {ρ : Type}

structure AltIrqHandler (ρ : Type) where
  handler : Option ρ
  context : BitVec 32
deriving DecidableEq

/-- The registry of the HAL over any type of interrupt routines, with the control registers of
the processor: status has the one bit PIE, and three lines are implemented. -/
structure Iic (ρ : Type) where
  altIrq : Fin 32 → AltIrqHandler ρ
  altIrqActive : BitVec 32
  ienable : BitVec 32
  pie : Bool

def implemented : BitVec 32 := 7

namespace Iic

def powerUp : Iic ρ := ⟨fun _ => ⟨none, 0⟩, 0, 0, false⟩

def writeIenable (s : Iic ρ) (value : BitVec 32) : Iic ρ := { s with ienable := value &&& implemented }

def ipending (s : Iic ρ) (lines : BitVec 32) : BitVec 32 := lines &&& s.ienable &&& implemented

end Iic

/-- A routine of the HAL, with the state after each of its stores. -/
abbrev Stores (ρ : Type) := Prog (Iic ρ) (Iic ρ)

def store (f : Iic ρ → Iic ρ) : Stores ρ := fun s => (f s, [f s])

def altIrqDisableAll : Stores ρ := store fun s => { s with pie := false }

def altIrqEnableAll (context : Bool) : Stores ρ := store fun s => { s with pie := context }

def altIrqInit : Stores ρ :=
  seq (store fun s => s.writeIenable 0) (store fun s => { s with pie := true })

def altIrqEnable (id : Fin 32) : Stores ρ := fun s =>
  let status := s.pie
  seq altIrqDisableAll
    (seq (store fun s => { s with altIrqActive := s.altIrqActive ||| (1#32 <<< id.val) })
      (seq (store fun s => s.writeIenable s.altIrqActive) (altIrqEnableAll status))) s

def altIrqDisable (id : Fin 32) : Stores ρ := fun s =>
  let status := s.pie
  seq altIrqDisableAll
    (seq (store fun s => { s with altIrqActive := s.altIrqActive &&& ~~~(1#32 <<< id.val) })
      (seq (store fun s => s.writeIenable s.altIrqActive) (altIrqEnableAll status))) s

def setHandler (id : Fin 32) (isr : Option ρ) : Stores ρ :=
  store fun s => { s with altIrq := Function.update s.altIrq id { s.altIrq id with handler := isr } }

def setContext (id : Fin 32) (context : BitVec 32) : Stores ρ :=
  store fun s => { s with altIrq := Function.update s.altIrq id { s.altIrq id with context := context } }

def einval : Int := 22

/-- The table has 32 entries, and `irq` is compared with that as a signed number: nothing is
said of a negative one, which indexes in front of the table. -/
def altIicIsrRegister (irq : BitVec 32) (isr : Option ρ) (isrContext : BitVec 32) (s : Iic ρ) :
    Option ((Iic ρ × List (Iic ρ)) × Int) :=
  if irq.toInt < 32 then
    if h : irq.toNat < 32 then
      let id : Fin 32 := ⟨irq.toNat, h⟩
      let status := s.pie
      some (seq altIrqDisableAll
        (seq (setHandler id isr)
          (seq (setContext id isrContext)
            (seq (if isr.isSome then altIrqEnable id else altIrqDisable id) (altIrqEnableAll status)))) s, 0)
    else none
  else some ((s, []), -einval)

/-- What an interrupt needs of the registry: the enabled lines are those with a routine. -/
structure Registered (s : Iic ρ) : Prop where
  handled : ∀ i : Fin 32, s.altIrqActive.getLsbD i.val = (s.altIrq i).handler.isSome
  enabled : s.ienable = s.altIrqActive &&& implemented

theorem registered_altIrqInit : Registered (altIrqInit (Iic.powerUp (ρ := ρ))).1 := by
  constructor
  · intro i
    exact BitVec.getLsbD_zero
  · rfl

def activeAfter (active : BitVec 32) (id : Fin 32) (enabled : Bool) : BitVec 32 :=
  if enabled then active ||| (1#32 <<< id.val) else active &&& ~~~(1#32 <<< id.val)

theorem getLsbD_activeAfter (active : BitVec 32) (id i : Fin 32) (enabled : Bool) :
    (activeAfter active id enabled).getLsbD i.val = if i = id then enabled else active.getLsbD i.val := by
  have hbit : (1#32 <<< id.val).getLsbD i.val = decide (i = id) := by
    rw [← BitVec.twoPow_eq, BitVec.getLsbD_twoPow]
    simp [Fin.ext_iff, eq_comm, id.isLt]
  cases enabled <;> simp only [activeAfter, Bool.false_eq_true, if_false, if_true, BitVec.getLsbD_or,
    BitVec.getLsbD_and, BitVec.getLsbD_not, hbit, i.isLt, decide_true, Bool.true_and] <;>
    by_cases h : i = id <;> simp [h]

theorem altIicIsrRegister_of_lt {irq : BitVec 32} (h : irq.toNat < 32) (isr : Option ρ)
    (isrContext : BitVec 32) (s : Iic ρ) :
    ∃ t ts, altIicIsrRegister irq isr isrContext s = some ((t, ts), 0) ∧
      t = ⟨Function.update s.altIrq ⟨irq.toNat, h⟩ ⟨isr, isrContext⟩,
        activeAfter s.altIrqActive ⟨irq.toNat, h⟩ isr.isSome,
        activeAfter s.altIrqActive ⟨irq.toNat, h⟩ isr.isSome &&& implemented, s.pie⟩ ∧
      ∀ u ∈ ts, u = t ∨ u.pie = false := by
  have hsigned : irq.toInt < 32 := by
    rw [BitVec.toInt_eq_toNat_cond]
    split_ifs <;> omega
  simp only [altIicIsrRegister, hsigned, h, if_true, dif_pos]
  refine ⟨_, _, rfl, ?_, ?_⟩
  · cases isr <;> simp [seq, store, altIrqDisableAll, altIrqEnableAll, setHandler, setContext, altIrqEnable,
      altIrqDisable, Iic.writeIenable, activeAfter]
  · cases isr <;> simp [seq, store, altIrqDisableAll, altIrqEnableAll, setHandler, setContext, altIrqEnable,
      altIrqDisable, Iic.writeIenable]

theorem altIicIsrRegister_of_ge {irq : BitVec 32} (h : 32 ≤ irq.toNat) (hsign : 0 ≤ irq.toInt)
    (isr : Option ρ) (isrContext : BitVec 32) (s : Iic ρ) :
    altIicIsrRegister irq isr isrContext s = some ((s, []), -einval) := by
  have hsigned : ¬ irq.toInt < 32 := by
    rw [BitVec.toInt_eq_toNat_cond] at hsign ⊢
    split_ifs at hsign ⊢ <;> omega
  rw [altIicIsrRegister, if_neg hsigned]

structure Registration (ρ : Type) where
  irq : BitVec 32
  isr : Option ρ
  isrContext : BitVec 32

/-- A call of `alt_ic_isr_register` with an `irq` that is not negative, and so stays inside the table or is
refused. -/
def register (r : Registration ρ) : Stores ρ := fun s =>
  ((altIicIsrRegister r.irq r.isr r.isrContext s).map Prod.fst).getD (s, [])

def registerAll (rs : List (Registration ρ)) : Stores ρ := rs.foldr (fun r p => seq (register r) p) skip

theorem Registered.activeAfter {s : Iic ρ} (h : Registered s) (id : Fin 32) (isr : Option ρ)
    (isrContext : BitVec 32) (pie : Bool) :
    Registered ⟨Function.update s.altIrq id ⟨isr, isrContext⟩, activeAfter s.altIrqActive id isr.isSome,
      Hal.activeAfter s.altIrqActive id isr.isSome &&& implemented, pie⟩ := by
  refine ⟨?_, rfl⟩
  intro i
  simp only [getLsbD_activeAfter, Function.update_apply, h.handled]
  split_ifs <;> rfl

/-- While the table is updated no interrupt can be taken: after each store either PIE is off or
the registry is consistent. -/
theorem registered_register {s : Iic ρ} (h : Registered s) {r : Registration ρ} (hr : 0 ≤ r.irq.toInt) :
    Registered (register r s).1 ∧ ∀ u ∈ (register r s).2, u.pie = true → Registered u := by
  by_cases hlt : r.irq.toNat < 32
  · obtain ⟨t, ts, hcall, rfl, hts⟩ := altIicIsrRegister_of_lt hlt r.isr r.isrContext s
    have hkept := h.activeAfter ⟨r.irq.toNat, hlt⟩ r.isr r.isrContext s.pie
    simp only [register, hcall, Option.map_some, Option.getD_some]
    refine ⟨hkept, ?_⟩
    intro u hu hpie
    rcases hts u hu with rfl | hoff
    · exact hkept
    · exact absurd hpie (by simp [hoff])
  · have hcall := altIicIsrRegister_of_ge (Nat.le_of_not_lt hlt) hr r.isr r.isrContext s
    simp only [register, hcall, Option.map_some, Option.getD_some]
    exact ⟨h, by simp⟩

theorem registered_registerAll {rs : List (Registration ρ)} (hrs : ∀ r ∈ rs, 0 ≤ r.irq.toInt) {s : Iic ρ}
    (h : Registered s) :
    Registered (registerAll rs s).1 ∧ ∀ u ∈ (registerAll rs s).2, u.pie = true → Registered u := by
  induction rs generalizing s with
  | nil => exact ⟨h, by simp [registerAll, skip]⟩
  | cons r rs ih =>
      obtain ⟨hr, hrs⟩ := List.forall_mem_cons.mp hrs
      obtain ⟨hfirst, hvisited⟩ := registered_register h hr
      obtain ⟨hend, hrest⟩ := ih hrs hfirst
      refine ⟨hend, ?_⟩
      intro u hu
      rcases List.mem_append.mp hu with hu | hu
      · exact hvisited u hu
      · exact hrest u hu

theorem altIrq_register {r : Registration ρ} (hr : 0 ≤ r.irq.toInt) (s : Iic ρ) (i : Fin 32) :
    (register r s).1.altIrq i = if r.irq.toNat = i.val then ⟨r.isr, r.isrContext⟩ else s.altIrq i := by
  by_cases hlt : r.irq.toNat < 32
  · obtain ⟨t, ts, hcall, rfl, -⟩ := altIicIsrRegister_of_lt hlt r.isr r.isrContext s
    simp only [register, hcall, Option.map_some, Option.getD_some, Function.update_apply, Fin.ext_iff, eq_comm]
  · have hcall := altIicIsrRegister_of_ge (Nat.le_of_not_lt hlt) hr r.isr r.isrContext s
    rw [register, hcall, if_neg (by omega)]
    rfl

theorem altIrq_registerAll {rs : List (Registration ρ)} (hrs : ∀ r ∈ rs, 0 ≤ r.irq.toInt) (s : Iic ρ)
    (i : Fin 32) : (registerAll rs s).1.altIrq i = rs.foldl
      (fun entry r => if r.irq.toNat = i.val then ⟨r.isr, r.isrContext⟩ else entry) (s.altIrq i) := by
  induction rs generalizing s with
  | nil => rfl
  | cons r rs ih =>
      obtain ⟨hr, hrs⟩ := List.forall_mem_cons.mp hrs
      rw [List.foldl_cons, ← altIrq_register hr]
      exact ih hrs (register r s).1

theorem Registered.handler {s : Iic ρ} (h : Registered s) {lines : BitVec 32} {i : Fin 32}
    (hi : (s.ipending lines).getLsbD i.val = true) : (s.altIrq i).handler.isSome = true := by
  rw [Iic.ipending, h.enabled, BitVec.getLsbD_and, BitVec.getLsbD_and, BitVec.getLsbD_and] at hi
  rw [← h.handled]
  simp only [Bool.and_eq_true] at hi
  exact hi.1.2.1

/-- From power-up on, at every moment between two stores of the HAL at which the processor can take
an interrupt, every interrupt that it can take has a routine. The code refuses no negative number, but
nothing is said of it here: its routine would go to an address in front of the table. -/
theorem interrupt_always_handled {rs : List (Registration ρ)} (hrs : ∀ r ∈ rs, 0 ≤ r.irq.toInt) :
    ∀ u ∈ (seq altIrqInit (registerAll rs) Iic.powerUp).2, u.pie = true →
      ∀ (lines : BitVec 32) (i : Fin 32), (u.ipending lines).getLsbD i.val = true →
        (u.altIrq i).handler.isSome = true := by
  intro u hu hpie lines i hi
  have hinit := registered_altIrqInit (ρ := ρ)
  apply Registered.handler _ hi
  rcases List.mem_append.mp hu with hu | hu
  · simp only [altIrqInit, seq, store, List.cons_append, List.nil_append, List.mem_cons, List.not_mem_nil,
      or_false] at hu
    rcases hu with rfl | rfl
    · exact absurd hpie Bool.false_ne_true
    · exact hinit
  · exact (registered_registerAll hrs hinit).2 u hu hpie

end Montre.Hal
