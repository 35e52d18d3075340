import Montre.Compiled.Text
import Montre.Firmware.Leds
import Montre.Hal.Startup
import Montre.Hardware.AddrRouter
import Mathlib.Data.Set.Function

namespace Montre.Compiled

open Montre.Library Nios2 Montre.Hardware AddrRouter

open Montre.Firmware hiding exec

structure Store where
  address : BitVec 25
  lanes : BitVec 4
  data : Word
deriving DecidableEq

/-- The devices as the program sees them, once `watch_init` has enabled the interrupts of the timer and of
the keys, and every store that has gone to any of them, the oldest first. -/
structure Io where
  registers : Registers
  edgeCap : BitVec 4
  switches : BitVec 10
  timeout : Bool
  jtagUart : Bool
  stores : List Store
deriving DecidableEq

/-- The register that an IOWR at an address is meant for. -/
def target (address : BitVec 25) : Option Base :=
  match route address with
  | .timer0 => match (address.extractLsb' 2 3).toNat with
    | 1 => some .timerControl
    | 2 => some .timerPeriodl
    | 3 => some .timerPeriodh
    | _ => none
  | .keys => match (address.extractLsb' 2 2).toNat with
    | 2 => some .keysIrqMask
    | 3 => some .keysEdgeCap
    | _ => none
  | .ledg => if address.extractLsb' 2 2 = 0 then some .ledg else none
  | .startChrono => if address.extractLsb' 2 2 = 0 then some .startChrono else none
  | .hexs => if address.extractLsb' 2 2 = 0 then some .hexs else none
  | .chrono0 => some .chrono0
  | .alarmBell0 => some .alarmBell0
  | .sdram | .onchipMemory20 | .jtagDebugModule | .switches | .jtagUart0 => none

def iowrAddress : Base → BitVec 25
  | .timerControl => 0x1003004
  | .timerPeriodl => 0x1003008
  | .timerPeriodh => 0x100300C
  | .ledg => 0x1003020
  | .startChrono => 0x1003030
  | .hexs => 0x1003050
  | .keysIrqMask => 0x1003068
  | .keysEdgeCap => 0x100306C
  | .chrono0 => 0x1003078
  | .alarmBell0 => 0x100307C

def store (w : Iowr) : Store := ⟨iowrAddress w.base, 0xF, w.data⟩

namespace Io

/-- The devices after these IOWRs and no other store. -/
def emit (d : Io) (ws : List Iowr) : Io :=
  { d with
    registers := ws.foldl Registers.write d.registers
    stores := d.stores ++ ws.map store }

@[simp] theorem emit_nil (d : Io) : d.emit [] = d := by
  simp [emit]

@[simp] theorem emit_emit (d : Io) (ws ws' : List Iowr) : (d.emit ws).emit ws' = d.emit (ws ++ ws') := by
  simp [emit, List.foldl_append]

/-- No slave looks at the lanes. -/
def write (d : Io) (address : BitVec 25) (lanes : BitVec 4) (v : Word) : Io :=
  { d with
    stores := d.stores ++ [⟨address, lanes, v⟩]
    registers := (target address).elim d.registers fun b => d.registers.write ⟨b, v⟩
    edgeCap := if target address = some .keysEdgeCap then 0 else d.edgeCap
    timeout := if route address = .timer0 ∧ address.extractLsb' 2 3 = 0 then false else d.timeout }

def read (d : Io) (address : BitVec 25) : Word :=
  match route address, (address.extractLsb' 2 2).toNat with
  | .keys, 3 => d.edgeCap.setWidth 32
  | .switches, 0 => d.switches.setWidth 32
  | _, _ => 0

def irq (d : Io) : Word := Hal.irqMapper d.jtagUart d.timeout (d.edgeCap != 0)

end Io

def io : Bus Io := ⟨fun address => route address != .sdram, Io.read, Io.write, Io.irq⟩

theorem route_of_lt {address : BitVec 25} (h : address.toNat < 0x1000000) : route address = .sdram := by
  rw [route, AddressDecoder.route_eq_iff aligned_windows apart_windows]
  by_cases hlow : address.toNat < 0x800000
  · right
    simp [windows, AddressDecoder.Window.Contains]
    omega
  · left
    refine ⟨⟨0x800000, 0x1000000, .sdram⟩, by decide, rfl, ?_, h⟩
    exact Nat.le_of_not_lt hlow

section Access

variable {w : World Io} {x v : Word} {b : BitVec 8}

theorem maps_of_lt {address : BitVec 25} (h : address.toNat < 0x1000000) : io.maps address = false := by
  simp only [io, route_of_lt h]
  rfl

@[simp] theorem loadB_ram (h : (byteOf x).toNat < 0x1000000) : w.loadB io x = w.mem (byteOf x) := by
  rw [World.loadB, maps_of_lt h]
  rfl

@[simp] theorem loadW_ram (h : (byteOf x).toNat < 0x1000000) : w.loadW io x = loadWord w.mem (wordOf x) := by
  rw [World.loadW, maps_of_lt h]
  rfl

@[simp] theorem storeB_ram (h : (byteOf x).toNat < 0x1000000) :
    w.storeB io x b = { w with mem := Function.update w.mem (byteOf x) b } := by
  rw [World.storeB, maps_of_lt h]
  rfl

@[simp] theorem storeW_ram (h : (byteOf x).toNat < 0x1000000) :
    w.storeW io x v = { w with mem := storeWord w.mem (wordOf x) v } := by
  rw [World.storeW, maps_of_lt h]
  rfl

theorem maps_of_device {address : BitVec 25} (h : route address ≠ .sdram) : io.maps address = true := bne_iff_ne.mpr h

theorem storeW_device (h : route (byteOf x) ≠ .sdram) :
    w.storeW io x v = { w with dev := w.dev.write (byteOf x) 0xF v } := by
  rw [World.storeW, maps_of_device h]
  rfl

theorem loadW_device (h : route (byteOf x) ≠ .sdram) : w.loadW io x = w.dev.read (byteOf x) := by
  rw [World.loadW, maps_of_device h]
  rfl

end Access

theorem target_iowrAddress (base : Base) : target (iowrAddress base) = some base := by
  cases base <;> decide

theorem route_iowrAddress (base : Base) : route (iowrAddress base) ≠ .sdram := by
  cases base <;> decide

theorem storeW_iowr {w : World Io} {x v : Word} {b : Base} (hx : byteOf x = iowrAddress b) (hb : b ≠ .keysEdgeCap) :
    w.storeW io x v = { w with dev := w.dev.emit [⟨b, v⟩] } := by
  have hstatus : ¬ (route (iowrAddress b) = .timer0 ∧ (iowrAddress b).extractLsb' 2 3 = 0) := by
    cases b <;> decide
  rw [storeW_device (hx ▸ route_iowrAddress b), Io.write, hx, target_iowrAddress, if_neg hstatus,
    if_neg (by simpa using hb)]
  rfl

inductive Variable
  | alarmHeures
  | alarmMinutes
  | alarmSecondes
  | alarmRunning
  | alarmActive
  | chronoRunning
  | chronoActif
  | heures
  | minutes
  | secondes
deriving DecidableEq, Repr

namespace Variable

def address : Variable → BitVec 25
  | .alarmHeures => 0x80F360
  | .alarmMinutes => 0x80F361
  | .alarmSecondes => 0x80F362
  | .alarmRunning => 0x80F363
  | .alarmActive => 0x80F364
  | .chronoRunning => 0x80F36C
  | .chronoActif => 0x80F36D
  | .heures => 0x80F36E
  | .minutes => 0x80F36F
  | .secondes => 0x80F370

def value (w : Watch) : Variable → BitVec 8
  | .alarmHeures => w.gMinut.heures.toBitVec
  | .alarmMinutes => w.gMinut.minutes.toBitVec
  | .alarmSecondes => w.gMinut.secondes.toBitVec
  | .alarmRunning => (BitVec.ofBool w.gMinut.running).setWidth 8
  | .alarmActive => (BitVec.ofBool w.gMinut.alarmActive).setWidth 8
  | .chronoRunning => (BitVec.ofBool w.gChrono.running).setWidth 8
  | .chronoActif => (BitVec.ofBool w.gChrono.chronoActif).setWidth 8
  | .heures => w.gHorloge.heures.toBitVec
  | .minutes => w.gHorloge.minutes.toBitVec
  | .secondes => w.gHorloge.secondes.toBitVec

end Variable

/-- The bytes from g_minut to g_horloge. -/
def globals : Set (BitVec 25) := {x | 0x80F360 ≤ x ∧ x ≤ 0x80F370}

structure Represents (m : BitVec 25 → BitVec 8) (w : Watch) : Prop where
  gMode : loadWord m 0x203CDA#23 = BitVec.ofNat 32 w.gMode.code
  byte : ∀ v : Variable, m v.address = v.value w

section Represents

variable {m m' : BitVec 25 → BitVec 8} {w w' : Watch}

theorem address_injective : ∀ u v : Variable, u.address = v.address → u = v := by
  intro u v
  cases u <;> cases v <;> decide

theorem address_notMem_gMode (v : Variable) : v.address.extractLsb' 2 23 ≠ 0x203CDA#23 := by
  cases v <;> decide

theorem address_mem (v : Variable) : v.address ∈ globals := by
  cases v <;> exact ⟨by decide, by decide⟩

theorem Represents.store (h : Represents m w) (v : Variable) {b : BitVec 8} (hv : v.value w' = b)
    (hothers : ∀ u, u ≠ v → u.value w' = u.value w) (hmode : w'.gMode = w.gMode) :
    Represents (Function.update m v.address b) w' := by
  constructor
  · rw [loadWord_update_of_ne (address_notMem_gMode v), hmode]
    exact h.gMode
  · intro u
    by_cases hu : u = v
    · rw [hu, Function.update_self, hv]
    · rw [Function.update_of_ne (mt (address_injective u v) hu), hothers u hu]
      exact h.byte u

theorem Represents.storeMode (h : Represents m w) {mode : WatchMode} {x : Word}
    (hx : x = BitVec.ofNat 32 mode.code) : Represents (storeWord m 0x203CDA#23 x) { w with gMode := mode } := by
  constructor
  · rw [loadWord_storeWord, hx]
  · intro u
    rw [storeWord_of_ne (address_notMem_gMode u), h.byte u]
    cases u <;> rfl

theorem mem_globals_of_word {x : BitVec 25} (h : x.extractLsb' 2 23 = 0x203CDA#23) : x ∈ globals := by
  have hword := congrArg BitVec.toNat h
  have hx : x.toNat < 2 ^ 25 := x.isLt
  rw [BitVec.extractLsb'_toNat, Nat.shiftRight_eq_div_pow] at hword
  change x.toNat / 4 % 2 ^ 23 = 2112730 at hword
  constructor
  · rw [BitVec.le_def]
    change 8450912 ≤ x.toNat
    omega
  · rw [BitVec.le_def]
    change x.toNat ≤ 8450928
    omega

theorem Represents.congr (h : Represents m w) {A : Set (BitVec 25)} (hm : Set.EqOn m' m Aᶜ)
    (hA : globals ⊆ Aᶜ) : Represents m' w := by
  have hglobals : Set.EqOn m' m globals := hm.mono hA
  constructor
  · rw [loadWord_congr fun x hx => hglobals (mem_globals_of_word hx), h.gMode]
  · intro v
    rw [hglobals (address_mem v), h.byte v]

end Represents

def beforeMidnight : Watch := ⟨.horloge, ⟨23, 59, 59⟩, ⟨false, false⟩, ⟨0, 0, 0, true, false⟩⟩

def memory (w : Watch) : BitVec 25 → BitVec 8 :=
  [Variable.alarmHeures, .alarmMinutes, .alarmSecondes, .alarmRunning, .alarmActive, .chronoRunning, .chronoActif,
    .heures, .minutes, .secondes].foldl (fun m v => Function.update m v.address (v.value w))
      (storeWord (fun _ => 0) 0x203CDA (BitVec.ofNat 32 w.gMode.code))

theorem represents_beforeMidnight : Represents (memory beforeMidnight) beforeMidnight := by
  constructor
  · rfl
  · intro v
    cases v <;> rfl

/-- The processor at an instruction of the watch, with the stack that `main` has set up. -/
def running (pc : BitVec 25) (ra : Word) (m : BitVec 25 → BitVec 8) (d : Io) : Cpu Io where
  pc := pc
  rf := fun r => if r = .ra then ra else if r = .gp then 0x8158C0 else if r = .sp then 0xFFFFFC else 0
  world := { mem := m, dev := d, pie := true, estatus := false, ienable := 7 }

/-- A call of the compiled code has come back, and has done what the routine does: its IOWRs, in their order,
are the stores that have gone to the devices, the variables are those that it leaves, and apart from the
registers rs and the memory A nothing else has changed. -/
structure Performs (p : Routine) (w : Watch) (rs : List Reg) (A : Set (BitVec 25)) (s t : Cpu Io) : Prop where
  pc : t.pc = toPc (s.get .ra)
  keeps : s.Keeps rs t
  world : t.world = { s.world with mem := t.world.mem, dev := s.world.dev.emit (p w).2 }
  represents : Represents t.world.mem (p w).1
  spares : Set.EqOn t.world.mem s.world.mem Aᶜ

theorem Performs.stores {p : Routine} {w : Watch} {rs : List Reg} {A : Set (BitVec 25)} {s t : Cpu Io}
    (h : Performs p w rs A s t) : t.world.dev.stores = s.world.dev.stores ++ (p w).2.map store := by
  rw [h.world]
  rfl

theorem eqOn_update {m : BitVec 25 → BitVec 8} {A : Set (BitVec 25)} {x : BitVec 25} (hx : x ∈ A) (b : BitVec 8) :
    Set.EqOn (Function.update m x b) m Aᶜ := by
  intro y hy
  exact Function.update_of_ne (ne_of_mem_of_not_mem hx hy).symm b m

theorem eqOn_storeWord {m : BitVec 25 → BitVec 8} {A : Set (BitVec 25)} {k : BitVec 23}
    (hk : ∀ x, x.extractLsb' 2 23 = k → x ∈ A) (v : Word) : Set.EqOn (storeWord m k v) m Aᶜ := by
  intro y hy
  exact storeWord_of_ne fun h => hy (hk y h)

/-- n words from x up that lie on the stack, above all that the linker has placed. -/
structure Frame (n : ℕ) (x : Word) : Prop where
  aligned : x.extractLsb' 0 2 = 0
  limit : 0x80F4D0 ≤ x.toNat
  pointer : x.toNat + 4 * n ≤ 0x1000000

def stack (n : ℕ) (x : Word) : Set (BitVec 25) := {a | x.toNat ≤ a.toNat ∧ a.toNat < x.toNat + 4 * n}

theorem stack_mono {m n : ℕ} (h : m ≤ n) (x : Word) : stack m x ⊆ stack n x := by
  rintro a ⟨hge, hlt⟩
  exact ⟨hge, by omega⟩

theorem Frame.mono {m n : ℕ} {x : Word} (hx : Frame n x) (h : m ≤ n) : Frame m x := by
  have hpointer := hx.pointer
  exact ⟨hx.aligned, hx.limit, by omega⟩

namespace Frame

variable {n : ℕ} {x c v : Word} {b : BitVec 8} {w : World Io}

theorem toNat_byteOf (h : Frame n x) (hc : c.toNat < 4 * n) : (byteOf (x + c)).toNat = x.toNat + c.toNat := by
  have hlimit := h.limit
  have hpointer := h.pointer
  rw [byteOf, BitVec.toNat_setWidth, BitVec.toNat_add]
  omega

theorem byteOf_add : byteOf (x + c) = byteOf x + byteOf c := BitVec.setWidth_add x c (by decide)

theorem mod_four (h : Frame n x) : x.toNat % 4 = 0 := by
  have haligned := congrArg BitVec.toNat h.aligned
  rw [BitVec.extractLsb'_toNat, Nat.shiftRight_zero] at haligned
  exact haligned

theorem wordOf_add (h : Frame n x) : wordOf (x + c) = wordOf x + wordOf c := by
  have hmod := h.mod_four
  have hx := x.isLt
  have hc := c.isLt
  apply BitVec.eq_of_toNat_eq
  rw [wordOf, wordOf, wordOf, BitVec.toNat_add, BitVec.extractLsb'_toNat, BitVec.extractLsb'_toNat,
    BitVec.extractLsb'_toNat, BitVec.toNat_add, Nat.shiftRight_eq_div_pow, Nat.shiftRight_eq_div_pow,
    Nat.shiftRight_eq_div_pow]
  omega

theorem lane (h : Frame n x) (k : BitVec 25) : (byteOf x + k).extractLsb' 2 23 = wordOf x + k.extractLsb' 2 23 := by
  have hmod := h.mod_four
  have hx := x.isLt
  have hk := k.isLt
  apply BitVec.eq_of_toNat_eq
  rw [wordOf, byteOf, BitVec.toNat_add, BitVec.extractLsb'_toNat, BitVec.extractLsb'_toNat, BitVec.extractLsb'_toNat,
    BitVec.toNat_add, BitVec.toNat_setWidth, Nat.shiftRight_eq_div_pow, Nat.shiftRight_eq_div_pow,
    Nat.shiftRight_eq_div_pow]
  omega

theorem toNat_byteOf_lt (h : Frame n x) (hc : c.toNat < 4 * n) : (byteOf (x + c)).toNat < 0x1000000 := by
  have hpointer := h.pointer
  rw [h.toNat_byteOf hc]
  omega

theorem storeW (h : Frame n x) (hc : c.toNat < 4 * n) :
    w.storeW io (x + c) v = { w with mem := storeWord w.mem (wordOf x + wordOf c) v } := by
  rw [storeW_ram (h.toNat_byteOf_lt hc), h.wordOf_add]

theorem storeB (h : Frame n x) (hc : c.toNat < 4 * n) :
    w.storeB io (x + c) b = { w with mem := Function.update w.mem (byteOf x + byteOf c) b } := by
  rw [storeB_ram (h.toNat_byteOf_lt hc), byteOf_add]

theorem storeW_base (h : Frame n x) (hn : 0 < n) :
    w.storeW io x v = { w with mem := storeWord w.mem (wordOf x) v } := by
  simpa [wordOf] using h.storeW (w := w) (v := v) (c := 0) (by simpa using hn)

theorem loadW (h : Frame n x) (hc : c.toNat < 4 * n) : w.loadW io (x + c) = loadWord w.mem (wordOf x + wordOf c) := by
  rw [loadW_ram (h.toNat_byteOf_lt hc), h.wordOf_add]

theorem loadW_base (h : Frame n x) (hn : 0 < n) : w.loadW io x = loadWord w.mem (wordOf x) := by
  simpa [wordOf] using h.loadW (w := w) (c := 0) (by simpa using hn)

theorem loadB (h : Frame n x) (hc : c.toNat < 4 * n) : w.loadB io (x + c) = w.mem (byteOf x + byteOf c) := by
  rw [loadB_ram (h.toNat_byteOf_lt hc), byteOf_add]

theorem byte_mem (h : Frame n x) (hc : c.toNat < 4 * n) : byteOf x + byteOf c ∈ stack n x := by
  have hbyte := h.toNat_byteOf hc
  rw [byteOf_add] at hbyte
  constructor <;> omega

theorem word_mem (h : Frame n x) (hc : c.toNat < 4 * n) {a : BitVec 25}
    (ha : a.extractLsb' 2 23 = wordOf x + wordOf c) : a ∈ stack n x := by
  have hmod := h.mod_four
  have hlimit := h.limit
  have hpointer := h.pointer
  have hlt := a.isLt
  rw [← h.wordOf_add, wordOf] at ha
  have hword := congrArg BitVec.toNat ha
  rw [BitVec.extractLsb'_toNat, BitVec.extractLsb'_toNat, BitVec.toNat_add, Nat.shiftRight_eq_div_pow,
    Nat.shiftRight_eq_div_pow] at hword
  constructor <;> omega

theorem word_range (h : Frame n x) {k : BitVec 23} (hk : k.toNat < n) {a : BitVec 25}
    (ha : a.extractLsb' 2 23 = wordOf x + k) :
    x.toNat + 4 * k.toNat ≤ a.toNat ∧ a.toNat < x.toNat + 4 * k.toNat + 4 := by
  have hmod := h.mod_four
  have hpointer := h.pointer
  have hlt := a.isLt
  have hword := congrArg BitVec.toNat ha
  rw [wordOf, BitVec.toNat_add, BitVec.extractLsb'_toNat, BitVec.extractLsb'_toNat, Nat.shiftRight_eq_div_pow,
    Nat.shiftRight_eq_div_pow] at hword
  omega

theorem eqOn_byte (h : Frame n x) (hc : c.toNat < 4 * n) (m : BitVec 25 → BitVec 8) (b : BitVec 8) :
    Set.EqOn (Function.update m (byteOf x + byteOf c) b) m (stack n x)ᶜ := eqOn_update (h.byte_mem hc) b

theorem eqOn_word (h : Frame n x) (hc : c.toNat < 4 * n) (m : BitVec 25 → BitVec 8) (v : Word) :
    Set.EqOn (storeWord m (wordOf x + wordOf c) v) m (stack n x)ᶜ := eqOn_storeWord (fun _ ha => h.word_mem hc ha) v

theorem eqOn_words (h : Frame n x) {es : List (BitVec 23 × Word)} (hes : ∀ e ∈ es, e.1.toNat < n)
    (m : BitVec 25 → BitVec 8) : Set.EqOn (storeWords m (wordOf x) es) m (stack n x)ᶜ := by
  induction es generalizing m with
  | nil => exact Set.eqOn_refl m _
  | cons e es ih =>
      obtain ⟨he, hes⟩ := List.forall_mem_cons.mp hes
      have hpointer := h.pointer
      have hword : wordOf (BitVec.ofNat 32 (4 * e.1.toNat)) = e.1 := by
        have hlt := e.1.isLt
        rw [wordOf_ofNat, ← BitVec.toNat_inj, BitVec.toNat_ofNat]
        omega
      have hoffset : (BitVec.ofNat 32 (4 * e.1.toNat)).toNat < 4 * n := by
        rw [BitVec.toNat_ofNat]
        omega
      have hfirst := h.eqOn_word hoffset m e.2
      rw [hword] at hfirst
      exact (ih hes _).trans hfirst

theorem globals_subset (h : Frame n x) : globals ⊆ (stack n x)ᶜ := by
  have hlimit := h.limit
  rintro a ⟨-, hle⟩ ⟨hge, -⟩
  rw [BitVec.le_def] at hle
  change a.toNat ≤ 8450928 at hle
  omega

end Frame

end Montre.Compiled
