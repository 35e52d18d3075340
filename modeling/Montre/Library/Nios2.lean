import Montre.Library.Leads
import Mathlib.Data.BitVec
import Mathlib.Logic.Function.Basic

namespace Montre.Library.Nios2

abbrev Word := BitVec 32

inductive Reg
  | zero | at | r2 | r3 | r4 | r5 | r6 | r7 | r8 | r9 | r10 | r11 | r12 | r13 | r14 | r15
  | r16 | r17 | r18 | r19 | r20 | r21 | r22 | r23 | et | bt | gp | sp | fp | ea | ba | ra
deriving DecidableEq, Repr

/-- The register file in the order of its numbers. -/
def registers : List Reg :=
  [.zero, .at, .r2, .r3, .r4, .r5, .r6, .r7, .r8, .r9, .r10, .r11, .r12, .r13, .r14, .r15,
    .r16, .r17, .r18, .r19, .r20, .r21, .r22, .r23, .et, .bt, .gp, .sp, .fp, .ea, .ba, .ra]

def Reg.ofNum (n : BitVec 5) : Reg := registers.getD n.toNat .zero

inductive Alu
  | add
  | sub
  | and
  | or
  | sll
  | srl
  | cmpeq
deriving DecidableEq, Repr

def Alu.eval : Alu → Word → Word → Word
  | .add, x, y => x + y
  | .sub, x, y => x - y
  | .and, x, y => x &&& y
  | .or, x, y => x ||| y
  | .sll, x, y => x <<< (y.setWidth 5)
  | .srl, x, y => x >>> (y.setWidth 5)
  | .cmpeq, x, y => if x = y then 1 else 0

inductive Compare
  | eq
  | ne
  | ge
  | lt
  | geu
  | ltu
deriving DecidableEq, Repr

def Compare.eval : Compare → Word → Word → Bool
  | .eq, x, y => x == y
  | .ne, x, y => x != y
  | .ge, x, y => y.sle x
  | .lt, x, y => x.slt y
  | .geu, x, y => y.ule x
  | .ltu, x, y => x.ult y

/-- The instructions, with their immediate operands extended to a word and the targets of jumps
completed to an address. -/
inductive Instr
  | alu (op : Alu) (c a b : Reg)
  | alui (op : Alu) (b a : Reg) (imm : Word)
  | ldw (b a : Reg) (off : Word)
  | ldbu (b a : Reg) (off : Word)
  | stw (b a : Reg) (off : Word)
  | stb (b a : Reg) (off : Word)
  | branch (cmp : Compare) (a b : Reg) (off : Word)
  | br (off : Word)
  | call (target : Word)
  | jmpi (target : Word)
  | callr (c a : Reg)
  | jmp (a : Reg)
  | eret (a : Reg)
  | rdctl (c : Reg) (n : BitVec 3)
  | wrctl (n : BitVec 3) (a : Reg)
deriving DecidableEq, Repr

def decodeOpx (w : Word) : Option Instr :=
  let a := Reg.ofNum (w.extractLsb' 27 5)
  let b := Reg.ofNum (w.extractLsb' 22 5)
  let c := Reg.ofNum (w.extractLsb' 17 5)
  let imm5 := (w.extractLsb' 6 5).setWidth 32
  match (w.extractLsb' 11 6).toNat with
  | 1 => if c = .zero then some (.eret a) else none
  | 5 => if c = .zero then some (.jmp a) else none
  | 13 => if c = .zero then some (.jmp a) else none
  | 14 => some (.alu .and c a b)
  | 18 => some (.alui .sll c a imm5)
  | 22 => some (.alu .or c a b)
  | 26 => some (.alui .srl c a imm5)
  | 29 => some (.callr c a)
  | 32 => some (.alu .cmpeq c a b)
  | 38 => some (.rdctl c (w.extractLsb' 6 3))
  | 46 => some (.wrctl (w.extractLsb' 6 3) a)
  | 49 => some (.alu .add c a b)
  | 57 => some (.alu .sub c a b)
  | _ => none

/-- The instructions that the programs use; none for every other word. -/
def decode (w : Word) : Option Instr :=
  let a := Reg.ofNum (w.extractLsb' 27 5)
  let b := Reg.ofNum (w.extractLsb' 22 5)
  let imm16 := w.extractLsb' 6 16
  let simm := imm16.signExtend 32
  let target := (w.extractLsb' 6 26).setWidth 32 <<< 2
  match (w.extractLsb' 0 6).toNat with
  | 0 => some (.call target)
  | 1 => some (.jmpi target)
  | 3 => some (.ldbu b a simm)
  | 4 => some (.alui .add b a simm)
  | 5 => some (.stb b a simm)
  | 6 => some (.br simm)
  | 12 => some (.alui .and b a (imm16.setWidth 32))
  | 14 => some (.branch .ge a b simm)
  | 20 => some (.alui .or b a (imm16.setWidth 32))
  | 21 => some (.stw b a simm)
  | 22 => some (.branch .lt a b simm)
  | 23 => some (.ldw b a simm)
  | 30 => some (.branch .ne a b simm)
  | 32 => some (.alui .cmpeq b a simm)
  | 38 => some (.branch .eq a b simm)
  | 46 => some (.branch .geu a b simm)
  | 52 => some (.alui .or b a (imm16 ++ 0#16))
  | 53 => some (.stw b a simm)
  | 54 => some (.branch .ltu a b simm)
  | 55 => some (.ldw b a simm)
  | 58 => decodeOpx w
  | _ => none

/-- What answers on the data bus in place of the memory. -/
structure Bus (δ : Type) where
  maps : BitVec 25 → Bool
  read : δ → BitVec 25 → Word
  write : δ → BitVec 25 → BitVec 4 → Word → δ
  irq : δ → Word

/-- All that lies outside the register file: the memory, what the bus reaches, and the control registers. -/
structure World (δ : Type) where
  mem : BitVec 25 → BitVec 8
  dev : δ
  pie : Bool
  estatus : Bool
  ienable : Word

structure Cpu (δ : Type) where
  pc : BitVec 25
  rf : Reg → Word
  world : World δ

section Memory

variable (m : BitVec 25 → BitVec 8)

def loadWord (w : BitVec 23) : Word := m (w ++ 3#2) ++ m (w ++ 2#2) ++ m (w ++ 1#2) ++ m (w ++ 0#2)

def storeWord (w : BitVec 23) (v : Word) : BitVec 25 → BitVec 8 :=
  fun x => if x.extractLsb' 2 23 = w then v.extractLsb' (8 * (x.extractLsb' 0 2).toNat) 8 else m x

variable {m} {w w' : BitVec 23} {x : BitVec 25} {v : Word}

@[simp] theorem storeWord_of_ne (h : x.extractLsb' 2 23 ≠ w) : storeWord m w v x = m x := if_neg h

@[simp] theorem loadWord_storeWord : loadWord (storeWord m w v) w = v := by
  simp only [loadWord, storeWord, BitVec.extractLsb'_append_eq_left, BitVec.extractLsb'_append_eq_right, if_true]
  change v.extractLsb' 24 8 ++ v.extractLsb' 16 8 ++ v.extractLsb' 8 8 ++ v.extractLsb' 0 8 = v
  ext i hi
  simp only [BitVec.getElem_append, BitVec.getElem_extractLsb']
  grind

theorem loadWord_congr {m' : BitVec 25 → BitVec 8} (h : ∀ x, x.extractLsb' 2 23 = w → m' x = m x) :
    loadWord m' w = loadWord m w := by
  simp only [loadWord, h _ BitVec.extractLsb'_append_eq_left]

@[simp] theorem loadWord_storeWord_of_ne (h : w ≠ w') : loadWord (storeWord m w' v) w = loadWord m w :=
  loadWord_congr fun _ hx => storeWord_of_ne (hx ▸ h)

@[simp] theorem loadWord_update_of_ne (h : x.extractLsb' 2 23 ≠ w) (b : BitVec 8) :
    loadWord (Function.update m x b) w = loadWord m w := by
  apply loadWord_congr
  rintro y rfl
  exact Function.update_of_ne (fun hy => h (congrArg _ hy.symm)) b m

/-- Words saved at their places above a base. -/
def storeWords (m : BitVec 25 → BitVec 8) (base : BitVec 23) (es : List (BitVec 23 × Word)) : BitVec 25 → BitVec 8 :=
  es.foldl (fun m e => storeWord m (base + e.1) e.2) m

theorem loadWord_storeWords_of_notMem {base k : BitVec 23} {es : List (BitVec 23 × Word)} (h : k ∉ es.map Prod.fst) :
    loadWord (storeWords m base es) (base + k) = loadWord m (base + k) := by
  induction es generalizing m with
  | nil => rfl
  | cons e es ih =>
      rw [List.map_cons, List.mem_cons, not_or] at h
      rw [storeWords, List.foldl_cons]
      exact (ih h.2).trans (loadWord_storeWord_of_ne (mt (BitVec.add_right_inj base).mp h.1))

theorem loadWord_storeWords {base : BitVec 23} {es : List (BitVec 23 × Word)} (hnodup : (es.map Prod.fst).Nodup)
    {e : BitVec 23 × Word} (he : e ∈ es) : loadWord (storeWords m base es) (base + e.1) = e.2 := by
  induction es generalizing m with
  | nil => simp at he
  | cons e' es ih =>
      rw [List.map_cons, List.nodup_cons] at hnodup
      rcases List.mem_cons.mp he with rfl | he
      · exact (loadWord_storeWords_of_notMem hnodup.1).trans loadWord_storeWord
      · exact ih hnodup.2 he

end Memory

/-- The word that an address lies in. -/
def wordOf (x : Word) : BitVec 23 := x.extractLsb' 2 23

def byteOf (x : Word) : BitVec 25 := x.setWidth 25

@[simp] theorem wordOf_ofNat (k : ℕ) : wordOf (BitVec.ofNat 32 k) = BitVec.ofNat 23 (k % 2 ^ 32 / 4) := by
  apply BitVec.eq_of_toNat_eq
  rw [wordOf, BitVec.extractLsb'_toNat, BitVec.toNat_ofNat, BitVec.toNat_ofNat, Nat.shiftRight_eq_div_pow]

@[simp] theorem byteOf_ofNat (k : ℕ) : byteOf (BitVec.ofNat 32 k) = BitVec.ofNat 25 (k % 2 ^ 32) := by
  apply BitVec.eq_of_toNat_eq
  rw [byteOf, BitVec.toNat_setWidth, BitVec.toNat_ofNat, BitVec.toNat_ofNat]

theorem add_ofNat_add (x : Word) (j k : ℕ) :
    x + BitVec.ofNat 32 j + BitVec.ofNat 32 k = x + BitVec.ofNat 32 (j + k) := by
  rw [BitVec.add_assoc, BitVec.ofNat_add]

/-- Instructions lie on word boundaries. -/
def toPc (x : Word) : BitVec 25 := wordOf x ++ 0#2

namespace World

variable {δ : Type} (bus : Bus δ) (w : World δ)

def loadW (x : Word) : Word :=
  if bus.maps (byteOf x) then bus.read w.dev (byteOf x) else loadWord w.mem (wordOf x)

def loadB (x : Word) : BitVec 8 :=
  if bus.maps (byteOf x) then (bus.read w.dev (byteOf x)).extractLsb' (8 * (x.extractLsb' 0 2).toNat) 8
  else w.mem (byteOf x)

def storeW (x v : Word) : World δ :=
  if bus.maps (byteOf x) then { w with dev := bus.write w.dev (byteOf x) 0xF v }
  else { w with mem := storeWord w.mem (wordOf x) v }

def storeB (x : Word) (v : BitVec 8) : World δ :=
  if bus.maps (byteOf x) then
    { w with dev := bus.write w.dev (byteOf x) (1#4 <<< (x.extractLsb' 0 2)) (v ++ v ++ v ++ v) }
  else { w with mem := Function.update w.mem (byteOf x) v }

def ctl (n : BitVec 3) : Word :=
  match n.toNat with
  | 0 => (BitVec.ofBool w.pie).setWidth 32
  | 1 => (BitVec.ofBool w.estatus).setWidth 32
  | 3 => w.ienable
  | 4 => bus.irq w.dev &&& w.ienable
  | _ => 0

def setCtl (n : BitVec 3) (v : Word) : World δ :=
  match n.toNat with
  | 0 => { w with pie := v.getLsbD 0 }
  | 1 => { w with estatus := v.getLsbD 0 }
  | 3 => { w with ienable := v &&& 7 }
  | _ => w

end World

namespace Cpu

variable {δ : Type} (bus : Bus δ) (s : Cpu δ)

def get (r : Reg) : Word := if r = .zero then 0 else s.rf r

def set (r : Reg) (v : Word) : Cpu δ := { s with rf := Function.update s.rf r v }

def setWorld (w : World δ) : Cpu δ := { s with world := w }

def goto (pc : BitVec 25) : Cpu δ := { s with pc := pc }

def next : Cpu δ := s.goto (s.pc + 4)

def link : Word := (s.pc + 4).setWidth 32

def exec : Instr → Cpu δ
  | .alu op c a b => (s.set c (op.eval (s.get a) (s.get b))).next
  | .alui op b a imm => (s.set b (op.eval (s.get a) imm)).next
  | .ldw b a off => (s.set b (s.world.loadW bus (s.get a + off))).next
  | .ldbu b a off => (s.set b ((s.world.loadB bus (s.get a + off)).setWidth 32)).next
  | .stw b a off => (s.setWorld (s.world.storeW bus (s.get a + off) (s.get b))).next
  | .stb b a off => (s.setWorld (s.world.storeB bus (s.get a + off) ((s.get b).setWidth 8))).next
  | .branch cmp a b off =>
      s.goto (if cmp.eval (s.get a) (s.get b) then toPc (s.link + off) else s.pc + 4)
  | .br off => s.goto (toPc (s.link + off))
  | .call target => (s.set .ra s.link).goto (toPc target)
  | .jmpi target => s.goto (toPc target)
  | .callr c a => (s.set c s.link).goto (toPc (s.get a))
  | .jmp a => s.goto (toPc (s.get a))
  | .eret a => (s.setWorld { s.world with pie := s.world.estatus }).goto (toPc (s.get a))
  | .rdctl c n => (s.set c (s.world.ctl bus n)).next
  | .wrctl n a => (s.setWorld (s.world.setCtl n (s.get a))).next

@[simp] theorem get_zero : s.get .zero = 0 := rfl

@[simp] theorem get_set_self {r : Reg} (hr : r ≠ .zero) (v : Word) : (s.set r v).get r = v := by
  simp only [get, set, Function.update_self]
  exact if_neg hr

@[simp] theorem get_set_of_ne {r b : Reg} (h : r ≠ b) (v : Word) : (s.set b v).get r = s.get r := by
  simp only [get, set, Function.update_of_ne h]

-- not by `rfl`: the kernel would compare the states before it unfolds the projections
@[simp] theorem pc_set (r : Reg) (v : Word) : (s.set r v).pc = s.pc := by
  cases s
  rfl

@[simp] theorem world_set (r : Reg) (v : Word) : (s.set r v).world = s.world := by
  cases s
  rfl

@[simp] theorem pc_setWorld (w : World δ) : (s.setWorld w).pc = s.pc := by
  cases s
  rfl

@[simp] theorem get_setWorld (w : World δ) (r : Reg) : (s.setWorld w).get r = s.get r := by
  cases s
  rfl

@[simp] theorem world_setWorld (w : World δ) : (s.setWorld w).world = w := by
  cases s
  rfl

@[simp] theorem pc_goto (pc : BitVec 25) : (s.goto pc).pc = pc := by
  cases s
  rfl

@[simp] theorem get_goto (pc : BitVec 25) (r : Reg) : (s.goto pc).get r = s.get r := by
  cases s
  rfl

@[simp] theorem world_goto (pc : BitVec 25) : (s.goto pc).world = s.world := by
  cases s
  rfl

@[simp] theorem pc_next : s.next.pc = s.pc + 4 := by
  cases s
  rfl

@[simp] theorem get_next (r : Reg) : s.next.get r = s.get r := by
  cases s
  rfl

@[simp] theorem world_next : s.next.world = s.world := by
  cases s
  rfl

/-- The registers outside a list are as they were. -/
def Keeps (rs : List Reg) (t : Cpu δ) : Prop := ∀ r, r ∉ rs → t.get r = s.get r

variable {s} {t u : Cpu δ} {rs rs' : List Reg}

theorem Keeps.refl (rs : List Reg) (s : Cpu δ) : s.Keeps rs s := fun _ _ => rfl

theorem Keeps.trans (h : s.Keeps rs t) (h' : t.Keeps rs u) : s.Keeps rs u := fun r hr => (h' r hr).trans (h r hr)

theorem Keeps.mono (h : s.Keeps rs t) (hrs : rs ⊆ rs') : s.Keeps rs' t := fun r hr => h r (mt (@hrs r) hr)

/-- Registers that are saved and restored count as kept. -/
theorem Keeps.restore (bs : List Reg) (h : s.Keeps (bs ++ rs) t) (hbs : ∀ b ∈ bs, t.get b = s.get b) :
    s.Keeps rs t := by
  intro r hr
  by_cases hrb : r ∈ bs
  · exact hbs r hrb
  · exact h r (List.not_mem_append hrb hr)

end Cpu

def Instr.dst : Instr → List Reg
  | .alu _ c _ _ | .callr c _ | .rdctl c _ => [c]
  | .alui _ b _ _ | .ldw b _ _ | .ldbu b _ _ => [b]
  | .call _ => [.ra]
  | .stw _ _ _ | .stb _ _ _ | .branch _ _ _ _ | .br _ | .jmpi _ | .jmp _ | .eret _ | .wrctl _ _ => []

section Execution

variable {δ : Type} (code : BitVec 25 → Option Instr) (bus : Bus δ)

def step (s : Cpu δ) : Option (Cpu δ) := (code s.pc).map (s.exec bus)

def Instr.straight : Instr → Bool
  | .branch _ _ _ _ | .br _ | .call _ | .jmpi _ | .callr _ _ | .jmp _ | .eret _ => false
  | .alu _ _ _ _ | .alui _ _ _ _ | .ldw _ _ _ | .ldbu _ _ _ | .stw _ _ _ | .stb _ _ _ | .rdctl _ _ | .wrctl _ _ => true

/-- The block lies in the code from an address on, and only its last instruction may jump. -/
def listed (pc : BitVec 25) : List Instr → Bool
  | [] => true
  | [i] => code pc == some i
  | i :: is => code pc == some i && i.straight && listed (pc + 4) is

/-- The processor takes an interrupt in place of its next instruction. -/
def interruptible (s : Cpu δ) : Bool := s.world.pie && s.world.ctl bus 4 != 0

def interrupt (s : Cpu δ) : Cpu δ :=
  ((s.set .ea s.link).setWorld { s.world with pie := false, estatus := s.world.pie }).goto 0x800020

variable {code bus}

theorem exec_pc {i : Instr} (hi : i.straight = true) (s : Cpu δ) : (s.exec bus i).pc = s.pc + 4 := by
  cases i with
  | branch | br | call | jmpi | callr | jmp | eret => simp [Instr.straight] at hi
  | alu | alui | ldw | ldbu | stw | stb | rdctl | wrctl => rfl

theorem get_exec {i : Instr} {r : Reg} (hr : r ∉ i.dst) (s : Cpu δ) : (s.exec bus i).get r = s.get r := by
  cases i with
  | stw | stb | branch | br | jmpi | jmp | eret | wrctl => rfl
  | alu | alui | ldw | ldbu | call | callr | rdctl => exact Cpu.get_set_of_ne _ (List.mem_singleton.not.mp hr) _

theorem keeps_fold {is : List Instr} {rs : List Reg} (h : ∀ i ∈ is, i.dst ⊆ rs) (s : Cpu δ) :
    s.Keeps rs (is.foldl (Cpu.exec bus) s) := by
  induction is generalizing s with
  | nil => exact Cpu.Keeps.refl rs s
  | cons i is ih =>
      obtain ⟨hi, his⟩ := List.forall_mem_cons.mp h
      apply Cpu.Keeps.trans _ (ih his (s.exec bus i))
      intro r hr
      exact get_exec (mt (@hi r) hr) s

/-- A block changes only the registers that its instructions write. -/
theorem keeps_block {is : List Instr} {rs : List Reg} (h : ∀ i ∈ is, i.dst ⊆ rs) (s : Cpu δ) (p : BitVec 25) :
    s.Keeps rs (is.foldl (Cpu.exec bus) (s.goto p)) :=
  fun r hr => (keeps_fold h (s.goto p) r hr).trans (Cpu.get_goto s p r)

theorem Leads.block {Q : Cpu δ → Prop} (is : List Instr) {s : Cpu δ} {p : BitVec 25} (hp : s.pc = p)
    (hcode : listed code p is = true) (h : Leads (step code bus) Q (is.foldl (Cpu.exec bus) (s.goto p))) :
    Leads (step code bus) Q s := by
  have hgoto : s.goto p = s := by
    rw [← hp]
    rfl
  rw [hgoto] at h
  clear hgoto
  induction is generalizing s p with
  | nil => exact h
  | cons i is ih =>
      have hi : code p = some i := by
        cases is with
        | nil => simpa [listed] using hcode
        | cons j is =>
            simp only [listed, Bool.and_eq_true, beq_iff_eq] at hcode
            exact hcode.1.1
      apply Leads.next (t := s.exec bus i)
      · rw [step, hp, hi]
        rfl
      · cases is with
        | nil => exact h
        | cons j is =>
            simp only [listed, Bool.and_eq_true] at hcode
            apply ih _ hcode.2 h
            rw [exec_pc hcode.1.2, hp]

end Execution

end Montre.Library.Nios2
