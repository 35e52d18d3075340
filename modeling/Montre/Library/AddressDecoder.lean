import Mathlib.Data.BitVec
import Mathlib.Data.List.Pairwise

namespace Montre.Library.AddressDecoder

variable {σ : Type} {n : ℕ}

def log2ceil (val : ℕ) : ℕ := ((List.range 66).takeWhile fun k => 2 ^ k < val).length

/-- The addresses from lo to hi, hi left out, and what they belong to. -/
structure Window (σ : Type) where
  lo : ℕ
  hi : ℕ
  target : σ
deriving DecidableEq

namespace Window

variable (w v : Window σ)

/-- The bits of an address that do not matter for the window. -/
def pad : ℕ := log2ceil (w.hi - w.lo)

/-- The test that a decoder makes: the other bits are those of lo. -/
def hit (address : BitVec n) : Bool := (address >>> w.pad) <<< w.pad == BitVec.ofNat n w.lo

def Contains (address : BitVec n) : Prop := w.lo ≤ address.toNat ∧ address.toNat < w.hi

instance (address : BitVec n) : Decidable (w.Contains address) := inferInstanceAs (Decidable (_ ∧ _))

/-- A window that the test can decide. -/
structure Aligned (n : ℕ) : Prop where
  span : w.hi = w.lo + 2 ^ w.pad
  start : w.lo % 2 ^ w.pad = 0
  top : w.hi ≤ 2 ^ n

instance : Decidable (w.Aligned n) :=
  decidable_of_iff (w.hi = w.lo + 2 ^ w.pad ∧ w.lo % 2 ^ w.pad = 0 ∧ w.hi ≤ 2 ^ n)
    ⟨fun ⟨hspan, hstart, htop⟩ => ⟨hspan, hstart, htop⟩, fun ⟨hspan, hstart, htop⟩ => ⟨hspan, hstart, htop⟩⟩

def Apart : Prop := w.hi ≤ v.lo ∨ v.hi ≤ w.lo

instance : Decidable (w.Apart v) := inferInstanceAs (Decidable (_ ∨ _))

end Window

open Window

theorem hit_iff {w : Window σ} (h : w.Aligned n) (address : BitVec n) : w.hit address = true ↔ w.Contains address := by
  obtain ⟨hspan, hstart, htop⟩ := h
  have hpos : 0 < 2 ^ w.pad := Nat.two_pow_pos _
  have haddress : address.toNat < 2 ^ n := address.isLt
  have hcleared : ((address >>> w.pad) <<< w.pad).toNat = 2 ^ w.pad * (address.toNat / 2 ^ w.pad) := by
    rw [BitVec.toNat_shiftLeft, BitVec.toNat_ushiftRight, Nat.shiftRight_eq_div_pow, Nat.shiftLeft_eq, Nat.mul_comm]
    exact Nat.mod_eq_of_lt ((Nat.mul_div_le _ _).trans_lt haddress)
  have hlo : (BitVec.ofNat n w.lo).toNat = w.lo := by
    rw [BitVec.toNat_ofNat]
    exact Nat.mod_eq_of_lt (by omega)
  have hdiv := Nat.div_add_mod address.toNat (2 ^ w.pad)
  have hmod := Nat.mod_lt address.toNat hpos
  rw [hit, beq_iff_eq, ← BitVec.toNat_inj, hcleared, hlo]
  constructor
  · intro heq
    constructor <;> omega
  · rintro ⟨hge, hlt⟩
    have hstart' : 2 ^ w.pad * (w.lo / 2 ^ w.pad) = w.lo := Nat.mul_div_cancel' (Nat.dvd_of_mod_eq_zero hstart)
    have hquot : address.toNat / 2 ^ w.pad = w.lo / 2 ^ w.pad := by
      apply Nat.div_eq_of_lt_le
      · rw [Nat.mul_comm, hstart']
        exact hge
      · rw [Nat.succ_mul, Nat.mul_comm, hstart']
        omega
    rw [hquot, hstart']

/-- The tests are made in order, and a later one overrides an earlier. -/
def route (d : σ) (ws : List (Window σ)) (address : BitVec n) : σ :=
  ws.foldl (fun t w => if w.hit address then w.target else t) d

variable {d : σ} {ws : List (Window σ)} {address : BitVec n}

theorem route_of_no_hit (h : ∀ w ∈ ws, w.hit address = false) : route d ws address = d := by
  induction ws using List.reverseRecOn with
  | nil => rfl
  | append_singleton ws w ih =>
      rw [route, List.foldl_concat, h w (by simp), if_neg Bool.false_ne_true]
      exact ih fun v hv => h v (List.mem_append_left _ hv)

/-- Over windows that lie apart the order of the tests does not matter. -/
theorem route_of_contains (haligned : ∀ w ∈ ws, w.Aligned n) (hapart : ws.Pairwise Apart) {w : Window σ} (hw : w ∈ ws)
    (h : w.Contains address) : route d ws address = w.target := by
  induction ws using List.reverseRecOn with
  | nil => exact absurd hw List.not_mem_nil
  | append_singleton ws v ih =>
      obtain ⟨hapart, -, hlast⟩ := List.pairwise_append.mp hapart
      rw [route, List.foldl_concat]
      rcases List.mem_append.mp hw with hw | hw
      · have hmiss : v.hit address = false := by
          rw [Bool.eq_false_iff, ne_eq, hit_iff (haligned v (by simp))]
          rintro ⟨hge, hlt⟩
          obtain ⟨hge', hlt'⟩ := h
          rcases hlast w hw v (List.mem_singleton_self v) with hle | hle <;> omega
        rw [hmiss, if_neg Bool.false_ne_true]
        exact ih (fun u hu => haligned u (List.mem_append_left _ hu)) hapart hw
      · obtain rfl := List.mem_singleton.mp hw
        rw [(hit_iff (haligned w (by simp)) address).mpr h, if_pos rfl]

theorem route_eq_iff (haligned : ∀ w ∈ ws, w.Aligned n) (hapart : ws.Pairwise Apart) {t : σ} :
    route d ws address = t ↔
      (∃ w ∈ ws, w.target = t ∧ w.Contains address) ∨ (d = t ∧ ∀ w ∈ ws, ¬ w.Contains address) := by
  by_cases hin : ∃ w ∈ ws, w.Contains address
  · obtain ⟨w, hw, hcontains⟩ := hin
    rw [route_of_contains haligned hapart hw hcontains]
    constructor
    · rintro rfl
      exact .inl ⟨w, hw, rfl, hcontains⟩
    · rintro (⟨v, hv, rfl, hcontains'⟩ | ⟨-, hnone⟩)
      · rw [← route_of_contains (d := d) haligned hapart hw hcontains,
          ← route_of_contains (d := d) haligned hapart hv hcontains']
      · exact absurd hcontains (hnone w hw)
  · have hnone : ∀ w ∈ ws, ¬ w.Contains address := fun w hw hcontains => hin ⟨w, hw, hcontains⟩
    rw [route_of_no_hit fun w hw => by rw [Bool.eq_false_iff, ne_eq, hit_iff (haligned w hw)]; exact hnone w hw]
    constructor
    · exact fun heq => .inr ⟨heq, hnone⟩
    · rintro (⟨w, hw, -, hcontains⟩ | ⟨heq, -⟩)
      · exact absurd hcontains (hnone w hw)
      · exact heq

end Montre.Library.AddressDecoder
