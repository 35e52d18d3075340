import Mathlib.Algebra.GroupWithZero.Nat
import Mathlib.Data.List.Basic
import Mathlib.Data.List.Range
import Mathlib.Logic.Function.Basic

namespace Montre.Library.Ring

variable {β : Type} {N : ℕ}

/-- The places from the out index up to the in index. Equal indices are an empty ring, so that one
place always stays free. -/
def used (i o : Fin N) : ℕ := if o ≤ i then i.val - o.val else N - o.val + i.val

/-- The free places from the in index on, short of the end of the buffer. -/
def room (i o : Fin N) : ℕ :=
  if i < o then o.val - 1 - i.val else if 0 < o.val then N - i.val else N - 1 - i.val

section Used

variable (i o : Fin N)

theorem used_lt : used i o < N := by
  have hi := i.isLt
  have ho := o.isLt
  unfold used
  split_ifs <;> simp only [Fin.le_def] at * <;> omega

theorem used_eq_zero_iff : used i o = 0 ↔ i = o := by
  have hi := i.isLt
  have ho := o.isLt
  rw [Fin.ext_iff]
  unfold used
  split_ifs <;> simp only [Fin.le_def] at * <;> omega

theorem used_inj {i o o' : Fin N} (h : used i o = used i o') : o = o' := by
  have hi := i.isLt
  have ho := o.isLt
  have ho' := o'.isLt
  apply Fin.ext
  unfold used at h
  split_ifs at h <;> simp only [Fin.le_def] at * <;> omega

theorem used_add_room_lt : used i o + room i o < N := by
  have hi := i.isLt
  have ho := o.isLt
  unfold used room
  split_ifs <;> simp only [Fin.le_def, Fin.lt_def] at * <;> omega

/-- A block of that length does not run past the end of the buffer. -/
theorem add_room_le : i.val + room i o ≤ N := by
  have hi := i.isLt
  have ho := o.isLt
  unfold room
  split_ifs <;> simp only [Fin.lt_def] at * <;> omega

end Used

variable [NeZero N]

/-- The index k places after o in a ring of N places. -/
def shift (o : Fin N) (k : ℕ) : Fin N := Fin.ofNat N (o.val + k)

def contents (buf : Fin N → β) (i o : Fin N) : List β := (List.range (used i o)).map fun k => buf (shift o k)

section Shift

variable (i o : Fin N)

theorem shift_val {k : ℕ} (hk : k ≤ N) :
    (shift o k).val = if o.val + k < N then o.val + k else o.val + k - N := by
  have ho := o.isLt
  rw [shift, Fin.val_ofNat]
  split_ifs with h
  · exact Nat.mod_eq_of_lt h
  · rw [Nat.mod_eq_sub_mod (Nat.le_of_not_lt h)]
    exact Nat.mod_eq_of_lt (by omega)

theorem shift_zero : shift o 0 = o := Fin.ext (Nat.mod_eq_of_lt o.isLt)

theorem shift_shift (k l : ℕ) : shift (shift o k) l = shift o (k + l) := by
  apply Fin.ext
  simp only [shift, Fin.val_ofNat, Nat.mod_add_mod, Nat.add_assoc]

theorem shift_used : shift o (used i o) = i := by
  have hi := i.isLt
  have ho := o.isLt
  have hshift := shift_val o (used_lt i o).le
  apply Fin.ext
  rw [hshift]
  unfold used
  split_ifs <;> simp only [Fin.le_def] at * <;> omega

theorem used_shift {k : ℕ} (hk : k < N) : used (shift o k) o = k := by
  have ho := o.isLt
  have hshift := shift_val o hk.le
  unfold used
  split_ifs at hshift ⊢ <;> simp only [Fin.le_def] at * <;> omega

variable {i o}

theorem used_shift_in {m : ℕ} (h : used i o + m < N) : used (shift i m) o = used i o + m := by
  nth_rewrite 1 [← shift_used i o]
  rw [shift_shift, used_shift _ h]

theorem used_shift_out (h : i ≠ o) : used i (shift o 1) + 1 = used i o := by
  have hi := i.isLt
  have ho := o.isLt
  have hpos : used i o ≠ 0 := (used_eq_zero_iff i o).not.mpr h
  have hshift := shift_val o (show 1 ≤ N by omega)
  unfold used at hpos ⊢
  split_ifs at hshift hpos ⊢ <;> simp only [Fin.le_def] at * <;> omega

end Shift

section Contents

variable {buf : Fin N → β} {i o : Fin N}

theorem contents_length : (contents buf i o).length = used i o := by
  rw [contents, List.length_map, List.length_range]

theorem contents_self (buf : Fin N → β) (o : Fin N) : contents buf o o = [] := by
  rw [contents, (used_eq_zero_iff o o).mpr rfl]
  rfl

/-- Taking out the first entry. -/
theorem contents_pop (h : i ≠ o) : contents buf i o = buf o :: contents buf i (shift o 1) := by
  rw [contents, ← used_shift_out h, List.range_succ_eq_map, List.map_cons, List.map_map, shift_zero, contents]
  apply congrArg
  apply List.map_congr_left
  intro k _
  rw [shift_shift, Nat.add_comm, Function.comp_apply, Nat.succ_eq_add_one]

/-- Moving the in index over a block that has been stored behind it. -/
theorem contents_push {m : ℕ} (h : used i o + m < N) :
    contents buf (shift i m) o = contents buf i o ++ (List.range m).map fun k => buf (shift i k) := by
  rw [contents, used_shift_in h, List.range_add, List.map_append, List.map_map, contents]
  apply congrArg
  apply List.map_congr_left
  intro k _
  rw [Function.comp_apply, ← shift_shift, shift_used]

/-- A store outside the entries leaves them alone. -/
theorem contents_update {j : Fin N} (h : used i o ≤ used j o) (b : β) :
    contents (Function.update buf j b) i o = contents buf i o := by
  apply List.map_congr_left
  intro k hk
  have hlt := List.mem_range.mp hk
  apply Function.update_of_ne
  rintro rfl
  rw [used_shift o (hlt.trans (used_lt i o))] at h
  omega

end Contents

/-- A block of n entries on its way into the ring: it fits without wrapping, and the first k of
its entries are stored behind the in index. -/
structure Storing (buf : Fin N → β) (i o : Fin N) (bs : List β) (n k : ℕ) : Prop where
  le : k ≤ n
  counted : n ≤ bs.length
  free : used i o + n < N
  inside : i.val + n ≤ N
  stored : ∀ j < k, bs[j]? = some (buf (shift i j))

section Storing

variable {buf : Fin N → β} {i o : Fin N} {bs : List β} {n k : ℕ}

theorem storing_zero (buf : Fin N → β) (hn : n ≤ room i o) (hbs : n ≤ bs.length) : Storing buf i o bs n 0 := by
  have hfree := used_add_room_lt i o
  have hinside := add_room_le i o
  exact ⟨Nat.zero_le n, hbs, by omega, by omega, fun j hj => absurd hj (Nat.not_lt_zero j)⟩

theorem Storing.store (h : Storing buf i o bs n k) (hk : k < n) {b : β} (hb : bs[k]? = some b) :
    Storing (Function.update buf (shift i k) b) i o bs n (k + 1) ∧
      contents (Function.update buf (shift i k) b) i o = contents buf i o := by
  obtain ⟨-, hcounted, hfree, hinside, hstored⟩ := h
  refine ⟨⟨hk, hcounted, hfree, hinside, ?_⟩, ?_⟩
  · intro j hj
    rcases Nat.lt_succ_iff_lt_or_eq.mp hj with hj | rfl
    · have hne : shift i j ≠ shift i k := by
        intro heq
        have hused := congrArg (fun x => used x i) heq
        simp only [used_shift i (show j < N by omega), used_shift i (show k < N by omega)] at hused
        omega
      rw [Function.update_of_ne hne]
      exact hstored j hj
    · rw [Function.update_self]
      exact hb
  · apply contents_update
    rw [used_shift_in (by omega)]
    exact Nat.le_add_right _ _

/-- Entries may be taken out meanwhile. -/
theorem Storing.pop (h : Storing buf i o bs n k) (hne : i ≠ o) : Storing buf i (shift o 1) bs n k := by
  obtain ⟨hle, hcounted, hfree, hinside, hstored⟩ := h
  have hpop := used_shift_out hne
  exact ⟨hle, hcounted, by omega, hinside, hstored⟩

theorem Storing.publish (h : Storing buf i o bs n n) : contents buf (shift i n) o = contents buf i o ++ bs.take n := by
  rw [contents_push h.free]
  apply congrArg
  apply List.ext_getElem?
  intro j
  by_cases hj : j < n
  · rw [List.getElem?_take_of_lt hj, h.stored j hj]
    simp [hj]
  · rw [List.getElem?_eq_none, List.getElem?_eq_none]
    · rw [List.length_take]
      omega
    · simpa using hj

end Storing

end Montre.Library.Ring
