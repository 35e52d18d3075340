import Mathlib.Data.List.Basic
import Mathlib.Data.List.Induction

namespace Montre.Library.Lanes

variable {ι β : Type}

/-- A write to a word of lanes: the value it carries for each of them, and which it enables. -/
structure Write (ι β : Type) where
  enable : ι → Bool
  data : ι → β

/-- Each lane holds what the last write that enables it carries there. -/
def merged (d : ι → β) (ws : List (Write ι β)) (i : ι) : β :=
  ((ws.filter fun w => w.enable i).getLast?.map fun w => w.data i).getD (d i)

/-- The last write, all lanes of it. -/
def overwritten (d : ι → β) (ws : List (Write ι β)) : ι → β := (ws.getLast?.map Write.data).getD d

/-- The lanes that the write does not enable carry what they hold already. -/
def Repeats (d : ι → β) (ws : List (Write ι β)) (w : Write ι β) : Prop :=
  ∀ i, w.enable i = false → w.data i = merged d ws i

variable (d : ι → β) (ws : List (Write ι β)) (w : Write ι β)

@[simp] theorem overwritten_snoc : overwritten d (ws ++ [w]) = w.data := by
  rw [overwritten, List.getLast?_concat]
  rfl

theorem merged_snoc (i : ι) : merged d (ws ++ [w]) i = if w.enable i then w.data i else merged d ws i := by
  rw [merged, List.filter_append]
  cases h : w.enable i <;> simp [h, merged]

theorem merged_snoc_of_disabled {i : ι} (h : w.enable i = false) :
    merged d (ws ++ [w]) i = merged d ws i := by
  rw [merged_snoc, h]
  rfl

theorem merged_snoc_iff_repeats : merged d (ws ++ [w]) = w.data ↔ Repeats d ws w := by
  constructor
  · intro h i hi
    rw [← merged_snoc_of_disabled d ws w hi, h]
  · intro h
    funext i
    rw [merged_snoc]
    cases hi : w.enable i with
    | true => rfl
    | false => exact (h i hi).symm

/-- A register that takes all lanes of every write holds their merge exactly when the
last write repeats what it does not enable. -/
theorem overwritten_eq_merged_iff : overwritten d ws = merged d ws ↔
    ∀ earlier w, ws = earlier ++ [w] → Repeats d earlier w := by
  rcases List.eq_nil_or_concat' ws with rfl | ⟨ws, w, rfl⟩
  · constructor
    · intro _ earlier w heq
      simp at heq
    · intro _
      rfl
  · rw [overwritten_snoc, eq_comm, merged_snoc_iff_repeats]
    constructor
    · intro h earlier w' heq
      obtain ⟨rfl, hw⟩ := List.append_inj' heq rfl
      obtain rfl := List.singleton_inj.mp hw
      exact h
    · intro h
      exact h ws w rfl

end Montre.Library.Lanes
