import Montre.Hal.Iic
import Mathlib.Algebra.Order.BigOperators.Group.List
import Mathlib.Data.Fintype.Card

namespace Montre.Hal

open Montre.Library Runs

/-- The inner loop of `alt_irq_handler`: n more turns from bit i on. It leaves the loop at an active
bit only, so that without one it turns for ever. -/
def findActive (active : BitVec 32) : ℕ → BitVec 32 → ℕ → Option ℕ
  | 0, _, _ => none
  | n + 1, mask, i => if active &&& mask ≠ 0 then some i else findActive active n (mask <<< 1) (i + 1)

/-- The interrupt that a pass serves: all 32 bits are tested before the mask runs out. -/
def firstActive (active : BitVec 32) : Option (Fin 32) :=
  (findActive active 32 1 0).bind fun i => if h : i < 32 then some ⟨i, h⟩ else none

theorem and_mask_ne_zero_iff (active : BitVec 32) {i : ℕ} (hi : i < 32) :
    active &&& (1#32 <<< i) ≠ 0 ↔ active.getLsbD i = true := by
  rw [← BitVec.twoPow_eq, BitVec.and_twoPow]
  split_ifs with hbit
  · have hne : BitVec.twoPow 32 i ≠ 0 := by
      intro hzero
      have hself := congrArg (fun x => BitVec.getLsbD x i) hzero
      simp [hi] at hself
    exact iff_of_true hne hbit
  · exact iff_of_false (fun h => h rfl) hbit

theorem findActive_eq (active : BitVec 32) (n i : ℕ) (h : i + n ≤ 32) :
    findActive active n (1#32 <<< i) i = (List.range' i n).find? active.getLsbD := by
  induction n generalizing i with
  | zero => rfl
  | succ n ih =>
      have hshift : (1#32 <<< i) <<< 1 = 1#32 <<< (i + 1) := (BitVec.shiftLeft_add _ _ _).symm
      have hmask := and_mask_ne_zero_iff active (i := i) (by omega)
      rw [findActive, hshift, ih (i + 1) (by omega), List.range'_succ, List.find?_cons]
      cases hbit : active.getLsbD i with
      | false => rw [if_neg (by rw [hmask, hbit]; exact Bool.false_ne_true)]
      | true => rw [if_pos (hmask.mpr hbit)]

theorem firstActive_eq_some_iff (active : BitVec 32) (i : Fin 32) : firstActive active = some i ↔
    active.getLsbD i.val = true ∧ ∀ j, j < i → active.getLsbD j.val = false := by
  have hscan := findActive_eq active 32 0 le_rfl
  rw [BitVec.shiftLeft_zero] at hscan
  rw [firstActive, show (1 : BitVec 32) = 1#32 from rfl, hscan, Option.bind_eq_some_iff]
  simp only [List.find?_range'_eq_some]
  constructor
  · rintro ⟨k, ⟨hk, hmem, hmin⟩, hki⟩
    split_ifs at hki with hlt
    obtain rfl := Option.some.inj hki
    refine ⟨hk, ?_⟩
    intro j hj
    simpa using hmin j.val (Nat.zero_le _) hj
  · rintro ⟨hi, hmin⟩
    refine ⟨i.val, ⟨hi, ?_, ?_⟩, by simp⟩
    · simp [i.isLt]
    · intro j _ hj
      simpa using hmin ⟨j, by omega⟩ hj

theorem firstActive_isSome {active : BitVec 32} (h : active ≠ 0) : ∃ i, firstActive active = some i := by
  have hex : ∃ i : ℕ, active.getLsbD i = true := by
    by_contra hno
    apply h
    apply BitVec.eq_of_getLsbD_eq
    intro i _
    have hzero : (0 : BitVec 32).getLsbD i = false := BitVec.getLsbD_zero
    rw [hzero, Bool.eq_false_iff]
    exact fun hi => hno ⟨i, hi⟩
  have hfirst := Nat.find_spec hex
  have hlt : Nat.find hex < 32 := BitVec.lt_of_getLsbD hfirst
  refine ⟨⟨Nat.find hex, hlt⟩, (firstActive_eq_some_iff _ _).mpr ⟨hfirst, ?_⟩⟩
  intro j hj
  have hmin := Nat.find_min hex hj
  simpa using hmin

section Dispatch

variable {ρ δ : Type} (lines : δ → BitVec 32) (serve : ρ → BitVec 32 → δ → δ)

/-- The outer loop of `alt_irq_handler`, with what the devices do after each of its passes. It
gives the words it read with the interrupts it served, unless it spins, calls NULL or is not done yet. -/
def altIrqHandler (s : Iic ρ) : List (δ → δ) → BitVec 32 → δ → Option (List (BitVec 32 × Fin 32) × δ)
  | [], _, _ => none
  | e :: es, active, d =>
      (firstActive active).bind fun i =>
        (s.altIrq i).handler.bind fun handler =>
          let d := e (serve handler (s.altIrq i).context d)
          let next := s.ipending (lines d)
          if next = 0 then some ([(active, i)], d)
          else (altIrqHandler s es next d).map fun r => ((active, i) :: r.1, r.2)

def requests (active : BitVec 32) : Finset (Fin 32) := Finset.univ.filter fun i => active.getLsbD i.val = true

theorem mem_requests {active : BitVec 32} {i : Fin 32} : i ∈ requests active ↔ active.getLsbD i.val = true := by
  simp [requests]

theorem requests_nonempty {active : BitVec 32} (h : active ≠ 0) : 0 < (requests active).card := by
  obtain ⟨i, hi⟩ := firstActive_isSome h
  exact Finset.card_pos.mpr ⟨i, mem_requests.mpr ((firstActive_eq_some_iff active i).mp hi).1⟩

variable {lines serve} {s : Iic ρ}

theorem served_lowest {es : List (δ → δ)} {active : BitVec 32} {d : δ} {r : List (BitVec 32 × Fin 32) × δ}
    (h : altIrqHandler lines serve s es active d = some r) : ∀ x ∈ r.1, firstActive x.1 = some x.2 := by
  induction es generalizing active d r with
  | nil => simp [altIrqHandler] at h
  | cons e es ih =>
      simp only [altIrqHandler, Option.bind_eq_some_iff] at h
      obtain ⟨i, hi, handler, -, hrest⟩ := h
      split_ifs at hrest with hnext
      · obtain rfl := Option.some.inj hrest
        simp [hi]
      · obtain ⟨r', hr', rfl⟩ := Option.map_eq_some_iff.mp hrest
        intro x hx
        rcases List.mem_cons.mp hx with rfl | hx
        · exact hi
        · exact ih hr' x hx

/-- Each routine takes back the request of its own line, and touches no other. -/
def Answers (lines : δ → BitVec 32) (serve : ρ → BitVec 32 → δ → δ) (s : Iic ρ) : Prop :=
  ∀ i handler, (s.altIrq i).handler = some handler → ∀ d j,
    (lines (serve handler (s.altIrq i).context d)).getLsbD j = ((lines d).getLsbD j && decide (j ≠ i.val))

/-- What the devices do between two passes: they raise no line but some of r, and lower none. -/
def Raises (lines : δ → BitVec 32) (raise : Finset (Fin 32) → δ → δ) : Prop :=
  ∀ r d (j : Fin 32), ((lines d).getLsbD j.val = true → (lines (raise r d)).getLsbD j.val = true) ∧
    ((lines (raise r d)).getLsbD j.val = true → (lines d).getLsbD j.val = true ∨ j ∈ r)

theorem mem_requests_ipending {s : Iic ρ} {l : BitVec 32} {j : Fin 32} : j ∈ requests (s.ipending l) ↔
    l.getLsbD j.val = true ∧ (s.ienable &&& implemented).getLsbD j.val = true := by
  rw [mem_requests, Iic.ipending, BitVec.and_assoc, BitVec.getLsbD_and, Bool.and_eq_true]

section Pass

variable {raise : Finset (Fin 32) → δ → δ} (hanswers : Answers lines serve s) (hraises : Raises lines raise)
  {i : Fin 32} {handler : ρ} (hhandler : (s.altIrq i).handler = some handler) (r : Finset (Fin 32)) {d : δ}

include hanswers hraises hhandler

theorem requests_kept {j : Fin 32} (hj : j ∈ requests (s.ipending (lines d))) (hne : j ≠ i) :
    j ∈ requests (s.ipending (lines (raise r (serve handler (s.altIrq i).context d)))) := by
  obtain ⟨hline, henabled⟩ := mem_requests_ipending.mp hj
  refine mem_requests_ipending.mpr ⟨(hraises r _ j).1 ?_, henabled⟩
  rw [hanswers i handler hhandler, hline]
  simpa [Fin.ext_iff] using hne

theorem requests_subset : requests (s.ipending (lines (raise r (serve handler (s.altIrq i).context d)))) ⊆
    (requests (s.ipending (lines d))).erase i ∪ r := by
  intro j hj
  obtain ⟨hline, henabled⟩ := mem_requests_ipending.mp hj
  rcases (hraises r _ j).2 hline with hline | hr
  · rw [hanswers i handler hhandler, Bool.and_eq_true, decide_eq_true_eq] at hline
    apply Finset.mem_union_left
    rw [Finset.mem_erase, mem_requests_ipending]
    exact ⟨fun h => hline.2 (congrArg Fin.val h), hline.1, henabled⟩
  · exact Finset.mem_union_right _ hr

theorem requests_card (hactive : i ∈ requests (s.ipending (lines d))) :
    (requests (s.ipending (lines (raise r (serve handler (s.altIrq i).context d))))).card + 1 ≤
      (requests (s.ipending (lines d))).card + r.card := by
  have hsub := Finset.card_le_card (requests_subset hanswers hraises hhandler r (d := d))
  have hunion := hsub.trans (Finset.card_union_le _ _)
  have herase := Finset.card_erase_add_one hactive
  omega

end Pass

/-- Called with interrupts pending, the handler returns after at most as many passes as there were
requests, those of the meantime included; it has then served each of them, and none is left. -/
theorem alt_irq_handler_serves_all (hregistered : Registered s) {raise : Finset (Fin 32) → δ → δ}
    (hanswers : Answers lines serve s) (hraises : Raises lines raise) {rs : List (Finset (Fin 32))} {d : δ}
    (hpending : s.ipending (lines d) ≠ 0)
    (hpasses : (requests (s.ipending (lines d))).card + (rs.map Finset.card).sum ≤ rs.length) :
    ∃ served d', altIrqHandler lines serve s (rs.map raise) (s.ipending (lines d)) d = some (served, d') ∧
      s.ipending (lines d') = 0 ∧ ∀ i ∈ requests (s.ipending (lines d)), i ∈ served.map Prod.snd := by
  induction rs generalizing d with
  | nil =>
      have hpos := requests_nonempty hpending
      simp only [List.map_nil, List.sum_nil, List.length_nil] at hpasses
      omega
  | cons r rs ih =>
      obtain ⟨i, hi⟩ := firstActive_isSome hpending
      have hactive := ((firstActive_eq_some_iff _ _).mp hi).1
      obtain ⟨handler, hhandler⟩ := Option.isSome_iff_exists.mp (hregistered.handler hactive)
      have hcard := requests_card hanswers hraises hhandler r (mem_requests.mpr hactive)
      simp only [List.map_cons, altIrqHandler, hi, hhandler, Option.bind_some]
      by_cases hnext : s.ipending (lines (raise r (serve handler (s.altIrq i).context d))) = 0
      · refine ⟨[(s.ipending (lines d), i)], _, if_pos hnext, hnext, ?_⟩
        intro j hj
        by_cases hne : j = i
        · simp [hne]
        · have hlater := mem_requests.mp (requests_kept hanswers hraises hhandler r hj hne)
          rw [hnext] at hlater
          exact absurd hlater (by simp)
      · simp only [List.map_cons, List.sum_cons, List.length_cons] at hpasses
        obtain ⟨served, d', hcall, hquiet, hall⟩ := ih hnext (by omega)
        refine ⟨(s.ipending (lines d), i) :: served, d', ?_, hquiet, ?_⟩
        · rw [if_neg hnext, hcall]
          rfl
        · intro j hj
          by_cases hne : j = i
          · simp [hne]
          · exact List.mem_cons_of_mem i (hall j (requests_kept hanswers hraises hhandler r hj hne))

end Dispatch

end Montre.Hal
