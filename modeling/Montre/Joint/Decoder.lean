import Montre.Firmware.Hexs
import Montre.Joint.Board

namespace Montre.Joint

open Montre.Library Montre.Library.Runs Montre.Library.Emit Montre.Firmware Montre.Hardware

def DecimalHexs (p : Peripherals) : Prop := (digitsOf p.registers.hexs).Decimal

def DecimalWrite (w : Iowr) : Prop := w.base = .hexs → (digitsOf (w.data.setWidth 16)).Decimal

theorem decimalHexs_cycle {g : Generics} (p : Peripherals) (w : Option Iowr) (h : DecimalHexs p)
    (hw : ∀ x, w = some x → DecimalWrite x) : DecimalHexs (p.cycle g w) := by
  cases w with
  | none => exact h
  | some x =>
      obtain ⟨base, data⟩ := x
      by_cases hb : base = .hexs
      · subst hb
        exact hw _ rfl rfl
      · cases base <;> first | exact h | exact absurd rfl hb

theorem coherent_board (g : Generics) (is : List Input) : Coherent (board g is).state :=
  system_invariant (I := fun s : System => Coherent s.state) coherent_step coherent_start g is

/-- HEXS never holds anything but decimal digits, and nothing else is on its way to it. -/
theorem safe_board (g : Generics) (is : List Input) : (board g is).Safe DecimalHexs DecimalWrite := by
  induction is using List.reverseRecOn with
  | nil =>
      have hzero : (digitsOf (0 : BitVec 16)).Decimal := ⟨by decide, by decide, by decide, by decide⟩
      refine ⟨hzero, ?_⟩
      intro w hw hb
      simp [board, powerUp, watchInit, timerInit1s, keysInterruptInit] at hw
      rcases hw with rfl | rfl | rfl | rfl | rfl | rfl <;> simp at hb
  | append_singleton is i ih =>
      rw [board, run_snoc]
      cases i with
      | event e =>
          apply ih.emit
          intro w hw hb
          rw [hexsDigits_of_hexs_written (board g is).state e w hw hb]
          exact decimal_hexsDigits (coherent_board g is)
      | idle => exact ih.hold decimalHexs_cycle
      | access => exact ih.issue decimalHexs_cycle

theorem routed_decimal_iff (g : Generics) (is : List Input) : (routed (board g is)).Decimal ↔
    ((board g is).env.registers.startChrono.getLsbD 0 = true → seconds g is / 600 % 16 ≤ 9) := by
  rw [routed, digits_eq]
  split_ifs with hselect
  · rw [digitsOf_chrono, chronoDigits_decimal_iff]
    simp [hselect]
  · exact iff_of_true (safe_board g is).env (fun h => absurd h hselect)

/-- In any run the decoders stay inside their table at every edge exactly when the stopwatch,
whenever it is the one on show, has its tens of minutes at 9 or less, modulo 16. -/
theorem decoder_in_table_iff (g : Generics) (is : List Input) :
    (∀ pre, pre <+: is → (routed (board g pre)).Decimal ∧ (routed (board g pre)).Decoded) ↔
      ∀ pre, pre <+: is → (board g pre).env.registers.startChrono.getLsbD 0 = true →
        seconds g pre / 600 % 16 ≤ 9 := by
  simp only [decoded_iff, and_self, routed_decimal_iff]

theorem idle_counts {g : Generics} {b : Board} (hstart : b.env.chrono.start = true)
    (hrst : b.env.chrono.rstChrono = false) {k : ℕ}
    (hchrono : b.env.chrono.chrono = Chrono.after g k (Fdiv.ticks g.divisorMs k)) (n : ℕ) :
    run (step g) b (List.replicate n .idle) = ⟨b.state, b.pending, ⟨b.env.registers,
      { b.env.chrono with chrono := Chrono.after g (k + n) (Fdiv.ticks g.divisorMs (k + n)) }⟩⟩ := by
  induction n with
  | zero => rw [Nat.add_zero, ← hchrono, List.replicate_zero, run_nil]
  | succ n ih =>
      have hcycle := Chrono.cycle_high g (k + n) (Fdiv.ticks g.divisorMs (k + n))
      rw [← Fdiv.ticks_succ g.divisorMs_pos] at hcycle
      rw [List.replicate_succ', run_snoc, ih]
      change (⟨b.state, b.pending, ⟨b.env.registers, { b.env.chrono with
        chrono := Chrono.cycle g b.env.chrono.rstChrono b.env.chrono.rstChrono b.env.chrono.start
          (Chrono.after g (k + n) (Fdiv.ticks g.divisorMs (k + n))) }⟩⟩ : Board) = _
      rw [hrst, hstart, hcycle]
      rfl

def chronoGenerics : Generics :=
  ⟨⟨50000000, by decide⟩, ⟨1000, by decide⟩, ⟨1000, by decide⟩, by decide⟩

def startCounting : List Input :=
  List.replicate 6 .access ++ [.event .key1, .access, .event .tick, .event .display] ++
    List.replicate 3 .access ++ [.event .key2, .event .tick, .event .display] ++ List.replicate 3 .access

theorem enabled_idle (g : Generics) (b : Board) (n : ℕ) :
    Meets (step g) Enabled b (List.replicate n .idle) := by
  induction n generalizing b with
  | zero => simp [Meets]
  | succ n ih => exact meets_cons.mpr ⟨trivial, ih (step g b .idle)⟩

theorem not_decimal_of_ticks {n : ℕ} (hn : Fdiv.ticks chronoGenerics.divisorMs (1 + n) = 6000000) :
    ¬ (routed (board chronoGenerics (startCounting ++ List.replicate n .idle))).Decimal := by
  have hcounts := idle_counts (g := chronoGenerics) (b := board chronoGenerics startCounting) (k := 1) (by decide +kernel)
    (by decide +kernel) (by decide +kernel) n
  have hselect : (board chronoGenerics startCounting).env.registers.startChrono.getLsbD 0 = true := by
    decide +kernel
  intro h
  rw [board, run_append] at h
  change (routed (run (step chronoGenerics) (board chronoGenerics startCounting) _)).Decimal at h
  rw [hcounts, routed, digits_eq, if_pos hselect, Chrono.fromChrono, digitsOf_append, hn] at h
  have hten : (BitVec.ofNat 4 (6000000 / 1000 / 600 % 2 ^ 31)).toNat ≤ 9 := h.digitHH2
  exact absurd hten (by decide)

theorem decoder_left_after_hundred_minutes :
    ¬ ∀ (g : Generics) (is : List Input), Meets (step g) Enabled (powerUp g) is →
      ∀ pre, pre <+: is → (routed (board g pre)).Decimal ∧ (routed (board g pre)).Decoded := by
  intro h
  have hrun : Meets (step chronoGenerics) Enabled (powerUp chronoGenerics)
      (startCounting ++ List.replicate 300000000001 .idle) := by
    rw [meets_append]
    exact ⟨by decide +kernel, enabled_idle chronoGenerics _ 300000000001⟩
  have hdecimal := (h chronoGenerics _ hrun _ List.prefix_rfl).1
  exact not_decimal_of_ticks (by decide +kernel) hdecimal

end Montre.Joint
