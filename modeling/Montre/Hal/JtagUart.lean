import Montre.Library.Ring
import Montre.Library.Runs

namespace Montre.Hal

open Montre.Library Runs

/-- A call of `altera_avalon_jtag_uart_write`: what lies between its start and `ptr`, what `count` still
counts, and O_NONBLOCK. -/
structure Call where
  sent : List UInt8
  rest : List UInt8
  nonblock : Bool
deriving DecidableEq

namespace Call

def data (c : Call) : List UInt8 := c.sent ++ c.rest

def eio : ℤ := 5

def ewouldblock : ℤ := 11

def result (c : Call) : ℤ :=
  if c.sent ≠ [] then c.sent.length else if c.nonblock then -ewouldblock else -eio

theorem take_result (c : Call) : c.data.take c.result.toNat = c.sent := by
  obtain ⟨sent, rest, nonblock⟩ := c
  cases sent with
  | nil => cases nonblock <;> rfl
  | cons b sent => exact List.take_left

end Call

/-- The points of the writer: at `while (count > 0)`, in `memcpy` with k of n bytes stored, at the write of
the control register, in the waiting loop, and at the test behind it. -/
inductive Writer (N : ℕ)
  | idle
  | copy (c : Call) (out : Fin N)
  | store (c : Call) (out : Fin N) (n k : ℕ)
  | kick (c : Call) (out : Fin N)
  | spin (c : Call) (out : Fin N)
  | recheck (c : Call) (out : Fin N)
deriving DecidableEq

def Writer.beforeKick {N : ℕ} : Writer N → Bool
  | .copy _ _ | .store _ _ _ _ | .kick _ _ => true
  | .idle | .spin _ _ | .recheck _ _ => false

def Writer.call {N : ℕ} : Writer N → List Call
  | .idle => []
  | .copy c _ | .store c _ _ _ | .kick c _ | .spin c _ | .recheck c _ => [c]

/-- `altera_avalon_jtag_uart_irq`: at the read of the control register, in its loop over the bytes with
the space that is left, and before it turns the write interrupt off. -/
inductive UartIrq
  | idle
  | control
  | send (space : ℕ)
  | mask
deriving DecidableEq

def UartIrq.space : UartIrq → ℕ
  | .send space => space
  | .idle | .control | .mask => 0

/-- The transmit half of the driver and of the device, whose write FIFO is 64 deep. `we` is the bit of
`irq_enable` and of the control register. -/
structure Uart (N : ℕ) where
  txIn : Fin N
  txOut : Fin N
  txBuf : Fin N → UInt8
  we : Bool
  hostInactive : ℕ
  writer : Writer N
  irq : UartIrq
  fifo : List UInt8

inductive UartAction
  | call (data : List UInt8) (nonblock : Bool)
  | writer
  | irq (wi : Bool)
  | host
  | timeout (ac : Bool)
deriving DecidableEq

namespace Uart

variable {N : ℕ} [NeZero N]

def init : Uart N := ⟨0, 0, fun _ => 0, false, 0, .idle, .idle, []⟩

def depth : ℕ := 64

def intMax : ℕ := 2 ^ 31 - 1

def stepWriter (timeout : ℕ) (s : Uart N) : Uart N :=
  match s.writer with
  | .idle => s
  | .copy c out =>
      if c.rest = [] then { s with writer := .kick c out }
      else if Ring.room s.txIn s.txOut = 0 then { s with writer := .kick c s.txOut }
      else { s with writer := .store c s.txOut (min (Ring.room s.txIn s.txOut) c.rest.length) 0 }
  | .store c out n k =>
      if k < n then
        { s with
          txBuf := Function.update s.txBuf (Ring.shift s.txIn k) (c.rest.getD k 0)
          writer := .store c out n (k + 1) }
      else
        { s with
          txIn := Ring.shift s.txIn n
          writer := .copy ⟨c.sent ++ c.rest.take n, c.rest.drop n, c.nonblock⟩ out }
  | .kick c out =>
      { s with we := true, writer := if c.rest = [] ∨ c.nonblock = true then .idle else .spin c out }
  | .spin c out => if out = s.txOut ∧ s.hostInactive < timeout then s else { s with writer := .recheck c out }
  | .recheck c out => { s with writer := if out = s.txOut then .idle else .copy c out }

/-- `wi` is what the control register shows of the write interrupt. -/
def stepIrq (wi : Bool) (s : Uart N) : Uart N :=
  match s.irq with
  | .idle => { s with irq := .control }
  | .control => { s with irq := if wi then .send (depth - s.fifo.length) else .idle }
  | .send space =>
      if 0 < space ∧ s.txOut ≠ s.txIn then
        { s with
          fifo := if s.fifo.length < depth then s.fifo ++ [s.txBuf s.txOut] else s.fifo
          txOut := Ring.shift s.txOut 1
          irq := .send (space - 1) }
      else { s with irq := if 0 < space then .mask else .control }
  | .mask => { s with we := false, irq := .control }

def step (timeout : ℕ) (s : Uart N) : UartAction → Uart N
  | .call data nonblock => { s with writer := .copy ⟨[], data, nonblock⟩ 0 }
  | .writer => stepWriter timeout s
  | .irq wi => stepIrq wi s
  | .host => { s with fifo := s.fifo.tail }
  | .timeout ac =>
      { s with hostInactive :=
          if ac then 0 else if s.hostInactive < intMax - 2 then s.hostInactive + 1 else s.hostInactive }

/-- The interrupt routine runs to its end before the program goes on, and the device requests no write
interrupt that is not enabled. -/
def Enabled (s : Uart N) : UartAction → Prop
  | .call _ _ => s.writer = .idle ∧ s.irq = .idle
  | .writer | .timeout _ => s.irq = .idle
  | .irq wi => wi = true → s.we = true
  | .host => True

instance (s : Uart N) (a : UartAction) : Decidable (Enabled s a) :=
  match a with
  | .call _ _ => inferInstanceAs (Decidable (_ ∧ _))
  | .writer | .timeout _ => inferInstanceAs (Decidable (_ = _))
  | .irq _ => inferInstanceAs (Decidable (_ → _))
  | .host => isTrue trivial

def ring (s : Uart N) : List UInt8 := Ring.contents s.txBuf s.txIn s.txOut

structure Wf (s : Uart N) : Prop where
  storing : ∀ c out n k, s.writer = .store c out n k → Ring.Storing s.txBuf s.txIn s.txOut c.rest n k
  room : s.fifo.length + s.irq.space ≤ depth
  masking : s.irq = .mask → s.txOut = s.txIn
  served : s.txOut = s.txIn ∨ s.we = true ∨ s.writer.beforeKick = true

theorem wf_init : Wf (init : Uart N) := by
  constructor
  · intro c out n k h
    cases h
  · exact Nat.zero_le _
  · intro h
    cases h
  · exact .inl rfl

theorem getElem?_rest {s : Uart N} {c : Call} {n k : ℕ} (h : Ring.Storing s.txBuf s.txIn s.txOut c.rest n k)
    (hk : k < n) : c.rest[k]? = some (c.rest.getD k 0) := by
  have hlt : k < c.rest.length := hk.trans_le h.counted
  simp [List.getElem?_eq_getElem hlt]

theorem wf_writer (timeout : ℕ) {s : Uart N} (h : Wf s) (hirq : s.irq = .idle) : Wf (stepWriter timeout s) := by
  obtain ⟨hstoring, hroom, hmasking, hserved⟩ := h
  cases hw : s.writer with
  | idle =>
      simp only [stepWriter, hw]
      exact ⟨hstoring, hroom, hmasking, hserved⟩
  | copy c out =>
      simp only [stepWriter, hw]
      split_ifs with hrest hspace
      · exact ⟨by simp, hroom, hmasking, .inr (.inr rfl)⟩
      · exact ⟨by simp, hroom, hmasking, .inr (.inr rfl)⟩
      · refine ⟨?_, hroom, hmasking, .inr (.inr rfl)⟩
        intro c' out' n k heq
        cases heq
        exact Ring.storing_zero s.txBuf (Nat.min_le_left _ _) (Nat.min_le_right _ _)
  | store c out n k =>
      have hcurrent := hstoring c out n k hw
      simp only [stepWriter, hw]
      split_ifs with hk
      · refine ⟨?_, hroom, hmasking, .inr (.inr rfl)⟩
        intro c' out' n' k' heq
        cases heq
        exact (hcurrent.store hk (getElem?_rest hcurrent hk)).1
      · refine ⟨by simp, hroom, ?_, .inr (.inr rfl)⟩
        intro hmask
        exact absurd (hirq.symm.trans hmask) (by simp)
  | kick c out =>
      simp only [stepWriter, hw]
      refine ⟨?_, hroom, hmasking, .inr (.inl rfl)⟩
      intro c' out' n k heq
      simp only at heq
      split_ifs at heq
  | spin c out =>
      simp only [stepWriter, hw]
      split_ifs
      · exact ⟨hstoring, hroom, hmasking, hserved⟩
      · refine ⟨by simp, hroom, hmasking, ?_⟩
        rcases hserved with hempty | hwe | hbusy
        · exact .inl hempty
        · exact .inr (.inl hwe)
        · simp [hw, Writer.beforeKick] at hbusy
  | recheck c out =>
      simp only [stepWriter, hw]
      refine ⟨?_, hroom, hmasking, ?_⟩
      · intro c' out' n k heq
        simp only at heq
        split_ifs at heq
      · rcases hserved with hempty | hwe | hbusy
        · exact .inl hempty
        · exact .inr (.inl hwe)
        · simp [hw, Writer.beforeKick] at hbusy

@[simp] theorem stepIrq_writer (wi : Bool) (s : Uart N) : (stepIrq wi s).writer = s.writer := by
  cases hi : s.irq with
  | idle | control | mask => simp only [stepIrq, hi]
  | send space =>
      simp only [stepIrq, hi]
      split_ifs <;> rfl

@[simp] theorem stepIrq_hostInactive (wi : Bool) (s : Uart N) : (stepIrq wi s).hostInactive = s.hostInactive := by
  cases hi : s.irq with
  | idle | control | mask => simp only [stepIrq, hi]
  | send space =>
      simp only [stepIrq, hi]
      split_ifs <;> rfl

@[simp] theorem stepWriter_hostInactive (timeout : ℕ) (s : Uart N) :
    (stepWriter timeout s).hostInactive = s.hostInactive := by
  cases hw : s.writer with
  | idle | kick c out | recheck c out => simp only [stepWriter, hw]
  | copy c out | store c out n k | spin c out =>
      simp only [stepWriter, hw]
      split_ifs <;> rfl

theorem wf_irq {wi : Bool} {s : Uart N} (h : Wf s) (hwi : wi = true → s.we = true) : Wf (stepIrq wi s) := by
  obtain ⟨hstoring, hroom, hmasking, hserved⟩ := h
  cases hi : s.irq with
  | idle =>
      simp only [stepIrq, hi]
      exact ⟨hstoring, hroom.trans' (Nat.le_add_right _ _), by simp, hserved⟩
  | control =>
      simp only [stepIrq, hi]
      refine ⟨hstoring, ?_, ?_, hserved⟩
      · cases wi <;> simp only [UartIrq.space, hi, depth] at hroom ⊢ <;> simp <;> omega
      · cases wi <;> simp
  | send space =>
      rw [hi, UartIrq.space] at hroom
      simp only [stepIrq, hi]
      split_ifs with hsend hfifo hspace
      · refine ⟨?_, ?_, by simp, ?_⟩
        · intro c out n k hw
          exact (hstoring c out n k hw).pop (Ne.symm hsend.2)
        · simp only [UartIrq.space, List.length_append, List.length_cons, List.length_nil]
          omega
        · right
          exact hserved.resolve_left hsend.2
      · omega
      · refine ⟨hstoring, ?_, ?_, hserved⟩
        · exact (Nat.le_add_right _ _).trans hroom
        · intro _
          by_contra hne
          exact hsend ⟨hspace, hne⟩
      · exact ⟨hstoring, (Nat.le_add_right _ _).trans hroom, by simp, hserved⟩
  | mask =>
      simp only [stepIrq, hi]
      exact ⟨hstoring, (Nat.le_add_right _ _).trans hroom, by simp, .inl (hmasking hi)⟩

theorem wf_step (timeout : ℕ) (s : Uart N) (a : UartAction) (h : Wf s) (ha : Enabled s a) :
    Wf (step timeout s a) := by
  cases a with
  | call data nonblock =>
      obtain ⟨-, hroom, hmasking, -⟩ := h
      exact ⟨by simp [step], hroom, hmasking, .inr (.inr rfl)⟩
  | writer => exact wf_writer timeout h ha
  | irq wi => exact wf_irq h ha
  | host =>
      obtain ⟨hstoring, hroom, hmasking, hserved⟩ := h
      refine ⟨hstoring, ?_, hmasking, hserved⟩
      have htail : s.fifo.tail.length ≤ s.fifo.length := by
        rw [List.length_tail]
        omega
      exact (Nat.add_le_add_right htail _).trans hroom
  | timeout ac =>
      obtain ⟨hstoring, hroom, hmasking, hserved⟩ := h
      exact ⟨hstoring, hroom, hmasking, hserved⟩

def taken (s : Uart N) : UartAction → List UInt8
  | .host => s.fifo.head?.toList
  | .call _ _ | .writer | .irq _ | .timeout _ => []

def accepted (s : Uart N) : UartAction → List UInt8
  | .writer => match s.writer with
    | .store c _ n k => if k < n then [] else c.rest.take n
    | _ => []
  | .call _ _ | .irq _ | .host | .timeout _ => []

def begun : UartAction → List (List UInt8)
  | .call data _ => [data]
  | .writer | .irq _ | .host | .timeout _ => []

def returned (s : Uart N) : UartAction → List Call
  | .writer => match s.writer with
    | .kick c _ => if c.rest = [] ∨ c.nonblock = true then [c] else []
    | .recheck c out => if out = s.txOut then [c] else []
    | _ => []
  | .call _ _ | .irq _ | .host | .timeout _ => []

theorem stepWriter_stream (timeout : ℕ) {s : Uart N} (h : Wf s) :
    (stepWriter timeout s).fifo = s.fifo ∧ (stepWriter timeout s).ring = s.ring ++ accepted s .writer := by
  cases hw : s.writer with
  | idle | kick c out | recheck c out => simp [stepWriter, hw, accepted, ring]
  | spin c out | copy c out =>
      simp only [stepWriter, hw, accepted, ring]
      split_ifs <;> simp
  | store c out n k =>
      have hstoring := h.storing c out n k hw
      simp only [stepWriter, hw, accepted, ring]
      split_ifs with hk
      · refine ⟨rfl, ?_⟩
        rw [List.append_nil]
        exact (hstoring.store hk (getElem?_rest hstoring hk)).2
      · obtain rfl : k = n := Nat.le_antisymm hstoring.le (Nat.le_of_not_lt hk)
        exact ⟨rfl, hstoring.publish⟩

theorem stepIrq_stream (wi : Bool) {s : Uart N} (h : Wf s) :
    (stepIrq wi s).fifo ++ (stepIrq wi s).ring = s.fifo ++ s.ring := by
  cases hi : s.irq with
  | idle | control | mask => simp [stepIrq, hi, ring]
  | send space =>
      have hroom := h.room
      rw [hi, UartIrq.space] at hroom
      simp only [stepIrq, hi]
      split_ifs with hsend hfifo
      · rw [ring, ring, Ring.contents_pop (Ne.symm hsend.2), List.append_assoc]
        rfl
      · omega
      · rfl
      · rfl

/-- The FIFO and the ring are one queue: the host takes out of it what the writer puts in. -/
theorem stream_step (timeout : ℕ) (s : Uart N) (a : UartAction) (h : Wf s) :
    taken s a ++ ((step timeout s a).fifo ++ (step timeout s a).ring) = s.fifo ++ s.ring ++ accepted s a := by
  cases a with
  | call data nonblock | timeout ac => exact (List.append_nil _).symm
  | writer =>
      obtain ⟨hfifo, hring⟩ := stepWriter_stream timeout h
      rw [step, hfifo, hring, List.append_assoc]
      rfl
  | irq wi =>
      rw [step, stepIrq_stream wi h]
      exact (List.append_nil _).symm
  | host =>
      rw [accepted, List.append_nil, taken, step]
      cases hf : s.fifo with
      | nil => rfl
      | cons b bs => rfl

theorem calls_step (timeout : ℕ) (s : Uart N) (a : UartAction) (ha : Enabled s a) :
    (returned s a).flatMap Call.sent ++ (step timeout s a).writer.call.flatMap Call.sent =
        s.writer.call.flatMap Call.sent ++ accepted s a ∧
      (returned s a).map Call.data ++ (step timeout s a).writer.call.map Call.data =
        s.writer.call.map Call.data ++ begun a := by
  cases a with
  | call data nonblock =>
      rw [show s.writer.call = [] by rw [ha.1]; rfl]
      exact ⟨rfl, rfl⟩
  | irq wi =>
      rw [step, stepIrq_writer]
      simp [returned, accepted, begun]
  | host | timeout ac => simp [step, returned, accepted, begun]
  | writer =>
      cases hw : s.writer with
      | idle => simp [step, stepWriter, hw, returned, accepted, begun, Writer.call]
      | copy c out =>
          simp only [step, stepWriter, hw, returned, accepted, begun]
          split_ifs <;> simp [Writer.call]
      | store c out n k =>
          simp only [step, stepWriter, hw, returned, accepted, begun]
          split_ifs <;> simp [Writer.call, Call.data]
      | kick c out =>
          simp only [step, stepWriter, hw, returned, accepted, begun]
          split_ifs <;> simp [Writer.call]
      | spin c out =>
          simp only [step, stepWriter, hw, returned, accepted, begun]
          split_ifs <;> simp [Writer.call, hw]
      | recheck c out =>
          simp only [step, stepWriter, hw, returned, accepted, begun]
          split_ifs <;> simp [Writer.call]

theorem wf_run (timeout : ℕ) {as : List UartAction} (h : Meets (step timeout) Enabled (init : Uart N) as) :
    Wf (run (step timeout) (init : Uart N) as) :=
  h.invariant (wf_step timeout) wf_init

section Delivery

variable (timeout : ℕ) {as : List UartAction} (h : Meets (step timeout) Enabled (init : Uart N) as)

include h

theorem stream_run : outputs (step timeout) taken (init : Uart N) as ++
      ((run (step timeout) (init : Uart N) as).fifo ++ (run (step timeout) (init : Uart N) as).ring) =
    (outputs (step timeout) returned (init : Uart N) as).flatMap Call.sent ++
      (run (step timeout) (init : Uart N) as).writer.call.flatMap Call.sent := by
  have hstream := takes_eq_puts accepted taken (fun s : Uart N => s.fifo ++ s.ring) (wf_step timeout)
    (fun s a hs _ => stream_step timeout s a hs) wf_init h
  have hsent := takes_eq_puts accepted (fun (s : Uart N) a => (returned s a).flatMap Call.sent)
    (fun s : Uart N => s.writer.call.flatMap Call.sent) (I := fun _ => True) (fun _ _ _ _ => trivial)
    (fun s a _ ha => (calls_step timeout s a ha).1) trivial h
  have hempty : (init : Uart N).ring = [] := Ring.contents_self _ _
  simp only [outputs, ← List.flatMap_assoc] at hstream hsent ⊢
  rw [hstream, hempty]
  exact hsent.symm

theorem calls_run : (outputs (step timeout) returned (init : Uart N) as).map Call.data ++
    (run (step timeout) (init : Uart N) as).writer.call.map Call.data = as.flatMap begun := by
  have hdata := takes_eq_puts (fun (_ : Uart N) a => begun a) (fun (s : Uart N) a => (returned s a).map Call.data)
    (fun s : Uart N => s.writer.call.map Call.data) (I := fun _ => True) (fun _ _ _ _ => trivial)
    (fun s a _ ha => (calls_step timeout s a ha).2) trivial h
  rw [outputs_input] at hdata
  simp only [outputs, ← List.map_flatMap] at hdata ⊢
  exact hdata

end Delivery

/-- The specification of `write`, over every interleaving of the program, the interrupt routine and the
host. What the host has read and what is still on its way to it is, byte for byte and in order, what the
calls report as written, with what the current call has already handed over. -/
theorem write_delivers_in_order (timeout : ℕ) (as : List UartAction)
    (h : Meets (step timeout) Enabled (init : Uart N) as) :
    outputs (step timeout) taken (init : Uart N) as ++
        ((run (step timeout) (init : Uart N) as).fifo ++ (run (step timeout) (init : Uart N) as).ring) =
      ((outputs (step timeout) returned (init : Uart N) as).flatMap fun c => c.data.take c.result.toNat) ++
        (run (step timeout) (init : Uart N) as).writer.call.flatMap Call.sent ∧
    (outputs (step timeout) returned (init : Uart N) as).map Call.data ++
        (run (step timeout) (init : Uart N) as).writer.call.map Call.data = as.flatMap begun := by
  simp only [Call.take_result]
  exact ⟨stream_run timeout h, calls_run timeout h⟩

def twoCalls : List UartAction :=
  .call [65, 66] false :: List.replicate 3 .writer ++ [.irq false, .irq false] ++ List.replicate 4 .writer ++
    [.irq false, .irq true, .irq false, .irq false, .host, .irq false, .irq false, .irq false] ++
    .call [67] false :: List.replicate 5 .writer ++ [.host]

theorem twoCalls_delivered : outputs (step 10) taken (init : Uart 4) twoCalls = [65, 66] := by
  have hdelivered := (write_delivers_in_order (N := 4) 10 twoCalls (by decide)).1
  have hheld : (run (step 10) (init : Uart 4) twoCalls).fifo ++ (run (step 10) (init : Uart 4) twoCalls).ring =
      [67] := by decide
  rw [hheld] at hdelivered
  rw [← List.append_left_inj [67], hdelivered]
  decide

/-- No byte is left behind: whatever the interleaving, when no call is on its way to its write of the
control register the write interrupt is on as long as a byte waits in the buffer. And the stores of
`memcpy` stay inside the buffer, off the bytes that wait, and those of the interrupt routine inside
the FIFO. -/
theorem no_byte_stranded (timeout : ℕ) (as : List UartAction)
    (h : Meets (step timeout) Enabled (init : Uart N) as) :
    ((run (step timeout) (init : Uart N) as).ring ≠ [] →
      (run (step timeout) (init : Uart N) as).writer.beforeKick = false →
        (run (step timeout) (init : Uart N) as).we = true) ∧
    (∀ c out n k, (run (step timeout) (init : Uart N) as).writer = .store c out n k →
      (run (step timeout) (init : Uart N) as).txIn.val + n ≤ N ∧
        (run (step timeout) (init : Uart N) as).ring.length + n < N) ∧
    ∀ space, (run (step timeout) (init : Uart N) as).irq = .send (space + 1) →
      (run (step timeout) (init : Uart N) as).fifo.length < depth := by
  obtain ⟨hstoring, hroom, -, hserved⟩ := wf_run timeout h
  generalize run (step timeout) (init : Uart N) as = s at hstoring hroom hserved ⊢
  refine ⟨?_, ?_, ?_⟩
  · intro hring hkick
    rcases hserved with hempty | hwe | hbusy
    · rw [ring, hempty, Ring.contents_self] at hring
      exact absurd rfl hring
    · exact hwe
    · exact absurd (hkick.symm.trans hbusy) Bool.false_ne_true
  · intro c out n k hw
    have hblock := hstoring c out n k hw
    rw [ring, Ring.contents_length]
    exact ⟨hblock.inside, hblock.free⟩
  · intro space hi
    rw [hi, UartIrq.space] at hroom
    omega

theorem no_byte_stranded_mid_call : (run (step 10) (init : Uart 4) (twoCalls.take 10)).we = true :=
  (no_byte_stranded (N := 4) 10 (twoCalls.take 10) (by decide)).1 (by decide) (by decide)

section Patient

def nonblocking : UartAction → Bool
  | .call _ nonblock => nonblock
  | .writer | .irq _ | .host | .timeout _ => false

structure Patient (timeout : ℕ) (s : Uart N) (a : UartAction) : Prop where
  enabled : Enabled s a
  present : s.hostInactive < timeout
  blocking : nonblocking a = false

instance (timeout : ℕ) (s : Uart N) (a : UartAction) : Decidable (Patient timeout s a) :=
  decidable_of_iff (Enabled s a ∧ s.hostInactive < timeout ∧ nonblocking a = false)
    ⟨fun ⟨henabled, hpresent, hblocking⟩ => ⟨henabled, hpresent, hblocking⟩,
      fun ⟨henabled, hpresent, hblocking⟩ => ⟨henabled, hpresent, hblocking⟩⟩

/-- A call that waits for `tx_out` to move sees it move on from what it has read, and never come back to it. -/
structure Waiting (s : Uart N) : Prop where
  blocking : ∀ c ∈ s.writer.call, c.nonblock = false
  kick : ∀ c out, s.writer = .kick c out → c.rest ≠ [] → Ring.used s.txIn s.txOut ≤ Ring.used s.txIn out
  spin : ∀ c out, s.writer = .spin c out → Ring.used s.txIn s.txOut ≤ Ring.used s.txIn out
  recheck : ∀ c out, s.writer = .recheck c out → Ring.used s.txIn s.txOut < Ring.used s.txIn out

theorem waiting_init : Waiting (init : Uart N) := by
  constructor <;> simp [init, Writer.call]

theorem waiting_writer {timeout : ℕ} {s : Uart N} (h : Waiting s) (hpresent : s.hostInactive < timeout) :
    Waiting (stepWriter timeout s) := by
  obtain ⟨hblocking, hkick, hspin, hrecheck⟩ := h
  cases hw : s.writer with
  | idle =>
      simp only [stepWriter, hw]
      exact ⟨hblocking, hkick, hspin, hrecheck⟩
  | copy c out =>
      rw [hw] at hblocking
      simp only [stepWriter, hw]
      split_ifs with hrest hspace
      · exact ⟨hblocking, by simp [hrest], by simp, by simp⟩
      · refine ⟨hblocking, ?_, by simp, by simp⟩
        intro c' out' heq _
        cases heq
        exact le_rfl
      · exact ⟨hblocking, by simp, by simp, by simp⟩
  | store c out n k =>
      rw [hw] at hblocking
      simp only [stepWriter, hw]
      split_ifs
      · exact ⟨hblocking, by simp, by simp, by simp⟩
      · refine ⟨?_, by simp, by simp, by simp⟩
        intro c' hc'
        obtain rfl := List.mem_singleton.mp hc'
        exact hblocking c List.mem_cons_self
  | kick c out =>
      rw [hw] at hblocking
      have hnonblock := hblocking c List.mem_cons_self
      simp only [stepWriter, hw, hnonblock, Bool.false_eq_true, or_false]
      split_ifs with hrest
      · exact ⟨by simp [Writer.call], by simp, by simp, by simp⟩
      · refine ⟨hblocking, by simp, ?_, by simp⟩
        intro c' out' heq
        cases heq
        exact hkick c out hw hrest
  | spin c out =>
      simp only [stepWriter, hw]
      split_ifs with hstay
      · exact ⟨hblocking, hkick, hspin, hrecheck⟩
      · rw [hw] at hblocking
        refine ⟨hblocking, by simp, by simp, ?_⟩
        intro c' out' heq
        cases heq
        apply lt_of_le_of_ne (hspin c out hw)
        intro hused
        exact hstay ⟨(Ring.used_inj hused).symm, hpresent⟩
  | recheck c out =>
      rw [hw] at hblocking
      simp only [stepWriter, hw]
      split_ifs
      · exact ⟨by simp [Writer.call], by simp, by simp, by simp⟩
      · exact ⟨hblocking, by simp, by simp, by simp⟩

theorem Waiting.pop {s : Uart N} (h : Waiting s) (hne : s.txIn ≠ s.txOut) (irq : UartIrq) (fifo : List UInt8) :
    Waiting { s with fifo := fifo, txOut := Ring.shift s.txOut 1, irq := irq } := by
  obtain ⟨hblocking, hkick, hspin, hrecheck⟩ := h
  have hpop := Ring.used_shift_out hne
  refine ⟨hblocking, ?_, ?_, ?_⟩ <;> simp only
  · intro c out hw hrest
    have hstale := hkick c out hw hrest
    omega
  · intro c out hw
    have hstale := hspin c out hw
    omega
  · intro c out hw
    have hpassed := hrecheck c out hw
    omega

theorem waiting_irq (wi : Bool) {s : Uart N} (h : Waiting s) : Waiting (stepIrq wi s) := by
  cases hi : s.irq with
  | idle | control | mask =>
      obtain ⟨hblocking, hkick, hspin, hrecheck⟩ := h
      simp only [stepIrq, hi]
      exact ⟨hblocking, hkick, hspin, hrecheck⟩
  | send space =>
      by_cases hsend : 0 < space ∧ s.txOut ≠ s.txIn
      · simp only [stepIrq, hi, if_pos hsend]
        exact h.pop (Ne.symm hsend.2) _ _
      · obtain ⟨hblocking, hkick, hspin, hrecheck⟩ := h
        simp only [stepIrq, hi, if_neg hsend]
        exact ⟨hblocking, hkick, hspin, hrecheck⟩

theorem waiting_step (timeout : ℕ) (s : Uart N) (a : UartAction) (h : Waiting s) (ha : Patient timeout s a) :
    Waiting (step timeout s a) := by
  cases a with
  | call data nonblock =>
      refine ⟨?_, by simp [step], by simp [step], by simp [step]⟩
      intro c hc
      obtain rfl := List.mem_singleton.mp hc
      exact ha.blocking
  | writer => exact waiting_writer h ha.present
  | irq wi => exact waiting_irq wi h
  | host | timeout ac =>
      obtain ⟨hblocking, hkick, hspin, hrecheck⟩ := h
      exact ⟨hblocking, hkick, hspin, hrecheck⟩

omit [NeZero N] in
theorem rest_of_returned {s : Uart N} (h : Waiting s) {a : UartAction} {c : Call} (hc : c ∈ returned s a) :
    c.rest = [] := by
  cases a with
  | call data nonblock | irq wi | host | timeout ac => simp [returned] at hc
  | writer =>
      cases hw : s.writer with
      | idle | copy c' out | store c' out n k | spin c' out => simp [returned, hw] at hc
      | kick c' out =>
          have hnonblock := h.blocking c' (by rw [hw]; exact List.mem_cons_self)
          simp only [returned, hw, hnonblock, Bool.false_eq_true, or_false] at hc
          split_ifs at hc with hrest
          · obtain rfl := List.mem_singleton.mp hc
            exact hrest
          · simp at hc
      | recheck c' out =>
          have hpassed := h.recheck c' out hw
          simp only [returned, hw] at hc
          split_ifs at hc with hout
          · rw [hout] at hpassed
            exact absurd hpassed (lt_irrefl _)
          · simp at hc

theorem rest_of_outputs (timeout : ℕ) {as : List UartAction}
    (h : Meets (step timeout) (Patient timeout) (init : Uart N) as) :
    ∀ c ∈ outputs (step timeout) returned (init : Uart N) as, c.rest = [] := by
  intro c hc
  obtain ⟨x, hx, hc⟩ := List.mem_flatMap.mp hc
  exact rest_of_returned (h.trace_invariant (waiting_step timeout) waiting_init x hx) hc

/-- As long as the host is not given up, a blocking call returns only when all its bytes are on
their way, so that nothing that is printed is lost. -/
theorem blocking_writes_lose_nothing (timeout : ℕ) (as : List UartAction)
    (h : Meets (step timeout) (Patient timeout) (init : Uart N) as) :
    (∀ c ∈ outputs (step timeout) returned (init : Uart N) as, c.rest = []) ∧
    outputs (step timeout) taken (init : Uart N) as ++
        ((run (step timeout) (init : Uart N) as).fifo ++ (run (step timeout) (init : Uart N) as).ring) ++
          (run (step timeout) (init : Uart N) as).writer.call.flatMap Call.rest =
      (as.flatMap begun).flatten := by
  have hrest := rest_of_outputs timeout h
  refine ⟨hrest, ?_⟩
  have henabled := h.mono fun s a ha => ha.enabled
  have hdata : ∀ c ∈ outputs (step timeout) returned (init : Uart N) as, c.sent = c.data := by
    intro c hc
    rw [Call.data, hrest c hc, List.append_nil]
  rw [stream_run timeout henabled, ← calls_run timeout henabled, List.flatMap_congr hdata, List.flatten_append,
    List.append_assoc, ← List.flatMap_def, ← List.flatMap_def]
  apply congrArg
  cases (run (step timeout) (init : Uart N) as).writer <;> simp [Writer.call, Call.data]

theorem twoCalls_lose_nothing : outputs (step 10) taken (init : Uart 4) twoCalls ++
    ((run (step 10) (init : Uart 4) twoCalls).fifo ++ (run (step 10) (init : Uart 4) twoCalls).ring) ++
      (run (step 10) (init : Uart 4) twoCalls).writer.call.flatMap Call.rest = [65, 66, 67] :=
  (blocking_writes_lose_nothing (N := 4) 10 twoCalls (by decide)).2

theorem taken_eq_nil {as : List UartAction} (hhost : .host ∉ as) (timeout : ℕ) (s : Uart N) :
    outputs (step timeout) taken s as = [] := by
  induction as generalizing s with
  | nil => rfl
  | cons a as ih =>
      rw [List.mem_cons, not_or] at hhost
      obtain ⟨ha, has⟩ := hhost
      rw [outputs_cons, ih has, List.append_nil]
      cases a with
      | host => exact absurd rfl ha
      | call data nonblock | writer | irq wi | timeout ac => rfl

theorem returned_lt (timeout : ℕ) {as : List UartAction}
    (h : Meets (step timeout) (Patient timeout) (init : Uart N) as) (hhost : .host ∉ as) :
    ((outputs (step timeout) returned (init : Uart N) as).map Call.data).flatten.length < N + depth := by
  have henabled := h.mono fun s a ha => ha.enabled
  have hwf := wf_run timeout henabled
  have hstream := congrArg List.length (stream_run timeout henabled)
  have hdata : ∀ c ∈ outputs (step timeout) returned (init : Uart N) as, c.data = c.sent := by
    intro c hc
    rw [Call.data, rest_of_outputs timeout h c hc, List.append_nil]
  have hring := Ring.used_lt (run (step timeout) (init : Uart N) as).txIn (run (step timeout) (init : Uart N) as).txOut
  have hfifo := (Nat.le_add_right _ _).trans hwf.room
  rw [taken_eq_nil hhost, List.nil_append, List.length_append, List.length_append, ring, Ring.contents_length] at hstream
  rw [← List.flatMap_def, List.flatMap_congr hdata]
  omega

end Patient

end Uart

end Montre.Hal
