import Montre.Library.AddressDecoder

namespace Montre.Hardware

inductive Slave
  | sdram
  | onchipMemory20
  | jtagDebugModule
  | timer0
  | ledg
  | startChrono
  | switches
  | hexs
  | keys
  | jtagUart0
  | chrono0
  | alarmBell0
deriving DecidableEq, Repr

namespace AddrRouter

open Montre.Library AddressDecoder

/-- The tests of the address decoder, in its order. -/
def windows : List (Window Slave) :=
  [⟨0x800000, 0x1000000, .sdram⟩,
    ⟨0x1001000, 0x1002000, .onchipMemory20⟩,
    ⟨0x1002800, 0x1003000, .jtagDebugModule⟩,
    ⟨0x1003000, 0x1003020, .timer0⟩,
    ⟨0x1003020, 0x1003030, .ledg⟩,
    ⟨0x1003030, 0x1003040, .startChrono⟩,
    ⟨0x1003040, 0x1003050, .switches⟩,
    ⟨0x1003050, 0x1003060, .hexs⟩,
    ⟨0x1003060, 0x1003070, .keys⟩,
    ⟨0x1003070, 0x1003078, .jtagUart0⟩,
    ⟨0x1003078, 0x100307c, .chrono0⟩,
    ⟨0x100307c, 0x1003080, .alarmBell0⟩]

def route (address : BitVec 25) : Slave := AddressDecoder.route .sdram windows address

theorem aligned_windows : ∀ w ∈ windows, w.Aligned 25 := by decide

theorem apart_windows : windows.Pairwise Window.Apart := by decide

structure Region where
  slave : Slave
  base : ℕ
  span : ℕ
deriving DecidableEq

/-- The bases and the spans that `system.h` gives to the software. -/
def systemH : List Region :=
  [⟨.alarmBell0, 0x100307c, 4⟩,
    ⟨.chrono0, 0x1003078, 4⟩,
    ⟨.hexs, 0x1003050, 16⟩,
    ⟨.keys, 0x1003060, 16⟩,
    ⟨.ledg, 0x1003020, 16⟩,
    ⟨.jtagUart0, 0x1003070, 8⟩,
    ⟨.onchipMemory20, 0x1001000, 4096⟩,
    ⟨.sdram, 0x800000, 8388608⟩,
    ⟨.startChrono, 0x1003030, 16⟩,
    ⟨.switches, 0x1003040, 16⟩,
    ⟨.timer0, 0x1003000, 32⟩]

theorem window_of_systemH : ∀ r ∈ systemH, ⟨r.base, r.base + r.span, r.slave⟩ ∈ windows := by decide

theorem window_unique : ∀ w ∈ windows, ∀ v ∈ windows, w.target = v.target → w = v := by decide

/-- The software and the router agree on every address: it reaches a slave just when it lies in the span
of that slave in `system.h`, and the SDRAM also when it lies in no window at all. -/
theorem routed_iff_in_system_h (address : BitVec 25) {r : Region} (h : r ∈ systemH) : route address = r.slave ↔
    (r.base ≤ address.toNat ∧ address.toNat < r.base + r.span) ∨
      (r.slave = .sdram ∧ ∀ w ∈ windows, ¬ w.Contains address) := by
  have hw := window_of_systemH r h
  rw [route, route_eq_iff aligned_windows apart_windows, eq_comm (a := Slave.sdram)]
  apply or_congr_left
  constructor
  · rintro ⟨v, hv, htarget, hcontains⟩
    rw [window_unique v hv _ hw htarget] at hcontains
    exact hcontains
  · exact fun hcontains => ⟨_, hw, rfl, hcontains⟩

-- the data register of the digits, and the address behind their span
theorem hexs_routed : route 0x1003050 = .hexs ∧ route 0x1003060 ≠ .hexs := by
  have hrouted (address : BitVec 25) := routed_iff_in_system_h address (r := ⟨.hexs, 0x1003050, 16⟩) (by decide)
  rw [ne_eq, hrouted, hrouted]
  decide

end AddrRouter

end Montre.Hardware
