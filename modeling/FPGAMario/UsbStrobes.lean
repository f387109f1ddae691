import FPGAMario.HpiBus

/-! The strobes on the pins of the EZ-OTG chip over a whole run, beside the calls of the software. -/

namespace FPGAMario

open Hdl

inductive Strobe
  | write (address : BitVec 2) (data : BitVec 16)
  | read (address : BitVec 2)
  deriving DecidableEq, Repr

def Call.strobe : Call → Strobe
  | .write address data => .write (address.setWidth 2) data
  | .read address => .read (address.setWidth 2)

/-- Calls whose strobe the software has raised again. -/
def Nios.raised (s : Nios) : Nat :=
  match s.index with
  | 0 => 0
  | i + 1 => if 6 ≤ s.pc then i + 1 else i

theorem Nios.raised_init {s : Nios} (index : s.index = 0) : s.raised = 0 := by
  rw [raised, index]

theorem Nios.raised_call {s : Nios} {i : Nat} (index : s.index = i + 1) :
    s.raised = if 6 ≤ s.pc then i + 1 else i := by
  rw [raised, index]

namespace Usb

section Pins

variable (states : Nat → Usb)

/-- What the FPGA has last put on the bus; nothing else drives it before a write strobe rises. -/
def lastDriven : Nat → BitVec 16
  | 0 => (states 0).otgData.getD 0#16
  | n + 1 => (states (n + 1)).otgData.getD (lastDriven n)

/-- The strobe that is low in cycle `n`, with the chip selected, and high in the next one. -/
def ending (n : Nat) : Option Strobe :=
  if (states n).bridge.otgCsN then none
  else if !(states n).bridge.otgWrN && (states (n + 1)).bridge.otgWrN then
    some (.write (states n).bridge.otgAddr (lastDriven states n))
  else if !(states n).bridge.otgRdN && (states (n + 1)).bridge.otgRdN then
    some (.read (states n).bridge.otgAddr)
  else none

def ended (n : Nat) : List Strobe :=
  if (states n).nios.index = 0 then [] else (ending states n).toList

def strobes : Nat → List Strobe
  | 0 => []
  | n + 1 => strobes n ++ ended states n

end Pins

section Past

variable {first second : Nat → Usb}

theorem lastDriven_congr {n : Nat} (same : ∀ k, k ≤ n → first k = second k) :
    lastDriven first n = lastDriven second n := by
  induction n with
  | zero => rw [lastDriven, lastDriven, same 0 (Nat.le_refl 0)]
  | succ n ih =>
      rw [lastDriven, lastDriven, same (n + 1) (Nat.le_refl _),
        ih fun k past => same k (Nat.le_succ_of_le past)]

theorem strobes_congr {n : Nat} (same : ∀ k, k ≤ n → first k = second k) :
    strobes first n = strobes second n := by
  induction n with
  | zero => rfl
  | succ n ih =>
      have past (k : Nat) (earlier : k ≤ n) : first k = second k :=
        same k (Nat.le_succ_of_le earlier)
      rw [strobes, strobes, ih past, ended, ended, ending, ending, same (n + 1) (Nat.le_refl _),
        past n (Nat.le_refl n), lastDriven_congr past]

end Past

section Ending

variable {calls : Nat → Call} {start : Usb} {inputs : Nat → UsbInput} {n : Nat}

theorem otgWrN_follows (unreset : (inputs n).reset = false) :
    (run calls start inputs (n + 1)).bridge.otgWrN = (run calls start inputs n).nios.ports.w := by
  rw [run_otgWrN, unreset, Bool.false_or]

theorem otgRdN_follows (unreset : (inputs n).reset = false) :
    (run calls start inputs (n + 1)).bridge.otgRdN = (run calls start inputs n).nios.ports.r := by
  rw [run_otgRdN, unreset, Bool.false_or]

theorem otgCsN_follows (unreset : (inputs n).reset = false) :
    (run calls start inputs (n + 1)).bridge.otgCsN = (run calls start inputs n).nios.ports.cs := by
  rw [run_otgCsN, unreset, Bool.false_or]

theorem lastDriven_written {address : BitVec 8} {data : BitVec 16}
    (phase : CallPhase (.write address data) 5 (run calls start inputs n).nios.ports)
    (floats : (run calls start inputs (n + 1)).nios.ports.w = true) :
    lastDriven (run calls start inputs) (n + 1) = data := by
  have low : (run calls start inputs n).nios.ports.w = false :=
    phase.w_low_iff.mpr ⟨rfl, by decide, by decide⟩
  have driven : (run calls start inputs n).otgData = some data := by
    rw [otgData, HpiIoIntf.otgData, low, phase.data address data rfl (by decide)]
    rfl
  have free : (run calls start inputs (n + 1)).otgData = none := by
    rw [otgData, HpiIoIntf.otgData, floats]
    rfl
  rw [lastDriven, free, Option.getD_none]
  cases n with
  | zero =>
      rw [lastDriven, driven]
      rfl
  | succ n =>
      rw [lastDriven, driven]
      rfl

variable (unreset : (inputs n).reset = false) (after : (inputs (n + 1)).reset = false)

include unreset after

theorem ending_none
    (w : (run calls start inputs n).nios.ports.w = false →
      (run calls start inputs (n + 1)).nios.ports.w = false)
    (r : (run calls start inputs n).nios.ports.r = false →
      (run calls start inputs (n + 1)).nios.ports.r = false) :
    ending (run calls start inputs) (n + 1) = none := by
  rw [ending, otgWrN_follows unreset, otgWrN_follows after, otgRdN_follows unreset,
    otgRdN_follows after]
  cases writing : (run calls start inputs n).nios.ports.w with
  | false =>
      rw [w writing]
      cases reading : (run calls start inputs n).nios.ports.r with
      | false =>
          rw [r reading]
          simp
      | true => simp
  | true =>
      cases reading : (run calls start inputs n).nios.ports.r with
      | false =>
          rw [r reading]
          simp
      | true => simp

theorem ending_call {call : Call} (before : CallPhase call 5 (run calls start inputs n).nios.ports)
    (later : CallPhase call 6 (run calls start inputs (n + 1)).nios.ports) :
    ending (run calls start inputs) (n + 1) = some call.strobe := by
  have selected : (run calls start inputs n).nios.ports.cs = false := before.cs
  have address := before.address (by decide)
  have w := before.w
  have r := before.r
  have raised := later.w
  have raisedRead := later.r
  rw [ending, otgWrN_follows unreset, otgWrN_follows after, otgRdN_follows unreset,
    otgRdN_follows after, otgCsN_follows unreset, run_otgAddr calls start inputs n unreset,
    selected, address]
  cases call with
  | write place data =>
      have driven := lastDriven_written before (by simpa using raised)
      simp [w, raised, driven, Call.writes, Call.port, Call.strobe]
  | read place => simp [w, r, raisedRead, Call.writes, Call.port, Call.strobe]

theorem ended_none
    (w : (run calls start inputs n).nios.ports.w = false →
      (run calls start inputs (n + 1)).nios.ports.w = false)
    (r : (run calls start inputs n).nios.ports.r = false →
      (run calls start inputs (n + 1)).nios.ports.r = false) :
    ended (run calls start inputs) (n + 1) = [] := by
  rw [ended, ending_none unreset after w r, Option.toList_none, ite_self]

theorem ended_call (fresh : start.nios.AtPowerUp) {i : Nat}
    (part : (run calls start inputs n).nios.index = i + 1)
    (same : (run calls start inputs (n + 1)).nios.index = i + 1)
    (pc : (run calls start inputs (n + 1)).nios.pc = (run calls start inputs n).nios.pc + 1) :
    (run calls start inputs (n + 1)).nios.raised = (run calls start inputs n).nios.raised ∧
        ended (run calls start inputs) (n + 1) = [] ∨
      (run calls start inputs (n + 1)).nios.raised = (run calls start inputs n).nios.raised + 1 ∧
        ended (run calls start inputs) (n + 1) =
          [(calls (run calls start inputs n).nios.raised).strobe] := by
  have before := (run_phase fresh calls inputs n).call part
  have later := (run_phase fresh calls inputs (n + 1)).call same
  rw [pc] at later
  rw [Nios.raised_call same, Nios.raised_call part, pc]
  by_cases sixth : (run calls start inputs n).nios.pc = 5
  · rw [sixth] at before later
    rw [sixth, ended, same, if_neg (Nat.succ_ne_zero i), ending_call unreset after before later]
    exact Or.inr ⟨rfl, rfl⟩
  · left
    constructor
    · exact if_congr (by omega) rfl rfl
    · apply ended_none unreset after
      · rw [before.w_low_iff, later.w_low_iff]
        rintro ⟨writes, inside⟩
        exact ⟨writes, by omega⟩
      · rw [before.r_low_iff, later.r_low_iff]
        rintro ⟨reads, inside⟩
        exact ⟨reads, by omega⟩

theorem ended_last (fresh : start.nios.AtPowerUp)
    (last : (run calls start inputs n).nios.pc + 1 =
      (program calls (run calls start inputs n).nios.index).length)
    (index : (run calls start inputs (n + 1)).nios.index = (run calls start inputs n).nios.index + 1)
    (pc : (run calls start inputs (n + 1)).nios.pc = 0) :
    (run calls start inputs (n + 1)).nios.raised = (run calls start inputs n).nios.raised ∧
      ended (run calls start inputs) (n + 1) = [] := by
  have phase := run_phase fresh calls inputs n
  cases part : (run calls start inputs n).nios.index with
  | zero =>
      have init := phase.init part
      rw [part] at last index
      change _ + 1 = 10 at last
      constructor
      · rw [Nios.raised_call index, Nios.raised_init part, pc]
        rfl
      · apply ended_none unreset after
        · rw [init.w (by omega)]
          exact fun low => Bool.noConfusion low
        · rw [init.r (by omega)]
          exact fun low => Bool.noConfusion low
  | succ i =>
      have before := phase.call part
      rw [part, program, Call.accesses_length] at last
      rw [part] at index
      have six : (run calls start inputs n).nios.pc = 6 := by omega
      constructor
      · rw [Nios.raised_call index, Nios.raised_call part, pc, six]
        rfl
      · apply ended_none unreset after
        · rw [before.w_low_iff]
          omega
        · rw [before.r_low_iff]
          omega

theorem ended_advance (fresh : start.nios.AtPowerUp) :
    (run calls start inputs (n + 1)).nios.raised = (run calls start inputs n).nios.raised ∧
        ended (run calls start inputs) (n + 1) = [] ∨
      (run calls start inputs (n + 1)).nios.raised = (run calls start inputs n).nios.raised + 1 ∧
        ended (run calls start inputs) (n + 1) =
          [(calls (run calls start inputs n).nios.raised).strobe] := by
  cases run_advance calls start inputs n with
  | waits index pc ports =>
      left
      constructor
      · rw [Nios.raised, index, pc]
        rfl
      · apply ended_none unreset after
        · rw [ports]
          exact id
        · rw [ports]
          exact id
  | accesses next fetched more index pc ports =>
      cases part : (run calls start inputs n).nios.index with
      | zero =>
          have same := index.trans part
          left
          rw [Nios.raised_init same, Nios.raised_init part, ended, if_pos same]
          exact ⟨rfl, rfl⟩
      | succ i => exact ended_call unreset after fresh part (index.trans part) pc
  | ends next fetched last index pc ports =>
      left
      exact ended_last unreset after fresh last index pc

end Ending

/-- As long as there is no Reset the strobes that the chip sees are the calls of the software, in
order and each one once, a write with the argument `Data`, at whatever pace the accesses come. -/
theorem strobes_in_order (calls : Nat → Call) {start : Usb} (fresh : start.nios.AtPowerUp)
    {inputs : Nat → UsbInput} {n : Nat} (unreset : ∀ k, k ≤ n → (inputs k).reset = false) :
    strobes (run calls start inputs) (n + 1) =
      (List.range (run calls start inputs n).nios.raised).map fun i => (calls i).strobe := by
  induction n with
  | zero =>
      rw [Nios.raised_init (show (run calls start inputs 0).nios.index = 0 from fresh.1)]
      exact if_pos fresh.1
  | succ n ih =>
      rw [strobes, ih fun k bound => unreset k (Nat.le_succ_of_le bound)]
      rcases ended_advance (unreset n (Nat.le_succ n)) (unreset (n + 1) (Nat.le_refl _)) fresh with
        ⟨raised, ended⟩ | ⟨raised, ended⟩
      · rw [raised, ended, List.append_nil]
      · rw [raised, ended, List.range_succ, List.map_append]
        rfl

end Usb

end FPGAMario
