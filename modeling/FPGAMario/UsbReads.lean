import FPGAMario.HpiBus

/-! What `IO_read` returns: the word that was on the bus two cycles before the load, and whether the
chip was selected for reading then. -/

namespace FPGAMario

open Hdl

theorem Nios.step_readdata (calls : Nat → Call) (access : Bool) (dataIn : BitVec 16) (s : Nios) :
    (s.step calls access dataIn).readdata = dataIn := by
  cases access with
  | false => rfl
  | true =>
      simp only [step, if_true]
      split <;> rfl

namespace Usb

section Read

variable {calls : Nat → Call} {start : Usb} {inputs : Nat → UsbInput} {n i : Nat}

theorem inside_before {pc : Nat} (index : (run calls start inputs (n + 1)).nios.index = i + 1)
    (inside : pc + 1 ≤ (run calls start inputs (n + 1)).nios.pc) :
    (run calls start inputs n).nios.index = i + 1 ∧ pc ≤ (run calls start inputs n).nios.pc ∧
      (run calls start inputs n).nios.pc ≤ (run calls start inputs (n + 1)).nios.pc := by
  have back := (run_advance calls start inputs n).inside_previous (by omega)
  exact ⟨back.1.trans index, by omega, back.2.1⟩

theorem temp_of_load (index : (run calls start inputs (n + 3)).nios.index = i + 1)
    (pc : (run calls start inputs (n + 3)).nios.pc = 4) (reads : (calls i).writes = false)
    (loads : (inputs (n + 3)).access = true) :
    (run calls start inputs (n + 4)).nios.temp =
      (run calls start inputs (n + 2)).bridge.fromSwDataIn := by
  have fetched : (program calls (run calls start inputs (n + 3)).nios.index)[
      (run calls start inputs (n + 3)).nios.pc]? = some .loadData := by
    rw [index, pc, program]
    cases call : calls i with
    | write address data =>
        rw [call] at reads
        exact Bool.noConfusion reads
    | read address => rfl
  have sampled : (run calls start inputs (n + 3)).nios.readdata =
      (run calls start inputs (n + 2)).bridge.fromSwDataIn := Nios.step_readdata ..
  have state : (run calls start inputs (n + 4)).nios = (run calls start inputs (n + 3)).nios.step
      calls (inputs (n + 3)).access (run calls start inputs (n + 3)).bridge.fromSwDataIn := rfl
  rw [state, Nios.step, loads, if_pos rfl, fetched, ← sampled]
  simp

theorem fromSwDataIn_of_released (floats : (run calls start inputs n).nios.ports.w = true) :
    (run calls start inputs (n + 1)).bridge.fromSwDataIn =
      if (inputs n).reset then 0#16 else (inputs n).chipData := by
  have bridge : (run calls start inputs (n + 1)).bridge = HpiIoIntf.step (inputs n).reset
      (run calls start inputs n).nios.ports
      ((run calls start inputs n).otgData.getD (inputs n).chipData) := rfl
  have free : (run calls start inputs n).otgData = none := by
    rw [otgData, HpiIoIntf.otgData, floats]
    rfl
  rw [bridge, free, HpiIoIntf.step]
  split <;> rfl

end Read

/-- What `IO_read` returns, for any pace of the processor and any Resets of the game: the word that was
on the bus two cycles before its load, or zero if a Reset hit that cycle. It is the chip's word for
this read only if the strobe was low then, so only if the store that lowers it took effect at
least four cycles before the load, with no Reset in between. -/
theorem read_value (calls : Nat → Call) (start : Usb) (fresh : start.nios.AtPowerUp)
    (inputs : Nat → UsbInput) (n i : Nat)
    (index : (run calls start inputs (n + 3)).nios.index = i + 1)
    (pc : (run calls start inputs (n + 3)).nios.pc = 4) (reads : (calls i).writes = false)
    (loads : (inputs (n + 3)).access = true) :
    (run calls start inputs (n + 4)).nios.temp =
        (if (inputs (n + 1)).reset then 0#16 else (inputs (n + 1)).chipData) ∧
      ((run calls start inputs (n + 1)).bridge.otgRdN = false ↔
        (inputs n).reset = false ∧ (run calls start inputs n).nios.pc = 4) ∧
      ((run calls start inputs (n + 1)).bridge.otgRdN = false →
        (run calls start inputs (n + 1)).bridge.otgCsN = false ∧
          (run calls start inputs (n + 1)).bridge.otgAddr = (calls i).port ∧
          (run calls start inputs (n + 1)).otgData = none) := by
  -- The four accesses before the load take a cycle each at least.
  rcases inside_before index pc.ge with ⟨index2, low2, high2⟩
  rcases inside_before index2 low2 with ⟨index1, low1, high1⟩
  rcases inside_before index1 low1 with ⟨index0, low0, high0⟩
  have phase1 := (run_phase fresh calls inputs (n + 1)).call index1
  have phase0 := (run_phase fresh calls inputs n).call index0
  have floats : (run calls start inputs (n + 1)).nios.ports.w = true := by
    rw [phase1.w, reads]
    rfl
  have strobe : (run calls start inputs (n + 1)).bridge.otgRdN = false ↔
      (inputs n).reset = false ∧ (run calls start inputs n).nios.pc = 4 := by
    have upTo : (run calls start inputs n).nios.pc ≤ 4 :=
      (high0.trans high1).trans (high2.trans pc.le)
    rw [run_otgRdN, Bool.or_eq_false_iff, phase0.r_low_iff]
    constructor
    · rintro ⟨running, _, inside⟩
      exact ⟨running, Nat.le_antisymm upTo inside.1⟩
    · rintro ⟨running, four⟩
      exact ⟨running, reads, four.ge, by omega⟩
  refine ⟨?_, strobe, ?_⟩
  · rw [temp_of_load index pc reads loads, fromSwDataIn_of_released floats]
  · intro low
    rcases strobe.mp low with ⟨running, four⟩
    refine ⟨?_, ?_, ?_⟩
    · rw [run_otgCsN, running, phase0.cs, four]
      rfl
    · rw [run_otgAddr calls start inputs n running, phase0.address (by omega)]
    · rw [otgData, HpiIoIntf.otgData, floats]
      rfl

def reading : Nat → Call := fun _ => .read 3#8

def slow (k : Nat) : UsbInput := ⟨false, decide (k % 5 = 0), 0x0010#16⟩

theorem read_value_slow :
    (run reading cleared slow (67 + 4)).nios.temp =
        (if (slow (67 + 1)).reset then 0#16 else (slow (67 + 1)).chipData) ∧
      ((run reading cleared slow (67 + 1)).bridge.otgRdN = false ↔
        (slow 67).reset = false ∧ (run reading cleared slow 67).nios.pc = 4) ∧
      ((run reading cleared slow (67 + 1)).bridge.otgRdN = false →
        (run reading cleared slow (67 + 1)).bridge.otgCsN = false ∧
          (run reading cleared slow (67 + 1)).bridge.otgAddr = (reading 0).port ∧
          (run reading cleared slow (67 + 1)).otgData = none) :=
  read_value reading cleared ⟨rfl, rfl⟩ slow 67 0 (by decide +kernel) (by decide +kernel) rfl rfl

end Usb

end FPGAMario
