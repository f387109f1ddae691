import FPGAMario.IoHandler

/-! `hpi_io_intf`: the bridge between the ports of the NIOS system and the pins of the EZ-OTG
chip, and the two of them clocked together. -/

namespace FPGAMario

structure HpiIoIntf where
  fromSwDataOutBuffer : BitVec 16
  fromSwDataIn : BitVec 16
  otgAddr : BitVec 2
  otgRdN : Bool
  otgWrN : Bool
  otgCsN : Bool
  otgRstN : Bool
  deriving DecidableEq, Repr

namespace HpiIoIntf

/-- The registers after an edge of `Clk`, all of them loaded at every edge; `otgData` is the
value on the bus. -/
def step (reset : Bool) (fromSw : OtgHpi) (otgData : BitVec 16) : HpiIoIntf :=
  if reset then
    { fromSwDataOutBuffer := 0x0000#16
      fromSwDataIn := 0x0000#16
      otgAddr := 0b00#2
      otgRdN := true
      otgWrN := true
      otgCsN := true
      otgRstN := true }
  else
    { fromSwDataOutBuffer := fromSw.data
      fromSwDataIn := otgData
      otgAddr := fromSw.address
      otgRdN := fromSw.r
      otgWrN := fromSw.w
      otgCsN := fromSw.cs
      otgRstN := fromSw.reset }

/-- What the FPGA puts on `OTG_DATA`; `none` is high impedance. -/
def otgData (fromSw : OtgHpi) : Option (BitVec 16) :=
  if !fromSw.w then some fromSw.data else none

section StepFields

variable (reset : Bool) (fromSw : OtgHpi) (otgData : BitVec 16)

theorem step_otgWrN : (step reset fromSw otgData).otgWrN = (reset || fromSw.w) := by
  cases reset <;> rfl

theorem step_otgRdN : (step reset fromSw otgData).otgRdN = (reset || fromSw.r) := by
  cases reset <;> rfl

theorem step_otgCsN : (step reset fromSw otgData).otgCsN = (reset || fromSw.cs) := by
  cases reset <;> rfl

theorem step_otgAddr : (step false fromSw otgData).otgAddr = fromSw.address := rfl

end StepFields

end HpiIoIntf

structure Usb where
  nios : Nios
  bridge : HpiIoIntf

/-- Inputs of one cycle: `Reset_h`, whether the next access of the software takes effect, and
what the chip or the floating bus shows when the FPGA does not drive `OTG_DATA`. -/
structure UsbInput where
  reset : Bool
  access : Bool
  chipData : BitVec 16

namespace Usb

def otgData (s : Usb) : Option (BitVec 16) := HpiIoIntf.otgData s.nios.ports

def step (calls : Nat → Call) (input : UsbInput) (s : Usb) : Usb where
  nios := s.nios.step calls input.access s.bridge.fromSwDataIn
  bridge := .step input.reset s.nios.ports (s.otgData.getD input.chipData)

def current (calls : Nat → Call) (s : Usb) : Option Call := s.nios.current calls

abbrev run (calls : Nat → Call) (start : Usb) (inputs : Nat → UsbInput) : Nat → Usb :=
  Hdl.run (step calls) start inputs

section Run

variable (calls : Nat → Call) (start : Usb) (inputs : Nat → UsbInput) (n : Nat)

theorem run_otgWrN : (run calls start inputs (n + 1)).bridge.otgWrN =
    ((inputs n).reset || (run calls start inputs n).nios.ports.w) :=
  HpiIoIntf.step_otgWrN ..

theorem run_otgRdN : (run calls start inputs (n + 1)).bridge.otgRdN =
    ((inputs n).reset || (run calls start inputs n).nios.ports.r) :=
  HpiIoIntf.step_otgRdN ..

theorem run_otgCsN : (run calls start inputs (n + 1)).bridge.otgCsN =
    ((inputs n).reset || (run calls start inputs n).nios.ports.cs) :=
  HpiIoIntf.step_otgCsN ..

theorem run_otgAddr (running : (inputs n).reset = false) :
    (run calls start inputs (n + 1)).bridge.otgAddr =
      (run calls start inputs n).nios.ports.address := by
  change (HpiIoIntf.step (inputs n).reset _ _).otgAddr = _
  rw [running]
  apply HpiIoIntf.step_otgAddr

theorem run_advance : Nios.Advance calls (run calls start inputs n).nios
    (run calls start inputs (n + 1)).nios :=
  Nios.step_advance ..

end Run

end Usb

end FPGAMario
