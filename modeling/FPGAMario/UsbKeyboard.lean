import FPGAMario.UsbDriver

/-! `main.c`: setting up a USB keyboard and polling it, in blocks between the labels and loop
heads of the source. -/

namespace FPGAMario

open Interact

namespace Driver

abbrev host1IrqEnReg : BitVec 16 := 0xC08C#16
abbrev usb1CtlReg : BitVec 16 := 0xC08A#16
abbrev hpiIrqRoutingReg : BitVec 16 := 0x0142#16
abbrev husbPEOT : BitVec 16 := 0x01B4#16
abbrev husbSie1InitInt : BitVec 16 := 0x0072#16
abbrev husbResetInt : BitVec 16 := 0x0074#16
abbrev commExecInt : BitVec 16 := 0xCE01#16
abbrev commAck : BitVec 16 := 0x0FED#16
abbrev commIntNum : BitVec 16 := 0x01C2#16
abbrev sofeop1ToCpuEn : BitVec 16 := 0x0400#16
abbrev resume1ToHpiEn : BitVec 16 := 0x0040#16
abbrev aChgIrqEn : BitVec 16 := 0x0010#16
abbrev sofEopIrqEn : BitVec 16 := 0x0200#16
abbrev aDpStat : BitVec 16 := 0x2000#16
abbrev aDmStat : BitVec 16 := 0x1000#16

def commR (i : Nat) : BitVec 16 := 0x01C4#16 + 2#16 * BitVec.ofNat 16 i

abbrev noDevice : BitVec 16 := aDpStat ||| aDmStat

inductive Stage
  | setAddress | getDeviceDesc1 | getDeviceDesc2 | getConfigDesc1 | getConfigDesc2 | setConfig
  | classRequest | getHidDesc | getReportDesc
  deriving DecidableEq, Repr

namespace Stage

def list : Stage → List (BitVec 16)
  | setAddress => setAddressList
  | getDeviceDesc1 => getDeviceDesc1List
  | getDeviceDesc2 => getDeviceDesc2List
  | getConfigDesc1 => getConfigDesc1List
  | getConfigDesc2 => getConfigDesc2List
  | setConfig => setConfigList
  | classRequest => classRequestList
  | getHidDesc => getHidDescList
  | getReportDesc => getReportDescList

def send : Stage → Driver Unit
  | setAddress => usbSetAddress
  | getDeviceDesc1 => usbGetDeviceDesc1
  | getDeviceDesc2 => usbGetDeviceDesc2
  | getConfigDesc1 => usbGetConfigDesc1
  | getConfigDesc2 => usbGetConfigDesc2
  | setConfig => usbSetConfig
  | classRequest => usbClassRequest
  | getHidDesc => usbGetHidDesc
  | getReportDesc => usbGetReportDesc

theorem send_eq (stage : Stage) : stage.send = sendList stage.list := by cases stage <;> rfl

def next : Stage → Option Stage
  | setAddress => some getDeviceDesc1
  | getDeviceDesc1 => some getDeviceDesc2
  | getDeviceDesc2 => some getConfigDesc1
  | getConfigDesc1 => some getConfigDesc2
  | getConfigDesc2 => some setConfig
  | setConfig => some classRequest
  | classRequest => some getHidDesc
  | getHidDesc => some getReportDesc
  | getReportDesc => none

end Stage

/-- Labels and loop heads of `main`, and of the loops of the functions it calls. -/
inductive Place
  | usbHotPlug
  | statusLoop
  | noDeviceLoop
  | send (stage : Stage)
  | messageLoop (stage : Stage)
  | tdListLoop (stage : Stage)
  | retryLoop
  | poll
  | pollMessageLoop
  | pollTdListLoop
  | removedLoop
  deriving DecidableEq, Repr

/-- A place in the program, with the variables of `main` that are read there. -/
structure Label where
  place : Place
  toggle : BitVec 8
  dataSize : BitVec 8
  deriving DecidableEq, Repr

/-- `COMM_INT_NUM` and `COMM_R0` to `COMM_R13` for one command of the chip. -/
def clearCommR : List Nat → Driver Unit
  | [] => pure ()
  | i :: rest => do
      usbWrite (commR i) 0x0000#16
      clearCommR rest

/-- Steps 1a and 1b up to the mailbox. -/
def initSie1 : Driver Unit := do
  usbWrite hpiSie1MsgAdr 0#16
  usbWrite host1StatReg 0xFFFF#16
  usbWrite husbPEOT 600#16
  usbWrite hpiIrqRoutingReg (sofeop1ToCpuEn ||| resume1ToHpiEn)
  usbWrite host1IrqEnReg (aChgIrqEn ||| sofEopIrqEn)
  clearCommR (List.range 14)
  usbWrite commIntNum husbSie1InitInt
  ioWrite hpiMailbox commExecInt

/-- Step 2 up to the mailbox. -/
def resetHusb : Driver Unit := do
  usbWrite commIntNum husbResetInt
  usbWrite (commR 0) 0x003C#16
  clearCommR ((List.range 14).drop 1)
  ioWrite hpiMailbox commExecInt

/-- The loops over `hot_plug_count`: up to `count` looks for a device. -/
def findDevice : Nat → BitVec 16 → Driver (BitVec 16)
  | 0, usbCtlVal => pure usbCtlVal
  | count + 1, _ => do
      let usbCtlVal ← usbRead usb1CtlReg
      if usbCtlVal &&& noDevice ≠ 0#16 then pure usbCtlVal else findDevice count usbCtlVal

def lookForDevice (count : Nat) : Driver Bool := do
  let usbCtlVal ← usbRead usb1CtlReg
  if usbCtlVal &&& noDevice ≠ 0#16 then pure true
  else do
    let usbCtlVal ← findDevice count usbCtlVal
    pure (decide (usbCtlVal &&& noDevice ≠ 0#16))

def readWord (address : BitVec 16) : Driver (BitVec 16) := do
  ioWrite hpiAddr address
  ioRead hpiData

/-- `UsbGetRetryCnt` up to its loop; is the loop entered? -/
def enterRetryCnt : Driver Bool := do
  let _ ← ioRead hpiStatus
  let message ← usbRead hpiSie1MsgAdr
  if message = husbTDListDone then do
    usbWrite hpiSie1MsgAdr 0#16
    pure true
  else pure false

def readRetryCnt : Driver Unit := do
  let _ ← readWord 0x0508#16
  pure ()

def endpointDescriptor : List (BitVec 16) :=
  [0x073F#16, 0x8105#16, 0x0003#16, 0x0008#16, 0xAC0A#16]

def getDeviceInfo : Driver (BitVec 8) := do
  let _ ← readWord 0x056C#16
  ioWrite hpiAddr 0x0576#16
  writeWords endpointDescriptor
  usbWrite husbSie1PCurrentTDPtr 0x0576#16
  let dataSize ← readWord 0x057C#16
  pure (lowByte dataSize)

/-- The descriptor of the poll for the next report; `DATA0` and `DATA1` take turns. -/
def pollList (toggle dataSize : BitVec 8) : List (BitVec 16) :=
  [0x051C#16, 0x000F#16 &&& dataSize.setWidth 16, 0x0291#16,
    if toggle % 2#8 ≠ 0#8 then 0x0001#16 else 0x0041#16, 0x0013#16, 0x0000#16]

def sendPoll (toggle dataSize : BitVec 8) : Driver Unit := sendList (pollList toggle dataSize)

def readMessageFlag : Driver Bool := do
  let status ← ioRead hpiStatus
  pure (decide (status &&& hpiStatusSie1msgFlag ≠ 0#16))

/-- One round of the loop of `UsbWaitTDListDone`. -/
def readTdListDone : Driver Bool := do
  let usbCtlVal ← usbRead hpiSie1MsgAdr
  usbWrite hpiSie1MsgAdr 0#16
  pure (decide (usbCtlVal = husbTDListDone))

def readControlByte : Driver (BitVec 16) := do
  let _ ← readWord 0x0506#16
  readWord 0x0508#16

/-- The mailbox has to hold the acknowledgement; else it is read again, for the message. -/
def readAck : Driver Bool := do
  let mailbox ← ioRead hpiMailbox
  if mailbox = commAck then pure true
  else do
    let _ ← ioRead hpiMailbox
    pure false

def main (label : Label) : Driver Label :=
  let go (place : Place) : Label := { label with place }
  match label.place with
  | .usbHotPlug => do
      usbSoftReset
      initSie1
      pure (go .statusLoop)
  | .statusLoop => do
      let status ← ioRead hpiStatus
      if status &&& 0xFFFF#16 = 0#16 then pure (go .statusLoop)
      else do
        let acknowledged ← readAck
        if acknowledged = false then pure (go .usbHotPlug)
        else do
          resetHusb
          let acknowledged ← readAck
          if acknowledged = false then pure (go .usbHotPlug)
          else do
            let found ← lookForDevice 5
            pure (go (if found then .send .setAddress else .noDeviceLoop))
  | .noDeviceLoop => do
      let usbCtlVal ← usbRead usb1CtlReg
      pure (go (if usbCtlVal &&& noDevice ≠ 0#16 then .usbHotPlug else .noDeviceLoop))
  | .send stage => do
      stage.send
      pure (go (.messageLoop stage))
  | .messageLoop stage => do
      let flag ← readMessageFlag
      if flag then pure (go (.tdListLoop stage))
      else do
        stage.send
        pure (go (.messageLoop stage))
  | .tdListLoop stage => do
      let done ← readTdListDone
      if done = false then pure (go (.tdListLoop stage))
      else do
        let usbCtlVal ← readControlByte
        if usbCtlVal ≠ 0x03#16 then do
          let waits ← enterRetryCnt
          if waits then pure (go .retryLoop)
          else do
            readRetryCnt
            pure (go .usbHotPlug)
        else
          match stage with
          | .getConfigDesc2 => do
              let dataSize ← getDeviceInfo
              pure { label with place := .send .setConfig, dataSize }
          | .getReportDesc => pure (go .poll)
          | .setAddress => pure (go (.send .getDeviceDesc1))
          | .getDeviceDesc1 => pure (go (.send .getDeviceDesc2))
          | .getDeviceDesc2 => pure (go (.send .getConfigDesc1))
          | .getConfigDesc1 => pure (go (.send .getConfigDesc2))
          | .setConfig => pure (go (.send .classRequest))
          | .classRequest => pure (go (.send .getHidDesc))
          | .getHidDesc => pure (go (.send .getReportDesc))
  | .retryLoop => do
      let flag ← readMessageFlag
      if flag then do
        readRetryCnt
        pure (go .usbHotPlug)
      else pure (go .retryLoop)
  | .poll => do
      let toggle := label.toggle + 1#8
      sendPoll toggle label.dataSize
      pure { label with place := .pollMessageLoop, toggle }
  | .pollMessageLoop => do
      let flag ← readMessageFlag
      if flag then pure (go .pollTdListLoop)
      else do
        sendPoll label.toggle label.dataSize
        pure (go .pollMessageLoop)
  | .pollTdListLoop => do
      let done ← readTdListDone
      if done = false then pure (go .pollTdListLoop)
      else do
        let keycode ← usbRead 0x051E#16
        Program.perform (Request.keycode (lowByte keycode))
        let found ← lookForDevice 7
        pure (go (if found then .poll else .removedLoop))
  | .removedLoop => do
      let _ ← usbRead usb1CtlReg
      let _ ← usbRead usb1CtlReg
      let usbCtlVal ← usbRead usb1CtlReg
      pure (go (if usbCtlVal &&& noDevice ≠ 0#16 then .usbHotPlug else .removedLoop))

def start : Label := ⟨.usbHotPlug, 0#8, 0#8⟩

end Driver

end FPGAMario
