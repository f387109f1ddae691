import FPGAMario.Interact.Program
import FPGAMario.UsbMessages

/-! The transfer descriptor lists of `usb.c`, and the functions that send them to the EZ-OTG chip,
as programs over the calls of `io_handler.c`. -/

namespace FPGAMario

open Interact

/-- What the software does to the outside: a call of `io_handler.c`, or a store to
`keycode_base`. -/
inductive Request
  | hpi (call : Call)
  | keycode (value : BitVec 8)
  deriving DecidableEq, Repr

@[reducible] def Reply : Request → Type
  | .hpi (.read _) => BitVec 16
  | .hpi (.write _ _) => Unit
  | .keycode _ => Unit

abbrev Driver := Program Request Reply

def silent : Answer Request Reply
  | .hpi (.read _) => 0#16
  | .hpi (.write _ _) => ()
  | .keycode _ => ()

namespace Driver

abbrev hpiMailbox : BitVec 8 := 1#8
abbrev hpiStatus : BitVec 8 := 3#8
abbrev hpiStatusSie1msgFlag : BitVec 16 := 0x0010#16
abbrev hpiSie2MsgAdr : BitVec 16 := 0x0148#16
abbrev host1StatReg : BitVec 16 := 0xC090#16
abbrev host2StatReg : BitVec 16 := 0xC0B0#16
abbrev husbSie1PCurrentTDPtr : BitVec 16 := 0x01B0#16
abbrev commReset : BitVec 16 := 0xFA50#16

abbrev lowByte (word : BitVec 16) : BitVec 8 := (word &&& 0xFF#16).setWidth 8

def ioWrite (address : BitVec 8) (data : BitVec 16) : Driver Unit :=
  Program.perform (Request.hpi (.write address data))

def ioRead (address : BitVec 8) : Driver (BitVec 16) :=
  Program.perform (Request.hpi (.read address))

def usbWrite (address data : BitVec 16) : Driver Unit := do
  ioWrite hpiAddr address
  ioWrite hpiData data

def usbRead (address : BitVec 16) : Driver (BitVec 16) := do
  ioWrite hpiAddr address
  ioRead hpiData

/-- The part of `UsbSoftReset` after the command. -/
def clearUpInterrupt : Driver Unit := do
  let _ ← ioRead hpiMailbox
  let _ ← ioRead hpiStatus
  let _ ← usbRead hpiSie1MsgAdr
  usbWrite hpiSie1MsgAdr 0#16
  let _ ← usbRead hpiSie2MsgAdr
  usbWrite hpiSie2MsgAdr 0#16
  usbWrite host1StatReg 0xFFFF#16
  usbWrite host2StatReg 0xFFFF#16

def usbSoftReset : Driver Unit := do
  ioWrite hpiMailbox commReset
  clearUpInterrupt

def writeWords : List (BitVec 16) → Driver Unit
  | [] => pure ()
  | word :: words => do
      ioWrite hpiData word
      writeWords words

abbrev listAddress : BitVec 16 := 0x0500#16

def sendList (words : List (BitVec 16)) : Driver Unit := do
  ioWrite hpiAddr listAddress
  writeWords words
  usbWrite husbSie1PCurrentTDPtr listAddress

def setAddressList : List (BitVec 16) :=
  [0x050C#16, 0x0008#16, 0x00D0#16, 0x0001#16, 0x0013#16, 0x0514#16,
    0x0500#16, 0x0002#16, 0x0000#16, 0x0000#16,
    0x0000#16, 0x0000#16, 0x0090#16, 0x0041#16, 0x0013#16, 0x0000#16]

def usbSetAddress : Driver Unit := sendList setAddressList

def getDeviceDesc1List : List (BitVec 16) :=
  [0x050C#16, 0x0008#16, 0x02D0#16, 0x0001#16, 0x0013#16, 0x0514#16,
    0x0680#16, 0x0100#16, 0x0000#16, 0x0008#16,
    0x052C#16, 0x0008#16, 0x0290#16, 0x0041#16, 0x0013#16, 0x0520#16,
    0x0000#16, 0x0000#16, 0x0210#16, 0x0041#16, 0x0013#16, 0x0000#16]

def usbGetDeviceDesc1 : Driver Unit := sendList getDeviceDesc1List

def getDeviceDesc2List : List (BitVec 16) :=
  [0x050C#16, 0x0008#16, 0x02D0#16, 0x0001#16, 0x0013#16, 0x0514#16,
    0x0680#16, 0x0100#16, 0x0000#16, 0x0012#16,
    0x0544#16, 0x0008#16, 0x0290#16, 0x0041#16, 0x0013#16, 0x0520#16,
    0x054C#16, 0x0008#16, 0x0290#16, 0x0001#16, 0x0013#16, 0x052C#16,
    0x0554#16, 0x0002#16, 0x0290#16, 0x0041#16, 0x0013#16, 0x0538#16,
    0x0000#16, 0x0000#16, 0x0210#16, 0x0041#16, 0x0013#16, 0x0000#16]

def usbGetDeviceDesc2 : Driver Unit := sendList getDeviceDesc2List

def getConfigDesc1List : List (BitVec 16) :=
  [0x050C#16, 0x0008#16, 0x02D0#16, 0x0001#16, 0x0013#16, 0x0514#16,
    0x0680#16, 0x0200#16, 0x0000#16, 0x0009#16,
    0x0544#16, 0x0008#16, 0x0290#16, 0x0041#16, 0x0013#16, 0x0520#16,
    0x054C#16, 0x0001#16, 0x0290#16, 0x0001#16, 0x0013#16, 0x052C#16,
    0x0000#16, 0x0000#16, 0x0210#16, 0x0041#16, 0x0013#16, 0x0000#16]

def usbGetConfigDesc1 : Driver Unit := sendList getConfigDesc1List

def getConfigDesc2List : List (BitVec 16) :=
  [0x050C#16, 0x0008#16, 0x02D0#16, 0x0001#16, 0x0013#16, 0x0514#16,
    0x0680#16, 0x0200#16, 0x0000#16, 0x00FF#16,
    0x055C#16, 0x0008#16, 0x0290#16, 0x0041#16, 0x0013#16, 0x0520#16,
    0x0564#16, 0x0008#16, 0x0290#16, 0x0001#16, 0x0013#16, 0x052C#16,
    0x056C#16, 0x0008#16, 0x0290#16, 0x0041#16, 0x0013#16, 0x0538#16,
    0x0574#16, 0x0008#16, 0x0290#16, 0x0001#16, 0x0013#16, 0x0544#16,
    0x057C#16, 0x0002#16, 0x0290#16, 0x0041#16, 0x0013#16, 0x0550#16,
    0x0000#16, 0x0000#16, 0x0210#16, 0x0041#16, 0x0013#16, 0x0000#16]

def usbGetConfigDesc2 : Driver Unit := sendList getConfigDesc2List

def setConfigList : List (BitVec 16) :=
  [0x050C#16, 0x0008#16, 0x02D0#16, 0x0001#16, 0x0013#16, 0x0514#16,
    0x0900#16, 0x0001#16, 0x0000#16, 0x0000#16,
    0x0000#16, 0x0000#16, 0x0290#16, 0x0041#16, 0x0013#16, 0x0000#16]

def usbSetConfig : Driver Unit := sendList setConfigList

def classRequestList : List (BitVec 16) :=
  [0x050C#16, 0x0008#16, 0x02D0#16, 0x0001#16, 0x0013#16, 0x0514#16,
    0x0A21#16, 0x0000#16, 0x0000#16, 0x0000#16,
    0x0000#16, 0x0000#16, 0x0290#16, 0x0041#16, 0x0013#16, 0x0000#16]

def usbClassRequest : Driver Unit := sendList classRequestList

def getHidDescList : List (BitVec 16) :=
  [0x050C#16, 0x0008#16, 0x02D0#16, 0x0001#16, 0x0013#16, 0x0514#16,
    0x0681#16, 0x2100#16, 0x0000#16, 0x007B#16,
    0x0544#16, 0x0008#16, 0x0290#16, 0x0041#16, 0x0013#16, 0x0520#16,
    0x0000#16, 0x0000#16, 0x0210#16, 0x0041#16, 0x0013#16, 0x0000#16]

def usbGetHidDesc : Driver Unit := sendList getHidDescList

def getReportDescList : List (BitVec 16) :=
  [0x050C#16, 0x0008#16, 0x02D0#16, 0x0001#16, 0x0013#16, 0x0514#16,
    0x0681#16, 0x2200#16, 0x0000#16, 0x007B#16,
    0x0580#16, 0x0008#16, 0x0290#16, 0x0041#16, 0x0013#16, 0x0520#16,
    0x0588#16, 0x0008#16, 0x0290#16, 0x0001#16, 0x0013#16, 0x052C#16,
    0x0590#16, 0x0008#16, 0x0290#16, 0x0041#16, 0x0013#16, 0x0538#16,
    0x0598#16, 0x0008#16, 0x0290#16, 0x0001#16, 0x0013#16, 0x0544#16,
    0x05A0#16, 0x0008#16, 0x0290#16, 0x0041#16, 0x0013#16, 0x0550#16,
    0x05A8#16, 0x0008#16, 0x0290#16, 0x0001#16, 0x0013#16, 0x055C#16,
    0x05B0#16, 0x0008#16, 0x0290#16, 0x0041#16, 0x0013#16, 0x0568#16,
    0x05B8#16, 0x0003#16, 0x0290#16, 0x0001#16, 0x0013#16, 0x0574#16,
    0x0000#16, 0x0000#16, 0x0210#16, 0x0041#16, 0x0013#16, 0x0000#16]

def usbGetReportDesc : Driver Unit := sendList getReportDescList

end Driver

end FPGAMario
