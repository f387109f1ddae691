import FPGAMario.Hdl.Run

/-! Small registered circuits: a rising-edge detector and a ROM with registered
address and output. -/

namespace FPGAMario.Hdl

/-- `delayed` holds the signal of the previous cycle; `rising` is itself a register. -/
structure EdgeDetector where
  delayed : Bool
  rising : Bool
  deriving DecidableEq, Repr

namespace EdgeDetector

def step (signal : Bool) (d : EdgeDetector) : EdgeDetector where
  delayed := signal
  rising := signal && !d.delayed

@[simp] theorem step_delayed (signal : Bool) (d : EdgeDetector) :
    (d.step signal).delayed = signal := rfl

@[simp] theorem step_rising (signal : Bool) (d : EdgeDetector) :
    (d.step signal).rising = (signal && !d.delayed) := rfl

end EdgeDetector

structure SyncRom (Address Word : Type) where
  address : Address
  q : Word
  deriving DecidableEq, Repr

namespace SyncRom

variable {Address Word : Type}

def step (rom : Address → Word) (address : Address) (r : SyncRom Address Word) :
    SyncRom Address Word where
  address := address
  q := rom r.address

def Settled (rom : Address → Word) (address : Address) (r : SyncRom Address Word) : Prop :=
  r.address = address ∧ r.q = rom address

@[simp] theorem step_address (rom : Address → Word) (address : Address)
    (r : SyncRom Address Word) : (r.step rom address).address = address := rfl

@[simp] theorem step_q (rom : Address → Word) (address : Address)
    (r : SyncRom Address Word) : (r.step rom address).q = rom r.address := rfl

theorem Settled.step_self {rom : Address → Word} {address : Address}
    {r : SyncRom Address Word} (settled : r.Settled rom address) : r.step rom address = r := by
  cases r
  simp only [Settled] at settled
  simp [step, settled]

end SyncRom

end FPGAMario.Hdl
