import FPGAMario.Goomba
import FPGAMario.Hdl.PartSelect
import FPGAMario.Mario

/-! The module `block_array`: the window of ten level columns, the block ids around
Mario and the goomba, scrolling and the removal of bricks. -/

namespace FPGAMario

open Hdl

abbrev BlockCols := Fin 10 → BitVec 30

/-- What the board adds to the source: the contents of the level ROM, and the value that a
part select outside `blockCols` reads, which the language leaves undefined. -/
structure Board where
  levelMem : BitVec 8 → BitVec 36
  outside : BlockCols → BitVec 10 → BitVec 5 → BitVec 3

structure BlockArray where
  blockCols : BlockCols
  currentBlockCol : BitVec 8

namespace BlockArray

def gridIndex (origin pixel : BitVec 10) : BitVec 10 :=
  (pixel - origin) / 40#10

/-- `3 * row`, of 32 bits, assigned to a signal of five. -/
def lower (row : BitVec 10) : BitVec 5 :=
  (3#32 * row.setWidth 32).setWidth 5

def marioBlockX (marioXPos : BitVec 10) : BitVec 10 := gridIndex 120#10 marioXPos
def marioBlockY (marioYPos : BitVec 10) : BitVec 10 := gridIndex 40#10 marioYPos
def marioBlockUp (marioYPos : BitVec 10) : BitVec 10 := gridIndex 40#10 (marioYPos - 20#10)
def marioBlockDown (marioYPos : BitVec 10) : BitVec 10 :=
  (marioYPos + 20#10 - 40#10 - 1#10) / 40#10
def marioBlockLeft (marioXPos : BitVec 10) : BitVec 10 := gridIndex 120#10 (marioXPos - 20#10)
def marioBlockRight (marioXPos : BitVec 10) : BitVec 10 := gridIndex 120#10 (marioXPos + 20#10)

def goombaBlockY (goombaYPos : BitVec 10) : BitVec 10 := gridIndex 40#10 goombaYPos
def goombaBlockLeft (goombaXPos : BitVec 10) : BitVec 10 :=
  (goombaXPos - 18#10 - 120#10 - 1#10) / 40#10
def goombaBlockRight (goombaXPos : BitVec 10) : BitVec 10 :=
  gridIndex 120#10 (goombaXPos + 18#10)

/-- The select lies inside the declared ranges of `blockCols`. -/
def InRange (column : BitVec 10) (low : BitVec 5) : Prop :=
  column.toNat < 10 ∧ low.toNat + 3 ≤ 30

instance (column : BitVec 10) (low : BitVec 5) : Decidable (InRange column low) :=
  inferInstanceAs (Decidable (_ ∧ _))

def select (board : Board) (cols : BlockCols) (column : BitVec 10) (low : BitVec 5) : BitVec 3 :=
  if inside : InRange column low then part 3 low.toNat (cols ⟨column.toNat, inside.1⟩)
  else board.outside cols column low

/-- `blockCols[column][low +: 3] = 3'b000`; bits outside the declared ranges are ignored. -/
def remove (cols : BlockCols) (column : BitVec 10) (low : BitVec 5) : BlockCols :=
  fun i => if i.val = column.toNat then clearPart 3 low.toNat (cols i) else cols i

def blockIdOut (board : Board) (drawX drawY : BitVec 10) (a : BlockArray) : BitVec 3 :=
  select board a.blockCols (gridIndex 120#10 drawX) (lower (gridIndex 40#10 drawY))

def marioPolls (board : Board) (marioXPos marioYPos : BitVec 10) (a : BlockArray) :
    MarioPolls where
  up := select board a.blockCols (marioBlockX marioXPos) (lower (marioBlockUp marioYPos))
  down := select board a.blockCols (marioBlockX marioXPos) (lower (marioBlockDown marioYPos))
  left := select board a.blockCols (marioBlockLeft marioXPos) (lower (marioBlockY marioYPos))
  right := select board a.blockCols (marioBlockRight marioXPos) (lower (marioBlockY marioYPos))

def goombaPolls (board : Board) (goombaXPos goombaYPos : BitVec 10) (a : BlockArray) :
    GoombaPolls where
  left := select board a.blockCols (goombaBlockLeft goombaXPos) (lower (goombaBlockY goombaYPos))
  right :=
    select board a.blockCols (goombaBlockRight goombaXPos) (lower (goombaBlockY goombaYPos))

/-- The columns move one slot down and a new one comes in at slot 9. -/
def push (newBlockId : BitVec 30) (cols : BlockCols) : BlockCols :=
  fun i => if inside : i.val < 9 then cols ⟨i.val + 1, by omega⟩ else newBlockId

/-- The loop of the Reset branch counts the address up once for each of the ten slots. -/
def resetCol : Nat → BitVec 8
  | 0 => 0x00#8
  | n + 1 => resetCol n + 1#8

def step (board : Board) (reset shift : Bool) (newBlockId : BitVec 30)
    (marioXPos marioYPos : BitVec 10) (a : BlockArray) : BlockArray :=
  if reset then
    { blockCols := fun _ => newBlockId, currentBlockCol := resetCol 10 }
  else if shift then
    { blockCols := push newBlockId a.blockCols, currentBlockCol := a.currentBlockCol + 1#8 }
  else if (a.marioPolls board marioXPos marioYPos).up = 0b010#3 then
    { a with
      blockCols :=
        remove a.blockCols (marioBlockX marioXPos) (lower (marioBlockUp marioYPos)) }
  else a

end BlockArray

end FPGAMario
