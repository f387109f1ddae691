import FPGAMario.Console
import FPGAMario.Score

/-! `HexDriver` and the seven-segment displays of the board: what can be read off them. -/

namespace FPGAMario

open Hdl Interact

/-- The segments are lit by zeros. -/
def hexDriver (in0 : BitVec 4) : BitVec 7 :=
  if in0 = 0b0000#4 then 0b1000000#7
  else if in0 = 0b0001#4 then 0b1111001#7
  else if in0 = 0b0010#4 then 0b0100100#7
  else if in0 = 0b0011#4 then 0b0110000#7
  else if in0 = 0b0100#4 then 0b0011001#7
  else if in0 = 0b0101#4 then 0b0010010#7
  else if in0 = 0b0110#4 then 0b0000010#7
  else if in0 = 0b0111#4 then 0b1111000#7
  else if in0 = 0b1000#4 then 0b0000000#7
  else if in0 = 0b1001#4 then 0b0010000#7
  else if in0 = 0b1010#4 then 0b0001000#7
  else if in0 = 0b1011#4 then 0b0000011#7
  else if in0 = 0b1100#4 then 0b1000110#7
  else if in0 = 0b1101#4 then 0b0100001#7
  else if in0 = 0b1110#4 then 0b0000110#7
  else 0b0001110#7

/-- The segments in the order of the bits. -/
inductive Segment
  | top | upperRight | lowerRight | bottom | lowerLeft | upperLeft | middle
  deriving DecidableEq, Repr

namespace Segment

def all : List Segment := [top, upperRight, lowerRight, bottom, lowerLeft, upperLeft, middle]

def Lit (segments : BitVec 7) (s : Segment) : Prop := segments.getLsbD s.ctorIdx = false

instance (segments : BitVec 7) (s : Segment) : Decidable (s.Lit segments) :=
  inferInstanceAs (Decidable (_ = _))

/-- What the digits look like, the last six of them as A, b, C, d, E and F. -/
def glyph : Nat → List Segment
  | 0 => [top, upperLeft, upperRight, lowerLeft, lowerRight, bottom]
  | 1 => [upperRight, lowerRight]
  | 2 => [top, upperRight, middle, lowerLeft, bottom]
  | 3 => [top, upperRight, middle, lowerRight, bottom]
  | 4 => [upperLeft, upperRight, middle, lowerRight]
  | 5 => [top, upperLeft, middle, lowerRight, bottom]
  | 6 => [top, upperLeft, middle, lowerLeft, lowerRight, bottom]
  | 7 => [top, upperRight, lowerRight]
  | 8 => [top, upperLeft, upperRight, middle, lowerLeft, lowerRight, bottom]
  | 9 => [top, upperLeft, upperRight, middle, lowerRight, bottom]
  | 10 => [top, upperLeft, upperRight, middle, lowerLeft, lowerRight]
  | 11 => [upperLeft, middle, lowerLeft, lowerRight, bottom]
  | 12 => [top, upperLeft, lowerLeft, bottom]
  | 13 => [upperRight, middle, lowerLeft, lowerRight, bottom]
  | 14 => [top, upperLeft, middle, lowerLeft, bottom]
  | 15 => [top, upperLeft, middle, lowerLeft]
  | _ => []

end Segment

/-- The digit that somebody reads off the lit segments. -/
def digitRead (segments : BitVec 7) : Option Nat :=
  (List.range 16).find? fun digit =>
    decide (∀ s ∈ Segment.all, s.Lit segments ↔ s ∈ Segment.glyph digit)

def numberRead (high low : BitVec 7) : Option Nat := do
  let sixteens ← digitRead high
  let ones ← digitRead low
  pure (16 * sixteens + ones)

theorem digitRead_hexDriver (digit : BitVec 4) : digitRead (hexDriver digit) = some digit.toNat := by
  revert digit
  decide

theorem digitRead_bit (bit : Bool) :
    digitRead (hexDriver ((BitVec.ofBool bit).setWidth 4)) = some bit.toNat := by
  revert bit
  decide

theorem numberRead_byte (byte : BitVec 8) :
    numberRead (hexDriver (byte.extractLsb' 4 4)) (hexDriver (byte.extractLsb' 0 4)) =
      some byte.toNat := by
  have parts : 16 * (byte.extractLsb' 4 4).toNat + (byte.extractLsb' 0 4).toNat = byte.toNat := by
    simp only [BitVec.extractLsb'_toNat]
    omega
  simp only [numberRead, digitRead_hexDriver, Option.bind_eq_bind, Option.bind_some, parts]
  rfl

/-- `HEX0` to `HEX7`; nothing drives `HEX2`. -/
structure HexOutputs where
  hex0 : BitVec 7
  hex1 : BitVec 7
  hex3 : BitVec 7
  hex4 : BitVec 7
  hex5 : BitVec 7
  hex6 : BitVec 7
  hex7 : BitVec 7

def Toplevel.hexOutputs (keycode : BitVec 8) (s : Toplevel) : HexOutputs where
  hex0 := hexDriver (s.game.score.extractLsb' 0 4)
  hex1 := hexDriver (s.game.score.extractLsb' 4 4)
  hex3 := hexDriver ((BitVec.ofBool s.game.goomba.isAlive).setWidth 4)
  hex4 := hexDriver (s.game.blocks.currentBlockCol.extractLsb' 0 4)
  hex5 := hexDriver (s.game.blocks.currentBlockCol.extractLsb' 4 4)
  hex6 := hexDriver (keycode.extractLsb' 0 4)
  hex7 := hexDriver (keycode.extractLsb' 4 4)

end FPGAMario
