import Mathlib.Tactic.Common

/-! The module `coin`: its registers and one clock edge. -/

namespace FPGAMario

structure Coin where
  coinXPos : BitVec 10
  coinYPos : BitVec 10
  coinTaken : Bool
  isRunning : Bool
  deriving DecidableEq, Repr

namespace Coin

abbrev coinSize : Int := 19
abbrev coinXMin : BitVec 10 := 120#10

def resetValue : Coin where
  coinXPos := 0#10
  coinYPos := 0#10
  coinTaken := false
  isRunning := false

def startValue (startBlock : BitVec 2) : Coin where
  coinXPos := 500#10
  coinYPos := 40#10 * startBlock.setWidth 10 - 20#10 + 160#10
  coinTaken := false
  isRunning := true

/-- `MarioDistX` and `MarioDistY` are `int`s: the differences do not wrap. -/
def marioDist (mario coin : BitVec 10) : Int :=
  (mario.toNat : Int) - coin.toNat

def TakenIn (marioXPos marioYPos : BitVec 10) (c : Coin) : Prop :=
  marioDist marioXPos c.coinXPos * marioDist marioXPos c.coinXPos +
      marioDist marioYPos c.coinYPos * marioDist marioYPos c.coinYPos ≤ coinSize * coinSize ∧
    c.isRunning = true

instance (marioXPos marioYPos : BitVec 10) (c : Coin) :
    Decidable (c.TakenIn marioXPos marioYPos) :=
  inferInstanceAs (Decidable (_ ∧ _))

def step (reset start frameClkRisingEdge shift : Bool) (marioXPos marioYPos : BitVec 10)
    (startBlock : BitVec 2) (c : Coin) : Coin :=
  if reset then resetValue
  else if start then startValue startBlock
  else if c.coinTaken then
    { coinXPos := 0#10, coinYPos := 0#10, coinTaken := false, isRunning := false }
  else
    { coinXPos :=
        if frameClkRisingEdge ∧ coinXMin ≤ c.coinXPos ∧ shift then c.coinXPos - 40#10
        else c.coinXPos
      coinYPos := c.coinYPos
      coinTaken := decide (c.TakenIn marioXPos marioYPos)
      isRunning :=
        if frameClkRisingEdge ∧ c.coinXPos < coinXMin then false else c.isRunning }

def dist (draw coin : BitVec 10) : Int :=
  (draw.toNat : Int) - coin.toNat

def IsCoin (drawX drawY : BitVec 10) (c : Coin) : Prop :=
  dist drawX c.coinXPos * dist drawX c.coinXPos + dist drawY c.coinYPos * dist drawY c.coinYPos ≤
      coinSize * coinSize ∧
    c.isRunning = true

instance (drawX drawY : BitVec 10) (c : Coin) : Decidable (c.IsCoin drawX drawY) :=
  inferInstanceAs (Decidable (_ ∧ _))

end Coin

end FPGAMario
