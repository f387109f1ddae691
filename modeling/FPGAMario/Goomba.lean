import Mathlib.Tactic.Common

/-! The module `goomba`: its registers and one clock edge. -/

namespace FPGAMario

structure Goomba where
  goombaXPos : BitVec 10
  goombaYPos : BitVec 10
  goombaXMotion : BitVec 10
  goombaYMotion : BitVec 10
  falling : Bool
  isAlive : Bool
  killMario : Bool
  goombaSprite : Bool
  spriteTimer : BitVec 4
  goombaKilled : Bool
  deriving DecidableEq, Repr

structure GoombaPolls where
  left : BitVec 3
  right : BitVec 3
  deriving DecidableEq, Repr

namespace Goomba

abbrev goombaXMin : BitVec 10 := 120#10
abbrev goombaXMax : BitVec 10 := 519#10
abbrev goombaXStep : BitVec 10 := 1#10
abbrev goombaXSize : BitVec 10 := 20#10
abbrev goombaYSize : BitVec 10 := 20#10

def resetValue : Goomba where
  goombaXPos := 0#10
  goombaYPos := 0#10
  goombaXMotion := 0#10
  goombaYMotion := 0#10
  falling := false
  isAlive := false
  killMario := false
  goombaSprite := false
  spriteTimer := 0xF#4
  goombaKilled := false

def startValue (spawnX spawnY : BitVec 10) : Goomba where
  goombaXPos := spawnX
  goombaYPos := spawnY - goombaYSize
  goombaXMotion := ~~~goombaXStep + 1#10
  goombaYMotion := 0#10
  falling := false
  isAlive := true
  killMario := false
  goombaSprite := false
  spriteTimer := 0xF#4
  goombaKilled := false

/-- Mario's centre is over the goomba and his feet are not above its head. -/
def Squished (marioXPos marioYPos : BitVec 10) (g : Goomba) : Prop :=
  g.goombaXPos - goombaXSize ≤ marioXPos ∧ marioXPos < g.goombaXPos + goombaXSize ∧
    g.goombaYPos - goombaYSize ≤ marioYPos + 20#10

def Touches (marioXPos marioYPos : BitVec 10) (g : Goomba) : Prop :=
  (g.goombaXPos - goombaXSize = marioXPos + 20#10 ∨
      g.goombaXPos + goombaXSize = marioXPos - 20#10) ∧
    g.goombaYPos - goombaYSize < marioYPos + 20#10

instance (marioXPos marioYPos : BitVec 10) (g : Goomba) :
    Decidable (g.Squished marioXPos marioYPos) :=
  inferInstanceAs (Decidable (_ ∧ _ ∧ _))

instance (marioXPos marioYPos : BitVec 10) (g : Goomba) :
    Decidable (g.Touches marioXPos marioYPos) :=
  inferInstanceAs (Decidable ((_ ∨ _) ∧ _))

/-- `Goomba_X_Motion_in`: a wall on the left is looked at first. -/
def turnIn (polls : GoombaPolls) (g : Goomba) : BitVec 10 :=
  if polls.left ≠ 0#3 then goombaXStep
  else if polls.right ≠ 0#3 ∨ goombaXMax ≤ g.goombaXPos + goombaXSize then
    ~~~goombaXStep + 1#10
  else g.goombaXMotion

/-- One frame of walking. The position still moves by the old motion. -/
def walk (shift : Bool) (polls : GoombaPolls) (g : Goomba) : Goomba :=
  { g with
    goombaXPos :=
      if shift then g.goombaXPos - 40#10 + g.goombaXMotion
      else g.goombaXPos + g.goombaXMotion
    goombaYPos := g.goombaYPos + g.goombaYMotion
    goombaXMotion := turnIn polls g
    goombaYMotion := 0#10
    isAlive := true
    goombaSprite := if g.spriteTimer = 0xF#4 then !g.goombaSprite else g.goombaSprite
    spriteTimer := g.spriteTimer + 1#4
    goombaKilled := false }

def frameStep (shift : Bool) (marioXPos marioYPos : BitVec 10) (polls : GoombaPolls)
    (g : Goomba) : Goomba :=
  if g.isAlive then
    if g.Squished marioXPos marioYPos then
      { g with goombaYMotion := 0#10, isAlive := false, goombaKilled := true }
    else if g.Touches marioXPos marioYPos then
      { g with goombaYMotion := 0#10, killMario := true, goombaKilled := false }
    else if g.goombaXPos + goombaXSize < goombaXMin then
      { g with goombaYMotion := 0#10, isAlive := false, goombaKilled := false }
    else walk shift polls g
  else
    { g with
      goombaXPos := 0#10
      goombaYPos := 0#10
      goombaXMotion := 0#10
      goombaYMotion := 0#10
      falling := false
      isAlive := false
      goombaKilled := false }

def step (reset kill start frameClkRisingEdge shift : Bool)
    (spawnX spawnY marioXPos marioYPos : BitVec 10) (polls : GoombaPolls) (g : Goomba) :
    Goomba :=
  if reset || kill then resetValue
  else if start then startValue spawnX spawnY
  else if frameClkRisingEdge then frameStep shift marioXPos marioYPos polls g
  else { g with goombaYMotion := 0#10, goombaKilled := false }

def DrawIsGoomba (drawX drawY : BitVec 10) (g : Goomba) : Prop :=
  g.isAlive = true ∧ g.goombaXPos - goombaXSize ≤ drawX ∧ drawX < g.goombaXPos + goombaXSize ∧
    g.goombaYPos - goombaYSize ≤ drawY ∧ drawY < g.goombaYPos + goombaYSize

instance (drawX drawY : BitVec 10) (g : Goomba) : Decidable (g.DrawIsGoomba drawX drawY) :=
  inferInstanceAs (Decidable (_ ∧ _ ∧ _ ∧ _ ∧ _))

end Goomba

end FPGAMario
