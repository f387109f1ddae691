import Mathlib.Tactic.Common

/-! The module `Mario`: its registers and one clock edge. The rising edge of
`frame_clk` is an argument here; the detector that produces it is in `FrameClock`. -/

namespace FPGAMario

structure Mario where
  marioXPos : BitVec 10
  marioYPos : BitVec 10
  marioXMotion : BitVec 10
  marioYMotion : BitVec 10
  jumpCounter : BitVec 7
  falling : Bool
  isJumping : Bool
  direction : Bool
  runCounter : BitVec 2
  runSpriteTimer : BitVec 4
  deriving DecidableEq, Repr

/-- The ids of the blocks next to Mario, as `block_array` reports them. -/
structure MarioPolls where
  up : BitVec 3
  down : BitVec 3
  left : BitVec 3
  right : BitVec 3
  deriving DecidableEq, Repr

namespace Mario

abbrev marioXMin : BitVec 10 := 120#10
abbrev marioXMax : BitVec 10 := 519#10
abbrev marioYMin : BitVec 10 := 40#10
abbrev marioYMax : BitVec 10 := 439#10
abbrev marioXStep : BitVec 10 := 2#10
abbrev marioYStep : BitVec 10 := 2#10
abbrev marioXSize : BitVec 10 := 20#10
abbrev marioYSize : BitVec 10 := 20#10

abbrev keyW : BitVec 16 := 0x001A#16
abbrev keyA : BitVec 16 := 0x0004#16
abbrev keyD : BitVec 16 := 0x0007#16

def resetValue : Mario where
  marioXPos := marioXMin + 20#10
  marioYPos := marioYMax - marioYSize
  marioXMotion := 0#10
  marioYMotion := 0#10
  jumpCounter := 0#7
  falling := false
  isJumping := false
  direction := false
  runCounter := 0#2
  runSpriteTimer := 0xF#4

/-- The values `Mario_Y_Motion_in`, `Jump_Counter_in`, `Falling_in`, `is_jumping_in`. -/
structure VerticalIn where
  motion : BitVec 10
  jumpCounter : BitVec 7
  falling : Bool
  isJumping : Bool
  deriving DecidableEq, Repr

/-- Jumping, rising, standing and falling at a frame edge, in the order of the source. -/
def verticalIn (keycode : BitVec 16) (polls : MarioPolls) (m : Mario) : VerticalIn :=
  if keycode = keyW ∧ m.falling = false ∧ m.jumpCounter = 0#7 ∧ polls.up = 0#3 then
    { motion := ~~~marioYStep + 1#10, jumpCounter := 1#7, falling := m.falling,
      isJumping := true }
  else if 1#7 ≤ m.jumpCounter then
    if m.jumpCounter = 95#7 ∨ m.marioYPos - marioYSize ≤ marioYMin ∨ polls.up ≠ 0#3 then
      { motion := marioYStep, jumpCounter := 0#7, falling := true, isJumping := true }
    else
      { motion := ~~~marioYStep + 1#10, jumpCounter := m.jumpCounter + 1#7,
        falling := m.falling, isJumping := true }
  else if marioYMax ≤ m.marioYPos + marioYSize - 1#10 ∨ polls.down ≠ 0#3 then
    { motion := 0#10, jumpCounter := 0#7, falling := false, isJumping := false }
  else if m.falling = true ∨ polls.down = 0#3 then
    { motion := marioYStep, jumpCounter := m.jumpCounter, falling := true,
      isJumping := m.isJumping }
  else
    { motion := 0#10, jumpCounter := m.jumpCounter, falling := m.falling,
      isJumping := m.isJumping }

/-- The values `Mario_X_Motion_in`, `direction_in`, `run_counter_in`,
`run_sprite_timer_in`. -/
structure HorizontalIn where
  motion : BitVec 10
  direction : Bool
  runCounter : BitVec 2
  runSpriteTimer : BitVec 4
  deriving DecidableEq, Repr

def nextRunCounter (runCounter : BitVec 2) : BitVec 2 :=
  if runCounter = 0#2 then 1#2
  else if runCounter = 1#2 then 2#2
  else if runCounter = 2#2 then 3#2
  else 2#2

def walkIn (motion : BitVec 10) (direction : Bool) (m : Mario) : HorizontalIn :=
  if m.runSpriteTimer = 9#4 then
    { motion, direction, runCounter := nextRunCounter m.runCounter, runSpriteTimer := 0#4 }
  else
    { motion, direction, runCounter := m.runCounter, runSpriteTimer := m.runSpriteTimer + 1#4 }

/-- `Mario_X_Step - is_jumping`. -/
def stride (m : Mario) : BitVec 10 :=
  marioXStep - (BitVec.ofBool m.isJumping).setWidth 10

def horizontalIn (keycode : BitVec 16) (polls : MarioPolls) (m : Mario) : HorizontalIn :=
  if keycode = keyA ∧ polls.left = 0#3 ∧ marioXMin + marioXSize ≤ m.marioXPos then
    walkIn (~~~m.stride + 1#10) true m
  else if keycode = keyD ∧ polls.right = 0#3 ∧ m.marioXPos + marioXSize ≤ marioXMax then
    walkIn m.stride false m
  else
    { motion := 0#10, direction := m.direction, runCounter := 0#2,
      runSpriteTimer := m.runSpriteTimer }

/-- Mario stands far enough right for the level to scroll. The literal `2` makes the
comparison one of 32 bits, so the sum does not wrap. -/
def PastMiddle (m : Mario) : Prop :=
  (519#32 + 120#32) / 2#32 < m.marioXPos.setWidth 32 + 21#32

instance (m : Mario) : Decidable m.PastMiddle :=
  inferInstanceAs (Decidable (_ < _))

def shift (frameClkRisingEdge : Bool) (m : Mario) : Bool :=
  frameClkRisingEdge && decide m.PastMiddle

def frameStep (keycode : BitVec 16) (polls : MarioPolls) (m : Mario) : Mario :=
  let vertical := verticalIn keycode polls m
  let horizontal := horizontalIn keycode polls m
  { marioXPos := if m.PastMiddle then m.marioXPos - 40#10 else m.marioXPos + horizontal.motion
    marioYPos := m.marioYPos + vertical.motion
    marioXMotion := horizontal.motion
    marioYMotion := vertical.motion
    jumpCounter := vertical.jumpCounter
    falling := vertical.falling
    isJumping := vertical.isJumping
    direction := horizontal.direction
    runCounter := horizontal.runCounter
    runSpriteTimer := horizontal.runSpriteTimer }

section FrameFields

variable (keycode : BitVec 16) (polls : MarioPolls) (m : Mario)

theorem frameStep_marioYPos : (frameStep keycode polls m).marioYPos =
    m.marioYPos + (verticalIn keycode polls m).motion := rfl

theorem frameStep_jumpCounter : (frameStep keycode polls m).jumpCounter =
    (verticalIn keycode polls m).jumpCounter := rfl

theorem frameStep_falling : (frameStep keycode polls m).falling =
    (verticalIn keycode polls m).falling := rfl

end FrameFields

def step (reset frameClkRisingEdge : Bool) (keycode : BitVec 16) (polls : MarioPolls)
    (m : Mario) : Mario :=
  if reset then resetValue
  else if frameClkRisingEdge then frameStep keycode polls m
  else { m with marioXMotion := 0#10, marioYMotion := 0#10 }

def IsMario (drawX drawY : BitVec 10) (m : Mario) : Prop :=
  m.marioXPos - marioXSize ≤ drawX ∧ drawX < m.marioXPos + marioXSize ∧
    m.marioYPos - marioYSize ≤ drawY ∧ drawY < m.marioYPos + marioYSize

instance (drawX drawY : BitVec 10) (m : Mario) : Decidable (m.IsMario drawX drawY) :=
  inferInstanceAs (Decidable (_ ∧ _ ∧ _ ∧ _))

end Mario

end FPGAMario
