import FPGAMario.Toplevel

/-! `color_mapper`: which sprite a pixel shows, where its colour lies in the sprite sheet, and
the registers between the address and the pins. -/

namespace FPGAMario

open Hdl

/-- The combinational inputs of `color_mapper`; `isCoin` has a bit for each coin. -/
structure ColorMapper where
  isMario : Bool
  runCounter : BitVec 2
  isJumping : Bool
  direction : Bool
  isCoin : Fin 4 → Bool
  drawIsGoomba : Bool
  goombaSprite : Bool
  drawX : BitVec 10
  drawY : BitVec 10
  marioXPos : BitVec 10
  marioYPos : BitVec 10
  goombaXPos : BitVec 10
  goombaYPos : BitVec 10
  blockID : BitVec 3

structure Tile where
  ssXPos : BitVec 3
  ssYPos : BitVec 3
  deriving DecidableEq, Repr

namespace ColorMapper

abbrev ssWidth : BitVec 16 := 200#16
abbrev spriteLength : BitVec 16 := 40#16

def bit3 (signal : Bool) : BitVec 3 := (BitVec.ofBool signal).setWidth 3

def marioTile (isJumping direction : Bool) (runCounter : BitVec 2) : Tile :=
  if isJumping then ⟨2#3 + bit3 direction, 0#3⟩
  else if direction = false then
    ⟨1#3 + runCounter.setWidth 3, if runCounter ≠ 0b00#2 then 1#3 else 0#3⟩
  else if runCounter = 0b00#2 then ⟨0#3, 0#3⟩
  else if runCounter = 0b01#2 then ⟨4#3, 0#3⟩
  else if runCounter = 0b10#2 then ⟨0#3, 1#3⟩
  else ⟨1#3, 1#3⟩

def goombaTile (goombaSprite : Bool) : Tile := ⟨3#3 + bit3 goombaSprite, 2#3⟩

def blockTile (blockID : BitVec 3) : Tile :=
  if blockID = 0b000#3 then ⟨4#3, 4#3⟩
  else if blockID = 0b001#3 then ⟨2#3, 3#3⟩
  else if blockID = 0b010#3 then ⟨0#3, 2#3⟩
  else if blockID = 0b011#3 then ⟨1#3, 3#3⟩
  else if blockID = 0b100#3 then ⟨1#3, 2#3⟩
  else if blockID = 0b101#3 then ⟨2#3, 2#3⟩
  else if blockID = 0b110#3 then ⟨3#3, 3#3⟩
  else ⟨4#3, 3#3⟩

/-- A tile, and the pixel of it, up to multiples of forty. -/
structure Sprite where
  tile : Tile
  pixelX : BitVec 10
  pixelY : BitVec 10
  deriving DecidableEq, Repr

def Bordered (c : ColorMapper) : Prop :=
  c.drawX < 120#10 ∨ 520#10 ≤ c.drawX ∨ c.drawY < 40#10

instance (c : ColorMapper) : Decidable c.Bordered := inferInstanceAs (Decidable (_ ∨ _ ∨ _))

def sprite (c : ColorMapper) : Sprite :=
  if c.Bordered then
    ⟨⟨0#3, 4#3⟩, c.drawX - 120#10, c.drawY - 40#10⟩
  else if 440#10 ≤ c.drawY then
    ⟨⟨2#3, 3#3⟩, c.drawX - 120#10, c.drawY - 40#10⟩
  else if c.isMario then
    ⟨marioTile c.isJumping c.direction c.runCounter, c.drawX - 120#10 - c.marioXPos - 4#10,
      c.drawY - 40#10 - c.marioYPos - 4#10⟩
  else if c.drawIsGoomba then
    ⟨goombaTile c.goombaSprite, c.drawX - 120#10 - c.goombaXPos - 4#10,
      c.drawY - 40#10 - c.goombaYPos - 4#10⟩
  else if ∃ i, c.isCoin i = true then
    ⟨⟨0#3, 3#3⟩, c.drawX - 120#10, c.drawY - 40#10⟩
  else
    ⟨blockTile c.blockID, c.drawX - 120#10, c.drawY - 40#10⟩

def Sprite.address (s : Sprite) : BitVec 16 :=
  ssWidth * spriteLength * s.tile.ssYPos.setWidth 16 + spriteLength * s.tile.ssXPos.setWidth 16 +
    s.pixelX.setWidth 16 % spriteLength + s.pixelY.setWidth 16 % spriteLength * ssWidth

def pixelAddress (c : ColorMapper) : BitVec 16 := c.sprite.address

end ColorMapper

namespace Game

/-- What the top level connects to `color_mapper` for the pixel `(DrawX, DrawY)`. -/
def colorMapper (board : Board) (drawX drawY : BitVec 10) (g : Game) : ColorMapper where
  isMario := decide (g.mario.IsMario drawX drawY)
  runCounter := g.mario.runCounter
  isJumping := g.mario.isJumping
  direction := g.mario.direction
  isCoin i := decide ((g.coins i).IsCoin drawX drawY)
  drawIsGoomba := decide (g.goomba.DrawIsGoomba drawX drawY)
  goombaSprite := g.goomba.goombaSprite
  drawX := drawX
  drawY := drawY
  marioXPos := g.mario.marioXPos
  marioYPos := g.mario.marioYPos
  goombaXPos := g.goomba.goombaXPos
  goombaYPos := g.goomba.goombaYPos
  blockID := g.blocks.blockIdOut board drawX drawY

def pixelAddress (board : Board) (drawX drawY : BitVec 10) (g : Game) : BitVec 16 :=
  (g.colorMapper board drawX drawY).pixelAddress

end Game

structure Color where
  red : BitVec 8
  green : BitVec 8
  blue : BitVec 8
  deriving DecidableEq, Repr

/-- The palette; an id that no sprite uses shows in pink. -/
def palette (pixelPaletteID : BitVec 4) : Color :=
  if pixelPaletteID = 0x0#4 then ⟨0x0A#8, 0xB1#8, 0xFF#8⟩
  else if pixelPaletteID = 0x1#4 then ⟨0xFF#8, 0x31#8, 0x18#8⟩
  else if pixelPaletteID = 0x2#4 then ⟨0xFF#8, 0xC6#8, 0xB5#8⟩
  else if pixelPaletteID = 0x3#4 then ⟨0x9C#8, 0x4A#8, 0x00#8⟩
  else if pixelPaletteID = 0x4#4 then ⟨0xE7#8, 0x5A#8, 0x10#8⟩
  else if pixelPaletteID = 0x5#4 then ⟨0xC6#8, 0x63#8, 0x00#8⟩
  else if pixelPaletteID = 0x6#4 then ⟨0xD6#8, 0x5A#8, 0x00#8⟩
  else if pixelPaletteID = 0x7#4 then ⟨0xF7#8, 0xD6#8, 0xB5#8⟩
  else if pixelPaletteID = 0x8#4 then ⟨0xFF#8, 0x94#8, 0x5A#8⟩
  else if pixelPaletteID = 0x9#4 then ⟨0xE6#8, 0x9C#8, 0x21#8⟩
  else if pixelPaletteID = 0xA#4 then ⟨0xBD#8, 0xFF#8, 0x18#8⟩
  else if pixelPaletteID = 0xB#4 then ⟨0x00#8, 0xAD#8, 0x00#8⟩
  else if pixelPaletteID = 0xC#4 then ⟨0x00#8, 0x00#8, 0x00#8⟩
  else ⟨0xFF#8, 0x00#8, 0xFF#8⟩

abbrev SpriteSheet := BitVec 16 → BitVec 4

/-- `data_Out` of `frameRAM`, wired to `pixelPaletteID`, and `Red`, `Green`, `Blue`. -/
structure ColorRegisters where
  pixelPaletteID : BitVec 4
  color : Color
  deriving DecidableEq, Repr

/-- One edge of `Clk`: the palette is looked up with the id of the cycle before. -/
def ColorRegisters.step (spriteSheet : SpriteSheet) (pixelAddress : BitVec 16)
    (r : ColorRegisters) : ColorRegisters where
  pixelPaletteID := spriteSheet pixelAddress
  color := palette r.pixelPaletteID

structure Screen where
  toplevel : Toplevel
  registers : ColorRegisters

namespace Screen

def drawX (s : Screen) : BitVec 10 := s.toplevel.clock.vga.hCounter

def drawY (s : Screen) : BitVec 10 := s.toplevel.clock.vga.vCounter

def pixelAddress (board : Board) (s : Screen) : BitVec 16 :=
  s.toplevel.game.pixelAddress board s.drawX s.drawY

def step (board : Board) (spriteSheet : SpriteSheet) (input : Input) (s : Screen) : Screen where
  toplevel := s.toplevel.step board input
  registers := s.registers.step spriteSheet (s.pixelAddress board)

end Screen

end FPGAMario
