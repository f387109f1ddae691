import FPGAMario.BlockArray
import FPGAMario.Coin
import FPGAMario.FrameClock

/-! `FPGAMario_toplevel`: the game modules, the level memory and the registers of the top
level around them, clocked by `CLOCK_50`. -/

namespace FPGAMario

open Hdl

/-- Inputs of one cycle: `KEY[0]`, low while pressed, and the keycode of the NIOS system. -/
structure Input where
  key0 : Bool
  keycode : BitVec 8
  deriving DecidableEq, Repr

@[ext] structure Game where
  resetH : Bool
  score : BitVec 8
  startCoin : BitVec 4
  mario : Mario
  goomba : Goomba
  blocks : BlockArray
  level : SyncRom (BitVec 8) (BitVec 36)
  coins : Fin 4 → Coin

namespace Game

/-- The six control bits of a level word. -/
def control (word : BitVec 36) : BitVec 6 := word.extractLsb' 30 6

def blockBits (word : BitVec 36) : BitVec 30 := word.extractLsb' 0 30

def newColControl (g : Game) : BitVec 6 := control g.level.q

def newBlockId (g : Game) : BitVec 30 := blockBits g.level.q

/-- `new_col_control[4:3]` as a slot number. -/
def coinSlot (w : BitVec 6) : Fin 4 := ⟨(w.extractLsb' 3 2).toNat, (w.extractLsb' 3 2).isLt⟩

def startCoinIn (w : BitVec 6) : BitVec 4 :=
  if w.getLsbD 5 then
    if w.extractLsb' 3 2 = 0b00#2 then 0b0001#4
    else if w.extractLsb' 3 2 = 0b01#2 then 0b0010#4
    else if w.extractLsb' 3 2 = 0b10#2 then 0b0100#4
    else 0b1000#4
  else 0#4

/-- `new_col_control[3:2]`, wired to `start_block` of every coin. -/
def startBlock (w : BitVec 6) : BitVec 2 := w.extractLsb' 2 2

def bit8 (signal : Bool) : BitVec 8 := (BitVec.ofBool signal).setWidth 8

def addSlots {Value : Type} [Add Value] (base : Value) (term : Fin 4 → Value) : Value :=
  base + term 0 + term 1 + term 2 + term 3

def scoreIn (g : Game) : BitVec 8 :=
  addSlots g.score (fun i => bit8 (g.coins i).coinTaken) + 2#8 * bit8 g.goomba.goombaKilled

theorem scoreIn_idle (g : Game) (untaken : ∀ i, (g.coins i).coinTaken = false)
    (unpaid : g.goomba.goombaKilled = false) : g.scoreIn = g.score := by
  simp [scoreIn, addSlots, untaken, unpaid, bit8]

def marioPolls (board : Board) (g : Game) : MarioPolls :=
  g.blocks.marioPolls board g.mario.marioXPos g.mario.marioYPos

def goombaPolls (board : Board) (g : Game) : GoombaPolls :=
  g.blocks.goombaPolls board g.goomba.goombaXPos g.goomba.goombaYPos

/-- One edge of `Clk`. The port `kill` of the goomba is not connected. -/
def step (board : Board) (pulses : Pulses) (input : Input) (g : Game) : Game :=
  let shift := g.mario.shift pulses.mario
  { resetH := !input.key0 || g.goomba.killMario
    score := g.scoreIn
    startCoin := startCoinIn g.newColControl
    mario := g.mario.step g.resetH pulses.mario (input.keycode.setWidth 16) (g.marioPolls board)
    goomba := g.goomba.step g.resetH false (g.newColControl.getLsbD 0) pulses.goomba shift
      500#10 440#10 g.mario.marioXPos g.mario.marioYPos (g.goombaPolls board)
    blocks := g.blocks.step board g.resetH shift g.newBlockId g.mario.marioXPos g.mario.marioYPos
    level := g.level.step board.levelMem g.blocks.currentBlockCol
    coins := fun i => (g.coins i).step g.resetH (g.startCoin.getLsbD i.val) (pulses.coin i) shift
      g.mario.marioXPos g.mario.marioYPos (startBlock g.newColControl) }

section StepFields

variable (board : Board) (pulses : Pulses) (input : Input) (g : Game)

@[simp] theorem step_resetH :
    (g.step board pulses input).resetH = (!input.key0 || g.goomba.killMario) := rfl

@[simp] theorem step_score : (g.step board pulses input).score = g.scoreIn := rfl

@[simp] theorem step_startCoin :
    (g.step board pulses input).startCoin = startCoinIn g.newColControl := rfl

theorem step_mario : (g.step board pulses input).mario =
    g.mario.step g.resetH pulses.mario (input.keycode.setWidth 16) (g.marioPolls board) := rfl

theorem step_goomba : (g.step board pulses input).goomba =
    g.goomba.step g.resetH false (g.newColControl.getLsbD 0) pulses.goomba
      (g.mario.shift pulses.mario) 500#10 440#10 g.mario.marioXPos g.mario.marioYPos
      (g.goombaPolls board) := rfl

theorem step_blocks : (g.step board pulses input).blocks =
    g.blocks.step board g.resetH (g.mario.shift pulses.mario) g.newBlockId
      g.mario.marioXPos g.mario.marioYPos := rfl

@[simp] theorem step_level : (g.step board pulses input).level =
    g.level.step board.levelMem g.blocks.currentBlockCol := rfl

theorem step_coins (i : Fin 4) : (g.step board pulses input).coins i =
    (g.coins i).step g.resetH (g.startCoin.getLsbD i.val) (pulses.coin i)
      (g.mario.shift pulses.mario) g.mario.marioXPos g.mario.marioYPos
      (startBlock g.newColControl) := rfl

end StepFields

end Game

structure Toplevel where
  clock : FrameClock
  game : Game

namespace Toplevel

def step (board : Board) (input : Input) (s : Toplevel) : Toplevel where
  clock := s.clock.step s.game.resetH
  game := s.game.step board s.clock.pulses input

def shift (s : Toplevel) : Bool := s.game.mario.shift s.clock.marioEdge.rising

abbrev run (board : Board) (start : Toplevel) (inputs : Nat → Input) : Nat → Toplevel :=
  Hdl.run (step board) start inputs

@[simp] theorem run_start (board : Board) (start : Toplevel) (inputs : Nat → Input) :
    run board start inputs 0 = start := rfl

theorem run_game (board : Board) (start : Toplevel) (inputs : Nat → Input) (n : Nat) :
    (run board start inputs (n + 1)).game =
      (run board start inputs n).game.step board (run board start inputs n).clock.pulses
        (inputs n) := rfl

theorem run_clock (board : Board) (start : Toplevel) (inputs : Nat → Input) (n : Nat) :
    (run board start inputs (n + 1)).clock =
      (run board start inputs n).clock.step (run board start inputs n).game.resetH := rfl

end Toplevel

end FPGAMario
