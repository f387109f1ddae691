import FPGAMario.Toplevel

/-! What the Reset branch of `block_array` leaves in the window, and the state in which
`KEY[0]` holds the board. -/

namespace FPGAMario

open Hdl Game

def BlockArray.AtLevelStart (board : Board) (a : BlockArray) : Prop :=
  (∀ i : Fin 10, a.blockCols i = blockBits (board.levelMem (BitVec.ofNat 8 i.val))) ∧
    a.currentBlockCol = 10#8

/-- The word on the ROM output in the last of `n` Reset cycles that start in `g`: the
address has been 10 for long enough from the fourth cycle on. -/
def Game.lastResetWord (board : Board) (g : Game) : Nat → BitVec 36
  | 0 => g.level.q
  | 1 => g.level.q
  | 2 => board.levelMem g.level.address
  | 3 => board.levelMem g.blocks.currentBlockCol
  | _ => board.levelMem 10#8

/-- The game while `KEY[0]` is held: every register has its Reset value, and the ROM shows
column 10. -/
def Game.held (board : Board) : Game where
  resetH := true
  score := 0#8
  startCoin := startCoinIn (control (board.levelMem 10#8))
  mario := Mario.resetValue
  goomba := Goomba.resetValue
  blocks := ⟨fun _ => blockBits (board.levelMem 10#8), 10#8⟩
  level := ⟨10#8, board.levelMem 10#8⟩
  coins := fun _ => Coin.resetValue

def Toplevel.held (board : Board) : Toplevel where
  clock :=
    { vgaClk := true
      vga := ⟨false, false, false, 0#10, 0#10⟩
      marioEdge := ⟨true, false⟩
      goombaEdge := ⟨true, false⟩
      coinEdge := fun _ => ⟨true, false⟩ }
  game := Game.held board

theorem held_synced (board : Board) : (Toplevel.held board).clock.Synced :=
  ⟨rfl, fun _ => rfl⟩

section Reset

variable (board : Board) (start : Toplevel) (inputs : Nat → Input)

/-- The state `n` cycles after the Reset cycle that starts the run. -/
abbrev sinceReset (n : Nat) : Toplevel := Toplevel.run board start inputs (n + 1)

theorem sinceReset_add (m n : Nat) : sinceReset board start inputs (m + n) =
    Toplevel.run board (sinceReset board start inputs m) (fun k => inputs (m + 1 + k)) n := by
  rw [sinceReset, Nat.add_right_comm, Toplevel.run, run_add]

def FramePulse (n : Nat) : Prop :=
  (sinceReset board start inputs n).clock.marioEdge.rising = true

theorem reset_step (n : Nat) (reset : (Toplevel.run board start inputs n).game.resetH = true) :
    (Toplevel.run board start inputs (n + 1)).game.blocks =
      ⟨fun _ => (Toplevel.run board start inputs n).game.newBlockId, 10#8⟩ := by
  rw [Toplevel.run_game, step_blocks, reset]
  rfl

theorem level_q_two (n : Nat) :
    (Toplevel.run board start inputs (n + 2)).game.level.q =
      board.levelMem (Toplevel.run board start inputs n).game.blocks.currentBlockCol := rfl

theorem reset_word (n : Nat)
    (held : ∀ k, k < n + 1 → (Toplevel.run board start inputs k).game.resetH = true) :
    (Toplevel.run board start inputs n).game.level.q =
      start.game.lastResetWord board (n + 1) := by
  match n with
  | 0 => rfl
  | 1 => rfl
  | 2 => rfl
  | n + 3 =>
      rw [level_q_two, reset_step board start inputs n (held n (by omega))]
      rfl

theorem reset_blocks (n : Nat) (positive : 1 ≤ n)
    (held : ∀ k, k < n → (Toplevel.run board start inputs k).game.resetH = true) :
    (Toplevel.run board start inputs n).game.blocks =
      ⟨fun _ => blockBits (start.game.lastResetWord board n), 10#8⟩ := by
  obtain ⟨last, rfl⟩ : ∃ last, n = last + 1 := ⟨n - 1, by omega⟩
  rw [reset_step board start inputs last (held last (Nat.lt_succ_self last)), newBlockId,
    reset_word board start inputs last held]

/-- After `n` Reset cycles the window is the start of the level exactly when the first ten
columns all hold the blocks of the single word the loop has copied. -/
theorem reset_atLevelStart_iff (n : Nat) (positive : 1 ≤ n)
    (held : ∀ k, k < n → (Toplevel.run board start inputs k).game.resetH = true) :
    (Toplevel.run board start inputs n).game.blocks.AtLevelStart board ↔
      ∀ i : Fin 10, blockBits (board.levelMem (BitVec.ofNat 8 i.val)) =
        blockBits (start.game.lastResetWord board n) := by
  rw [reset_blocks board start inputs n positive held]
  constructor
  · intro loaded i
    exact (loaded.1 i).symm
  · intro same
    exact ⟨fun i => (same i).symm, rfl⟩

def numberedBoard : Board where
  levelMem address := address.setWidth 36
  outside _ _ _ := 0#3

def shortPress (n : Nat) : Input := ⟨decide (3 ≤ n), 0#8⟩

theorem shortPress_held (k : Nat) (bound : k < 4) :
    (Toplevel.run numberedBoard (Toplevel.held numberedBoard) shortPress k).game.resetH =
      true := by
  match k with
  | 0 | 1 | 2 | 3 => rfl

theorem reset_atLevelStart_iff_numbered :
    (Toplevel.run numberedBoard (Toplevel.held numberedBoard) shortPress 4).game.blocks.AtLevelStart
        numberedBoard ↔
      ∀ i : Fin 10, blockBits (numberedBoard.levelMem (BitVec.ofNat 8 i.val)) =
        blockBits ((Game.held numberedBoard).lastResetWord numberedBoard 4) :=
  reset_atLevelStart_iff numberedBoard (Toplevel.held numberedBoard) shortPress 4 (by decide)
    shortPress_held

/-- After four Reset cycles all ten slots hold column 10. -/
theorem numbered_not_atLevelStart :
    (∀ k, k < 4 → (Toplevel.run numberedBoard (Toplevel.held numberedBoard)
      shortPress k).game.resetH = true) ∧
    (Toplevel.run numberedBoard (Toplevel.held numberedBoard) shortPress 4).game.resetH = false ∧
    ¬ (Toplevel.run numberedBoard (Toplevel.held numberedBoard)
      shortPress 4).game.blocks.AtLevelStart numberedBoard := by
  refine ⟨shortPress_held, rfl, ?_⟩
  intro loaded
  have first := loaded.1 0
  rw [reset_blocks numberedBoard _ shortPress 4 (by decide) shortPress_held] at first
  apply absurd first
  decide

end Reset

end FPGAMario
