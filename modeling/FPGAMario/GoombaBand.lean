import FPGAMario.ResetWindow

/-! Where a live goomba can be, whatever its polls say, and levels that have none. -/

namespace FPGAMario

open Hdl Game

namespace Goomba

/-- A goomba that reaches the left edge dies before its position can wrap; towards the right
it is only held back by the blocks and the screen edge that `turnIn` looks at. -/
structure InBand (g : Goomba) : Prop where
  yPos : g.isAlive = true → g.goombaYPos = 420#10
  yMotion : g.isAlive = true → g.goombaYMotion = 0#10
  xMotion : g.isAlive = true → g.goombaXMotion = 1#10 ∨ g.goombaXMotion = 1023#10
  left : g.isAlive = true → 59 ≤ g.goombaXPos.toNat
  right : g.isAlive = true → g.goombaXPos.toNat ≤ 1004
  killed : g.goombaKilled = true → g.isAlive = false

theorem inBand_of_dead {g : Goomba} (dead : g.isAlive = false) : g.InBand := by
  constructor <;> intro alive
  case killed => exact dead
  all_goals
    rw [dead] at alive
    cases alive

theorem startValue_inBand : (startValue 500#10 440#10).InBand := by
  constructor <;> decide

/-- A live goomba that is neither under Mario nor touching him and has not left the screen. -/
def Walks (marioXPos marioYPos : BitVec 10) (g : Goomba) : Prop :=
  g.isAlive = true ∧ ¬ g.Squished marioXPos marioYPos ∧ ¬ g.Touches marioXPos marioYPos ∧
    ¬ g.goombaXPos + goombaXSize < goombaXMin

theorem frameStep_walks (shift : Bool) (marioXPos marioYPos : BitVec 10) (polls : GoombaPolls)
    (g : Goomba) (walks : g.Walks marioXPos marioYPos) :
    g.frameStep shift marioXPos marioYPos polls = walk shift polls g := by
  rcases walks with ⟨alive, notSquished, notTouching, inside⟩
  rw [frameStep, if_pos alive, if_neg notSquished, if_neg notTouching, if_neg inside]

theorem turnIn_cases (polls : GoombaPolls) (g : Goomba)
    (motion : g.goombaXMotion = 1#10 ∨ g.goombaXMotion = 1023#10) :
    turnIn polls g = 1#10 ∨ turnIn polls g = 1023#10 := by
  unfold turnIn
  split
  · exact Or.inl rfl
  · split
    · exact Or.inr rfl
    · exact motion

theorem walk_xPos (shift : Bool) (polls : GoombaPolls) (g : Goomba) (band : g.InBand)
    (alive : g.isAlive = true) :
    let scrolled : Int := g.goombaXPos.toNat - (if shift then 40 else 0)
    ((walk shift polls g).goombaXPos.toNat : Int) = scrolled + 1 ∨
      ((walk shift polls g).goombaXPos.toNat : Int) = scrolled - 1 := by
  have low := band.left alive
  have high := band.right alive
  cases shift <;> rcases band.xMotion alive with motion | motion <;>
    simp only [walk, motion, if_true, if_false, Bool.false_eq_true] <;> bv_omega

theorem frameStep_inBand (shift : Bool) (marioXPos marioYPos : BitVec 10) (polls : GoombaPolls)
    (g : Goomba) (band : g.InBand) :
    (g.frameStep shift marioXPos marioYPos polls).InBand := by
  by_cases alive : g.isAlive = true
  swap
  · rw [frameStep, if_neg alive]
    exact inBand_of_dead rfl
  by_cases squished : g.Squished marioXPos marioYPos
  · rw [frameStep, if_pos alive, if_pos squished]
    exact inBand_of_dead rfl
  by_cases touching : g.Touches marioXPos marioYPos
  · rw [frameStep, if_pos alive, if_neg squished, if_pos touching]
    exact ⟨band.yPos, fun _ => rfl, band.xMotion, band.left, band.right,
      fun killed => by cases killed⟩
  by_cases gone : g.goombaXPos + goombaXSize < goombaXMin
  · rw [frameStep, if_pos alive, if_neg squished, if_neg touching, if_pos gone]
    exact inBand_of_dead rfl
  rw [frameStep_walks _ _ _ _ _ ⟨alive, squished, touching, gone⟩]
  have low := band.left alive
  have high := band.right alive
  have position := walk_xPos shift polls g band alive
  constructor <;> intro premise
  case yPos => simp [walk, band.yPos alive, band.yMotion alive]
  case yMotion => rfl
  case xMotion => exact turnIn_cases polls g (band.xMotion alive)
  case left =>
    have wide : 100 ≤ g.goombaXPos.toNat := by bv_omega
    split at position <;> omega
  case right =>
    have narrow : g.goombaXPos.toNat ≤ 1003 := by bv_omega
    split at position <;> omega
  case killed => cases premise

theorem step_inBand (reset start pulse shift : Bool) (marioXPos marioYPos : BitVec 10)
    (polls : GoombaPolls) (g : Goomba) (band : g.InBand) :
    (g.step reset false start pulse shift 500#10 440#10 marioXPos marioYPos polls).InBand := by
  unfold step
  split
  · exact inBand_of_dead rfl
  · split
    · exact startValue_inBand
    · split
      · exact frameStep_inBand shift marioXPos marioYPos polls g band
      · exact ⟨band.yPos, fun _ => rfl, band.xMotion, band.left, band.right,
          fun killed => by cases killed⟩

end Goomba

theorem run_goomba_inBand (board : Board) (start : Toplevel) (inputs : Nat → Input)
    (reset : start.game.resetH = true) (n : Nat) :
    (sinceReset board start inputs n).game.goomba.InBand := by
  apply run_invariant (Toplevel.step board) start inputs (fun s => s.game.goomba.InBand)
  · intro input
    simp only [Toplevel.step, step_goomba, reset]
    exact Goomba.inBand_of_dead rfl
  · intro input s band
    apply Goomba.step_inBand
    exact band

section Peaceful

def Board.Unmarked (board : Board) : Prop :=
  ∀ a, (control (board.levelMem a)).getLsbD 0 = false

structure Game.Peaceful (g : Game) : Prop where
  unasked : g.newColControl.getLsbD 0 = false
  dead : g.goomba.isAlive = false
  harmless : g.goomba.killMario = false

variable {board : Board} (unmarked : board.Unmarked)

include unmarked

theorem Game.Peaceful.step {g : Game} (peaceful : g.Peaceful) (pulses : Pulses) (input : Input) :
    (g.step board pulses input).Peaceful := by
  have goomba : (g.step board pulses input).goomba.isAlive = false ∧
      (g.step board pulses input).goomba.killMario = false := by
    rw [Game.step_goomba, peaceful.unasked]
    cases reset : g.resetH with
    | true => exact ⟨rfl, rfl⟩
    | false =>
        cases pulse : pulses.goomba with
        | true => simp [Goomba.step, Goomba.frameStep, peaceful.dead, peaceful.harmless]
        | false => simp [Goomba.step, peaceful.dead, peaceful.harmless]
  exact ⟨unmarked _, goomba.1, goomba.2⟩

theorem run_peaceful (start : Toplevel) (inputs : Nat → Input) (reset : start.game.resetH = true)
    (n : Nat) : (sinceReset board start inputs n).game.Peaceful := by
  apply run_invariant (Toplevel.step board) start inputs (fun s => s.game.Peaceful)
  · intro input
    have goomba : (Toplevel.step board input start).game.goomba = Goomba.resetValue := by
      simp only [Toplevel.step, step_goomba, reset]
      rfl
    refine ⟨unmarked _, ?_, ?_⟩
    · rw [goomba]
      rfl
    · rw [goomba]
      rfl
  · intro input s peaceful
    exact peaceful.step unmarked _ input

theorem unmarked_resetH (start : Toplevel) (inputs : Nat → Input)
    (reset : start.game.resetH = true) (n : Nat) :
    (sinceReset board start inputs (n + 1)).game.resetH = !(inputs (n + 1)).key0 := by
  rw [Toplevel.run_game, step_resetH, (run_peaceful unmarked start inputs reset n).harmless,
    Bool.or_false]

theorem unmarked_running (inputs : Nat → Input) (released : ∀ k, (inputs k).key0 = true) (n : Nat) :
    (sinceReset board (Toplevel.held board) inputs n).game.resetH = false := by
  cases n with
  | zero =>
      rw [Toplevel.run_game, step_resetH, released 0]
      rfl
  | succ n =>
      rw [unmarked_resetH unmarked (Toplevel.held board) inputs rfl n, released (n + 1)]
      rfl

end Peaceful

end FPGAMario
