import FPGAMario.CoinRequest
import FPGAMario.Death
import Mathlib.Tactic.Linarith

/-! The game from the end of that Reset to its first scroll: which coins and goombas the words
left on the ROM output bring back. -/

namespace FPGAMario

open Hdl Game BlockArray

namespace Coin

structure Fresh (c : Coin) : Prop where
  untaken : c.coinTaken = false
  atEdge : c.isRunning = true → c.coinXPos = 500#10

theorem Fresh.not_takenIn {c : Coin} (fresh : c.Fresh) (x y : BitVec 10) (far : x.toNat ≤ 300) :
    ¬ c.TakenIn x y := by
  intro taken
  rcases taken with ⟨near, running⟩
  have position : (500#10).toNat = 500 := rfl
  rw [fresh.atEdge running, marioDist, position] at near
  have square : (200 : Int) * 200 ≤
      ((x.toNat : Int) - (500 : Nat)) * ((x.toNat : Int) - (500 : Nat)) := by
    have left : (x.toNat : Int) - (500 : Nat) ≤ -200 := by omega
    nlinarith [left]
  have other := mul_self_nonneg (marioDist y c.coinYPos)
  simp only [coinSize] at near
  linarith

end Coin

namespace Game

/-- The game waits for its first scroll: column 10 is pending, and no coin has come near
Mario. -/
structure Waiting (board : Board) (g : Game) : Prop where
  running : g.resetH = false
  safe : g.goomba.killMario = false
  unpaid : g.goomba.goombaKilled = false
  level : g.level = ⟨10#8, board.levelMem 10#8⟩
  column : g.blocks.currentBlockCol = 10#8
  band : g.mario.InBand
  coins : ∀ i, (g.coins i).Fresh

namespace Waiting

variable {board : Board} {g : Game} (waiting : g.Waiting board)

include waiting

theorem untouched (i : Fin 4) :
    ¬ (g.coins i).TakenIn g.mario.marioXPos g.mario.marioYPos :=
  (waiting.coins i).not_takenIn _ _ waiting.band.right

theorem word : g.newColControl = control (board.levelMem 10#8) := by
  rw [newColControl, waiting.level]

theorem coin_idle (i : Fin 4) : (g.idle board).coins i =
    if g.startCoin.getLsbD i.val then Coin.startValue (startBlock g.newColControl)
    else g.coins i := by
  have untaken := (waiting.coins i).untaken
  have untouched := waiting.untouched i
  rw [idle, step_coins, waiting.running]
  split
  · next started =>
      rw [started]
      rfl
  · next idle =>
      rw [Bool.not_eq_true] at idle
      rw [idle]
      rcases coin : g.coins i with ⟨x, y, taken, running⟩
      rw [coin] at untaken untouched
      obtain rfl : taken = false := untaken
      simp [Coin.step, Pulses.all, untouched]

theorem idle_waiting : (g.idle board).Waiting board where
  running := by rw [idle, step_resetH, waiting.safe]; rfl
  safe := idle_killMario board g waiting.safe
  unpaid := by
    rw [idle, step_goomba, waiting.running]
    simp only [Goomba.step, Pulses.all, Bool.or_self, Bool.false_eq_true, if_false]
    split <;> rfl
  level := by rw [idle, step_level, waiting.column, waiting.level]; rfl
  column := by
    rw [idle, step_keptCol board _ _ _ waiting.running rfl]
    exact waiting.column
  band := by
    rw [idle, step_mario]
    apply Mario.step_inBand
    exact waiting.band
  coins i := by
    rw [waiting.coin_idle i]
    split
    · exact ⟨rfl, fun _ => rfl⟩
    · exact waiting.coins i

theorem idle_score : (g.idle board).score = g.score := by
  rw [idle, step_score]
  exact scoreIn_idle g (fun i => (waiting.coins i).untaken) waiting.unpaid

theorem idle_lastColumn : (g.idle board).blocks.blockCols 9 = g.blocks.blockCols 9 := by
  have kept := (step_keptSlot board (Pulses.all false) ⟨true, 0#8⟩ g waiting.running rfl 9).2
  apply kept
  intro removes
  rcases removes with ⟨-, column⟩
  have right := waiting.band.right
  have left := waiting.band.left
  have nine : (9 : Fin 10).val = 9 := rfl
  simp only [nine, marioBlockX, gridIndex, BitVec.toNat_udiv, BitVec.toNat_sub,
    BitVec.toNat_ofNat, Nat.reducePow, Nat.reduceMod] at column
  omega

theorem idle_alive_iff : (g.idle board).goomba.isAlive = true ↔
    (control (board.levelMem 10#8)).getLsbD 0 = true ∨ g.goomba.isAlive = true := by
  rw [idle, step_goomba, waiting.running, waiting.word]
  cases (control (board.levelMem 10#8)).getLsbD 0 with
  | true => simp [Goomba.step, Goomba.startValue]
  | false => simp [Goomba.step, Pulses.all]

theorem idle_running_iff (i : Fin 4) : ((g.idle board).coins i).isRunning = true ↔
    g.startCoin.getLsbD i.val = true ∨ (g.coins i).isRunning = true := by
  rw [waiting.coin_idle i]
  split
  · next started => simp [started, Coin.startValue]
  · next idle => exact ⟨Or.inr, fun either => either.resolve_left idle⟩

theorem iterate_waiting (n : Nat) : ((idle board)^[n] g).Waiting board := by
  induction n with
  | zero => exact waiting
  | succ n ih =>
      rw [Function.iterate_succ_apply']
      exact ih.idle_waiting

theorem iterate_score (n : Nat) : ((idle board)^[n] g).score = g.score := by
  induction n with
  | zero => rfl
  | succ n ih => rw [Function.iterate_succ_apply', (waiting.iterate_waiting n).idle_score, ih]

theorem iterate_lastColumn (n : Nat) :
    ((idle board)^[n] g).blocks.blockCols 9 = g.blocks.blockCols 9 := by
  induction n with
  | zero => rfl
  | succ n ih => rw [Function.iterate_succ_apply', (waiting.iterate_waiting n).idle_lastColumn, ih]

theorem iterate_alive_iff (n : Nat) : ((idle board)^[n + 1] g).goomba.isAlive = true ↔
    (control (board.levelMem 10#8)).getLsbD 0 = true ∨ g.goomba.isAlive = true := by
  induction n with
  | zero => exact waiting.idle_alive_iff
  | succ n ih =>
      rw [Function.iterate_succ_apply', (waiting.iterate_waiting (n + 1)).idle_alive_iff, ih,
        ← or_assoc, or_self]

theorem iterate_running_iff (n : Nat) (i : Fin 4) :
    (((idle board)^[n + 2] g).coins i).isRunning = true ↔
      (startCoinIn (control (board.levelMem 10#8))).getLsbD i.val = true ∨
        g.startCoin.getLsbD i.val = true ∨ (g.coins i).isRunning = true := by
  have requested (k : Nat) : ((idle board)^[k + 1] g).startCoin =
      startCoinIn (control (board.levelMem 10#8)) := by
    rw [Function.iterate_succ_apply', ← (waiting.iterate_waiting k).word]
    rfl
  induction n with
  | zero =>
      rw [Function.iterate_succ_apply', (waiting.iterate_waiting 1).idle_running_iff, requested]
      exact or_congr_right (waiting.idle_running_iff i)
  | succ n ih =>
      rw [Function.iterate_succ_apply', (waiting.iterate_waiting (n + 2)).idle_running_iff,
        requested, or_congr_right ih, ← or_assoc, or_self]

end Waiting

structure Deserted (g : Game) : Prop where
  dead : g.goomba.isAlive = false
  coins : ∀ i, (g.coins i).isRunning = false

def Barren (w : BitVec 6) : Prop := w.getLsbD 5 = false ∧ w.getLsbD 0 = false

theorem barren_startCoinIn (w : BitVec 6) (barren : Barren w) : startCoinIn w = 0#4 := by
  rw [startCoinIn, barren.1]
  rfl

theorem startCoinIn_empty_iff (w : BitVec 6) :
    (∀ i : Fin 4, (startCoinIn w).getLsbD i.val = false) ↔ w.getLsbD 5 = false := by
  constructor
  · intro empty
    by_contra enabled
    rw [Bool.not_eq_false] at enabled
    have requested := (startCoinIn_iff w (coinSlot w)).mpr ⟨enabled, rfl⟩
    rw [empty] at requested
    cases requested
  · intro disabled i
    rw [← Bool.not_eq_true, startCoinIn_iff, disabled]
    intro requested
    apply absurd requested.1
    decide

end Game

section Revival

variable (board : Board) (c score : BitVec 8) (input : Input)

def Game.revived : Game := (Game.reborn board c score).step board (Pulses.all true) input

theorem revived_goomba : (Game.revived board c score input).goomba =
    if (control (board.levelMem c)).getLsbD 0 then Goomba.startValue 500#10 440#10
    else { Goomba.resetValue with spriteTimer := 0xF#4 } := by
  have word : (Game.reborn board c score).newColControl = control (board.levelMem c) := rfl
  rw [Game.revived, step_goomba, word]
  cases (control (board.levelMem c)).getLsbD 0 <;> rfl

theorem revived_coins (i : Fin 4) : (Game.revived board c score input).coins i =
    if (startCoinIn (control (board.levelMem c))).getLsbD i.val then
      Coin.startValue (startBlock (control (board.levelMem c)))
    else Coin.resetValue := by
  have requested : (Game.reborn board c score).startCoin =
      startCoinIn (control (board.levelMem c)) := rfl
  rw [Game.revived, step_coins, requested]
  cases (startCoinIn (control (board.levelMem c))).getLsbD i.val with
  | true => rfl
  | false =>
      simp [Game.reborn, Coin.step, Coin.resetValue, Coin.TakenIn, Coin.coinXMin]

theorem revived_waiting (released : input.key0 = true) :
    (Game.revived board c score input).Waiting board where
  running := by
    rw [Game.revived, step_resetH, released]
    rfl
  safe := by
    rw [revived_goomba]
    split <;> rfl
  unpaid := by
    rw [revived_goomba]
    split <;> rfl
  level := rfl
  column := step_keptCol board (Pulses.all true) input _ rfl rfl
  band := by
    rw [Game.revived, step_mario]
    apply Mario.step_inBand
    exact Mario.resetValue_inBand
  coins i := by
    rw [revived_coins]
    split
    · exact ⟨rfl, fun _ => rfl⟩
    · exact ⟨rfl, fun running => by cases running⟩

theorem revived_score : (Game.revived board c score input).score = score := by
  rw [Game.revived, step_score, scoreIn_idle _ (fun _ => rfl) rfl]
  rfl

theorem revived_lastColumn :
    (Game.revived board c score input).blocks.blockCols 9 = blockBits (board.levelMem c) := by
  have kept := (step_keptSlot board (Pulses.all true) input (Game.reborn board c score) rfl rfl
    9).2
  have column : (marioBlockX (Game.reborn board c score).mario.marioXPos).toNat = 0 := by
    change (marioBlockX Mario.resetValue.marioXPos).toNat = 0
    decide
  apply kept
  intro removes
  rcases removes with ⟨-, nine⟩
  rw [column] at nine
  cases nine

/-- Whether the game is deserted soon after a death is up to two control words. -/
theorem revived_deserted_iff (released : input.key0 = true) (n : Nat) :
    Deserted ((idle board)^[n + 2] (Game.revived board c score input)) ↔
      Barren (control (board.levelMem c)) ∧ Barren (control (board.levelMem 10#8)) := by
  have waiting := revived_waiting board c score input released
  have alive : ((idle board)^[n + 2] (Game.revived board c score input)).goomba.isAlive = true ↔
      (control (board.levelMem 10#8)).getLsbD 0 = true ∨
        (control (board.levelMem c)).getLsbD 0 = true := by
    rw [waiting.iterate_alive_iff (n + 1), revived_goomba]
    cases (control (board.levelMem c)).getLsbD 0 with
    | true => simp [Goomba.startValue]
    | false => simp [Goomba.resetValue]
  have running (i : Fin 4) :
      (((idle board)^[n + 2] (Game.revived board c score input)).coins i).isRunning = true ↔
        (startCoinIn (control (board.levelMem 10#8))).getLsbD i.val = true ∨
          (startCoinIn (control (board.levelMem c))).getLsbD i.val = true := by
    have requested : (Game.revived board c score input).startCoin =
        startCoinIn (control (board.levelMem c)) := rfl
    rw [waiting.iterate_running_iff n i, revived_coins, requested]
    cases (startCoinIn (control (board.levelMem c))).getLsbD i.val with
    | true => simp [Coin.startValue]
    | false => simp [Coin.resetValue]
  constructor
  · intro deserted
    rcases deserted with ⟨dead, off⟩
    rw [← Bool.not_eq_true, alive, not_or, Bool.not_eq_true, Bool.not_eq_true] at dead
    have empty (i : Fin 4) := off i
    simp only [← Bool.not_eq_true, running, not_or] at empty
    simp only [Bool.not_eq_true] at empty
    exact ⟨⟨(startCoinIn_empty_iff _).mp (fun i => (empty i).2), dead.2⟩,
      ⟨(startCoinIn_empty_iff _).mp (fun i => (empty i).1), dead.1⟩⟩
  · intro barren
    rcases barren with ⟨⟨disabled, unmarked⟩, ⟨disabledNext, unmarkedNext⟩⟩
    constructor
    · rw [← Bool.not_eq_true, alive, unmarked, unmarkedNext]
      decide
    · intro i
      rw [← Bool.not_eq_true, running, (startCoinIn_empty_iff _).mpr disabled,
        (startCoinIn_empty_iff _).mpr disabledNext]
      decide

theorem revived_congr (other : BitVec 8)
    (blocks : blockBits (board.levelMem c) = blockBits (board.levelMem other))
    (barren : Barren (control (board.levelMem c)))
    (barrenOther : Barren (control (board.levelMem other))) :
    Game.revived board c score input = Game.revived board other score input := by
  have cols : (Game.reborn board c score).blocks = (Game.reborn board other score).blocks := by
    simp only [Game.reborn, blocks]
  have start := barren_startCoinIn _ barren
  have startOther := barren_startCoinIn _ barrenOther
  refine Game.ext rfl rfl ?_ ?_ ?_ ?_ rfl ?_
  · exact start.trans startOther.symm
  · rw [Game.revived, Game.revived, step_mario, step_mario, Game.marioPolls, Game.marioPolls, cols]
    rfl
  · rw [revived_goomba, revived_goomba, barren.2, barrenOther.2]
  · rw [Game.revived, Game.revived, step_blocks, step_blocks, cols]
    rfl
  · funext i
    rw [revived_coins, revived_coins, start, startOther]
    simp

end Revival

end FPGAMario
