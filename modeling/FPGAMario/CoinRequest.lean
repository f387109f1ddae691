import FPGAMario.Scrolling
import FPGAMario.Script

/-! What becomes of the coin request of a level column: the slot passes through `start_coin`,
the height does not. -/

namespace FPGAMario

open Hdl Game BlockArray

section Decoder

theorem startCoinIn_iff (w : BitVec 6) (i : Fin 4) :
    (startCoinIn w).getLsbD i.val = true ↔ w.getLsbD 5 = true ∧ coinSlot w = i := by
  revert w i
  decide

/-- `new_col_control[2:1]`, where the level keeps the height of a coin. -/
def coinHeight (w : BitVec 6) : BitVec 2 := w.extractLsb' 1 2

theorem startValue_coinYPos (block : BitVec 2) :
    (Coin.startValue block).coinYPos.toNat = 140 + 40 * block.toNat := by
  revert block
  decide

theorem coinYPos_injective (first second : BitVec 2)
    (same : (Coin.startValue first).coinYPos = (Coin.startValue second).coinYPos) :
    first = second := by
  have heights := congrArg BitVec.toNat same
  rw [startValue_coinYPos, startValue_coinYPos] at heights
  apply BitVec.eq_of_toNat_eq
  omega

end Decoder

section Pipeline

variable (board : Board) (start : Toplevel) (inputs : Nat → Input)

theorem startCoin_three (n : Nat) :
    (Toplevel.run board start inputs (n + 3)).game.startCoin = startCoinIn
      (control (board.levelMem (Toplevel.run board start inputs n).game.blocks.currentBlockCol)) :=
  rfl

theorem coin_started (n : Nat) (i : Fin 4)
    (running : (Toplevel.run board start inputs n).game.resetH = false)
    (started : (Toplevel.run board start inputs n).game.startCoin.getLsbD i.val = true) :
    (Toplevel.run board start inputs (n + 1)).game.coins i =
      Coin.startValue (startBlock (Toplevel.run board start inputs n).game.newColControl) := by
  rw [Toplevel.run_game, step_coins, running, started]
  rfl

theorem coin_reset (n : Nat) (i : Fin 4)
    (reset : (Toplevel.run board start inputs n).game.resetH = true) :
    (Toplevel.run board start inputs (n + 1)).game.coins i = Coin.resetValue := by
  rw [Toplevel.run_game, step_coins, reset]
  rfl

theorem goomba_started (n : Nat)
    (running : (Toplevel.run board start inputs n).game.resetH = false)
    (started : (Toplevel.run board start inputs n).game.newColControl.getLsbD 0 = true) :
    (Toplevel.run board start inputs (n + 1)).game.goomba =
      Goomba.startValue 500#10 440#10 := by
  rw [Toplevel.run_game, step_goomba, running, started]
  rfl

end Pipeline

section Decoding

/-- The board has given a level column what its control word asks for: a coin in the slot of
bits 4:3 at the height of bits 2:1, and a goomba for bit 0. -/
structure Granted (w : BitVec 6) (g : Game) : Prop where
  running : (g.coins (coinSlot w)).isRunning = true
  height : (g.coins (coinSlot w)).coinYPos.toNat = 140 + 40 * (coinHeight w).toNat
  goomba : w.getLsbD 0 = true →
    g.goomba.isAlive = true ∧ g.goomba.goombaXPos = 500#10 ∧ g.goomba.goombaYPos = 420#10

variable (board : Board) (start : Toplevel) (inputs : Nat → Input)

/-- A column that asks for a coin and has been pending for five cycles is granted its request
exactly when no Reset came in between and bits 3:2 agree with bits 2:1. -/
theorem request_granted_iff (n : Nat) (c : BitVec 8)
    (pending : ∀ k, k ≤ 4 →
      (Toplevel.run board start inputs (n + k)).game.blocks.currentBlockCol = c)
    (enabled : (control (board.levelMem c)).getLsbD 5 = true) :
    Granted (control (board.levelMem c)) (Toplevel.run board start inputs (n + 4)).game ↔
      (Toplevel.run board start inputs (n + 3)).game.resetH = false ∧
        startBlock (control (board.levelMem c)) = coinHeight (control (board.levelMem c)) := by
  have slot : (Toplevel.run board start inputs (n + 3)).game.startCoin.getLsbD
      (coinSlot (control (board.levelMem c))).val = true := by
    have column : (Toplevel.run board start inputs n).game.blocks.currentBlockCol = c :=
      pending 0 (by omega)
    rw [startCoin_three, column]
    exact (startCoinIn_iff _ _).mpr ⟨enabled, rfl⟩
  have word : (Toplevel.run board start inputs (n + 3)).game.newColControl =
      control (board.levelMem c) := by
    rw [newColControl, level_q_two board start inputs (n + 1), pending 1 (by omega)]
  cases reset : (Toplevel.run board start inputs (n + 3)).game.resetH with
  | true =>
      constructor
      · intro granted
        have running := granted.running
        rw [coin_reset board start inputs (n + 3) _ reset] at running
        cases running
      · intro condition
        rcases condition with ⟨absurd, -⟩
        cases absurd
  | false =>
      have coin := coin_started board start inputs (n + 3) _ reset slot
      rw [word] at coin
      constructor
      · intro granted
        have height := granted.height
        rw [coin, startValue_coinYPos] at height
        exact ⟨rfl, BitVec.eq_of_toNat_eq (by omega)⟩
      · intro condition
        rcases condition with ⟨-, same⟩
        refine ⟨?_, ?_, ?_⟩
        · rw [coin]
          rfl
        · rw [coin, startValue_coinYPos, same]
        · intro marked
          rw [← word] at marked
          rw [goomba_started board start inputs (n + 3) reset marked]
          exact ⟨rfl, rfl, rfl⟩

def staircaseBoard : Board where
  levelMem address := if address = 10#8 then 0b101010#6 ++ 0#30 else 0#36
  outside _ _ _ := 0#3

def released (_ : Nat) : Input := ⟨true, 0#8⟩

theorem staircase_pending (k : Nat) (few : k ≤ 4) :
    (Toplevel.run staircaseBoard (Toplevel.held staircaseBoard) released
      (1 + k)).game.blocks.currentBlockCol = 10#8 := by
  match k with
  | 0 | 1 | 2 | 3 | 4 => rfl

theorem request_granted_iff_staircase :
    Granted (control (staircaseBoard.levelMem 10#8))
        (Toplevel.run staircaseBoard (Toplevel.held staircaseBoard) released (1 + 4)).game ↔
      (Toplevel.run staircaseBoard (Toplevel.held staircaseBoard) released
          (1 + 3)).game.resetH = false ∧
        startBlock (control (staircaseBoard.levelMem 10#8)) =
          coinHeight (control (staircaseBoard.levelMem 10#8)) :=
  request_granted_iff staircaseBoard (Toplevel.held staircaseBoard) released 1 10#8
    staircase_pending rfl

/-- The coin stands at height 2. -/
theorem staircase_not_granted :
    (∀ k, k ≤ 4 → (Toplevel.run staircaseBoard (Toplevel.held staircaseBoard) released
      (1 + k)).game.blocks.currentBlockCol = 10#8) ∧
    (∀ k, k ≤ 4 → (Toplevel.run staircaseBoard (Toplevel.held staircaseBoard) released
      (1 + k)).game.resetH = false) ∧
    (control (staircaseBoard.levelMem 10#8)).getLsbD 5 = true ∧
    ¬ Granted (control (staircaseBoard.levelMem 10#8))
      (Toplevel.run staircaseBoard (Toplevel.held staircaseBoard) released (1 + 4)).game := by
  refine ⟨staircase_pending, ?_, rfl, ?_⟩
  · intro k few
    match k with
    | 0 | 1 | 2 | 3 | 4 => rfl
  · intro granted
    apply absurd granted.height
    decide

end Decoding

section Placed

variable (board : Board) (start : Toplevel) (inputs : Nat → Input)

structure ShiftsIn (c : BitVec 8) (s : Nat) : Prop where
  running : (sinceReset board start inputs s).game.resetH = false
  shift : (sinceReset board start inputs s).shift = true
  column : (sinceReset board start inputs s).game.blocks.currentBlockCol = c

theorem shiftsIn_placed (reset : start.game.resetH = true) {c : BitVec 8} {s : Nat}
    (shifted : ShiftsIn board start inputs c s) :
    (sinceReset board start inputs s).game.level.Settled board.levelMem c ∧
      (sinceReset board start inputs s).game.startCoin =
        startCoinIn (control (board.levelMem c)) ∧
      ∀ i, (startCoinIn (control (board.levelMem c))).getLsbD i.val = true →
        (sinceReset board start inputs s).game.coins i =
          Coin.startValue (startBlock (control (board.levelMem c))) := by
  have past := ((Mario.shift_eq_true _ _).mp shifted.shift).2
  rcases run_back board start inputs reset s (by omega) with ⟨m, rfl, last⟩
  have near := last.near
  rcases run_back board start inputs reset m (by omega) with ⟨l, rfl, previous⟩
  have close := previous.near
  have lastColumn := last.column.symm.trans shifted.column
  have previousColumn := previous.column.symm.trans lastColumn
  have settled := (run_fed board start inputs reset (l + 2)).settled
    (Nat.lt_of_lt_of_le (by decide) past)
  have settledLast := (run_fed board start inputs reset (l + 1)).settled (by omega)
  have settledPrevious := (run_fed board start inputs reset l).settled (by omega)
  rw [shifted.column] at settled
  rw [lastColumn] at settledLast
  rw [previousColumn] at settledPrevious
  have requested : (sinceReset board start inputs (l + 1)).game.startCoin =
      startCoinIn (control (board.levelMem c)) := by
    rw [Toplevel.run_game, step_startCoin, newColControl, settledPrevious.2]
  refine ⟨settled, ?_, ?_⟩
  · rw [Toplevel.run_game, step_startCoin, newColControl, settledLast.2]
  · intro i asked
    rw [← requested] at asked
    rw [coin_started board start inputs (l + 2) i last.running asked, newColControl,
      settledLast.2]

theorem shiftsIn_word (reset : start.game.resetH = true) {c : BitVec 8} {s : Nat}
    (shifted : ShiftsIn board start inputs c s) (k : Nat) (early : k < 3) :
    (sinceReset board start inputs (s + k)).game.newColControl = control (board.levelMem c) := by
  rcases shiftsIn_placed board start inputs reset shifted with ⟨⟨address, word⟩, -, -⟩
  match k with
  | 0 => exact congrArg control word
  | 1 =>
      have later : (sinceReset board start inputs (s + 1)).game.level.q =
          board.levelMem (sinceReset board start inputs s).game.level.address := rfl
      rw [newColControl, later, address]
  | 2 =>
      have later := level_q_two board start inputs (s + 1)
      rw [shifted.column] at later
      exact congrArg control later

theorem shiftsIn_startCoin (reset : start.game.resetH = true) {c : BitVec 8} {s : Nat}
    (shifted : ShiftsIn board start inputs c s) (k : Nat) (early : k < 4) :
    (sinceReset board start inputs (s + k)).game.startCoin =
      startCoinIn (control (board.levelMem c)) := by
  cases k with
  | zero => exact (shiftsIn_placed board start inputs reset shifted).2.1
  | succ k =>
      have word := shiftsIn_word board start inputs reset shifted k (by omega)
      exact congrArg startCoinIn word

/-- In the third cycle after the scroll, the ROM shows the next column. -/
theorem shiftsIn_nextWord {c : BitVec 8} {s : Nat} (shifted : ShiftsIn board start inputs c s) :
    (sinceReset board start inputs (s + 3)).game.newColControl =
        control (board.levelMem (c + 1#8)) ∧
      (sinceReset board start inputs (s + 4)).game.startCoin =
        startCoinIn (control (board.levelMem (c + 1#8))) := by
  have blocks : (sinceReset board start inputs (s + 1)).game.blocks = _ :=
    step_shiftBlocks board _ (inputs (s + 1)) _ shifted.running shifted.shift
  have column : (sinceReset board start inputs (s + 1)).game.blocks.currentBlockCol =
      c + 1#8 := by
    rw [blocks, shifted.column]
  have word := level_q_two board start inputs (s + 2)
  have requested := startCoin_three board start inputs (s + 2)
  rw [column] at word requested
  exact ⟨congrArg control word, requested⟩

def Restarts (i : Fin 4) (n : Nat) : Prop :=
  (sinceReset board start inputs n).game.startCoin.getLsbD i.val = false ∧
    (sinceReset board start inputs (n + 1)).game.startCoin.getLsbD i.val = true

/-- From cycle `s` to cycle `n` the coin of slot `i` is neither reset nor taken nor started
again. -/
structure InPlay (i : Fin 4) (s n : Nat) : Prop where
  running : ∀ k, s < k → k < n → (sinceReset board start inputs k).game.resetH = false
  untaken : ∀ k, s < k → k < n →
    ((sinceReset board start inputs k).game.coins i).coinTaken = false
  once : ∀ k, s ≤ k → k + 1 < n → ¬ Restarts board start inputs i k

theorem InPlay.before {i : Fin 4} {s m n : Nat} (play : InPlay board start inputs i s n)
    (earlier : m ≤ n) : InPlay board start inputs i s m where
  running k low high := play.running k low (by omega)
  untaken k low high := play.untaken k low (by omega)
  once k low high := play.once k low (by omega)

/-- The height of the coin of column `c` is the same in every cycle after the scroll at `s`
in which it is still in play. -/
def KeepsHeight (c : BitVec 8) (s : Nat) : Prop :=
  let i := coinSlot (control (board.levelMem c))
  ∀ n, s < n → InPlay board start inputs i s n →
    ((sinceReset board start inputs n).game.coins i).coinYPos =
      ((sinceReset board start inputs s).game.coins i).coinYPos

/-- A scroll that brings in a column with a coin, before a column that does not ask for the
same slot. -/
structure CoinShift (c : BitVec 8) (s : Nat) : Prop
    extends ShiftsIn board start inputs c s where
  enabled : (control (board.levelMem c)).getLsbD 5 = true
  other : (startCoinIn (control (board.levelMem (c + 1#8)))).getLsbD
    (coinSlot (control (board.levelMem c))).val = false

variable (reset : start.game.resetH = true) {c : BitVec 8} {s : Nat}
  (shifted : CoinShift board start inputs c s)

include shifted

theorem CoinShift.requested :
    (startCoinIn (control (board.levelMem c))).getLsbD
      (coinSlot (control (board.levelMem c))).val = true :=
  (startCoinIn_iff _ _).mpr ⟨shifted.enabled, rfl⟩

include reset

theorem coinShift_early (k : Nat) (early : k < 3)
    (running : (sinceReset board start inputs (s + k)).game.resetH = false) :
    (sinceReset board start inputs (s + k + 1)).game.coins
        (coinSlot (control (board.levelMem c))) =
      Coin.startValue (startBlock (control (board.levelMem c))) := by
  have word := shiftsIn_word board start inputs reset shifted.toShiftsIn k early
  have asked := shiftsIn_startCoin board start inputs reset shifted.toShiftsIn k (by omega)
  have requested := CoinShift.requested board start inputs shifted
  rw [← asked] at requested
  have coin := coin_started board start inputs (s + k + 1) _ running requested
  rw [word] at coin
  exact coin

/-- In the fourth cycle it is started once more, with the height of the next column. -/
theorem coinShift_moved
    (running : (sinceReset board start inputs (s + 3)).game.resetH = false) :
    (sinceReset board start inputs (s + 4)).game.coins
        (coinSlot (control (board.levelMem c))) =
      Coin.startValue (startBlock (control (board.levelMem (c + 1#8)))) := by
  have word := (shiftsIn_nextWord board start inputs shifted.toShiftsIn).1
  have asked := shiftsIn_startCoin board start inputs reset shifted.toShiftsIn 3 (by omega)
  have requested := CoinShift.requested board start inputs shifted
  rw [← asked] at requested
  have coin := coin_started board start inputs (s + 4) _ running requested
  rw [word] at coin
  exact coin

/-- From the fifth cycle on the coin stays where it is while it is in play. -/
theorem coinShift_late (n : Nat) (late : s + 4 ≤ n) :
    (InPlay board start inputs (coinSlot (control (board.levelMem c))) s n →
      ((sinceReset board start inputs n).game.coins
          (coinSlot (control (board.levelMem c)))).coinYPos =
        (Coin.startValue (startBlock (control (board.levelMem (c + 1#8))))).coinYPos) ∧
    (InPlay board start inputs (coinSlot (control (board.levelMem c))) s (n + 1) →
      (sinceReset board start inputs n).game.startCoin.getLsbD
        (coinSlot (control (board.levelMem c))).val = false) := by
  induction n, late using Nat.le_induction with
  | base =>
      constructor
      · intro play
        rw [coinShift_moved board start inputs reset shifted
          (play.running (s + 3) (by omega) (by omega))]
      · intro _
        rw [(shiftsIn_nextWord board start inputs shifted.toShiftsIn).2]
        exact shifted.other
  | succ n late ih =>
      constructor
      · intro play
        have running := play.running n (by omega) (by omega)
        have untaken := play.untaken n (by omega) (by omega)
        have low := ih.2 play
        have position := ih.1 (play.before board start inputs (by omega))
        rw [Toplevel.run_game, step_coins, running, low, ← position]
        simp [Coin.step, untaken]
      · intro play
        have low := ih.2 (play.before board start inputs (by omega))
        have once := play.once n (by omega) (by omega)
        rw [← Bool.not_eq_true]
        intro high
        exact once ⟨low, high⟩

theorem coinShift_inPlay
    (released : ∀ k, s < k → k ≤ s + 3 → (sinceReset board start inputs k).game.resetH = false) :
    InPlay board start inputs (coinSlot (control (board.levelMem c))) s (s + 4) where
  running k low high := released k low (by omega)
  untaken k low high := by
    obtain ⟨j, rfl⟩ := Nat.exists_eq_add_of_lt low
    have running : (sinceReset board start inputs (s + j)).game.resetH = false := by
      cases j with
      | zero => exact shifted.running
      | succ j => exact released (s + (j + 1)) (by omega) (by omega)
    rw [coinShift_early board start inputs reset shifted j (by omega) running]
    rfl
  once k low high := by
    intro restarts
    rcases restarts with ⟨quiet, -⟩
    obtain ⟨j, rfl⟩ := Nat.exists_eq_add_of_le low
    have requested := CoinShift.requested board start inputs shifted
    rw [← shiftsIn_startCoin board start inputs reset shifted.toShiftsIn j (by omega), quiet]
      at requested
    cases requested

theorem coinShift_height :
    ((sinceReset board start inputs s).game.coins
        (coinSlot (control (board.levelMem c)))).coinYPos =
      (Coin.startValue (startBlock (control (board.levelMem c)))).coinYPos := by
  have requested := CoinShift.requested board start inputs shifted
  rw [(shiftsIn_placed board start inputs reset shifted.toShiftsIn).2.2 _ requested]

theorem keepsHeight_iff :
    KeepsHeight board start inputs c s ↔
      startBlock (control (board.levelMem (c + 1#8))) = startBlock (control (board.levelMem c)) ∨
        ∃ k, s < k ∧ k ≤ s + 3 ∧ (sinceReset board start inputs k).game.resetH = true := by
  have height := coinShift_height board start inputs reset shifted
  constructor
  · intro keeps
    by_cases interrupted : ∃ k, s < k ∧ k ≤ s + 3 ∧
        (sinceReset board start inputs k).game.resetH = true
    · exact Or.inr interrupted
    · have released : ∀ k, s < k → k ≤ s + 3 →
          (sinceReset board start inputs k).game.resetH = false := by
        intro k low high
        rw [← Bool.not_eq_true]
        intro reset
        exact interrupted ⟨k, low, high, reset⟩
      have kept := keeps (s + 4) (by omega)
        (coinShift_inPlay board start inputs reset shifted released)
      rw [coinShift_moved board start inputs reset shifted
        (released (s + 3) (by omega) (by omega)), height] at kept
      exact Or.inl (coinYPos_injective _ _ kept)
  · intro condition n after play
    rw [height]
    by_cases late : s + 4 ≤ n
    · rcases condition with same | ⟨k, low, high, interrupted⟩
      · rw [(coinShift_late board start inputs reset shifted n late).1 play, same]
      · rw [play.running k low (by omega)] at interrupted
        cases interrupted
    · obtain ⟨j, rfl⟩ := Nat.exists_eq_add_of_lt after
      have running : (sinceReset board start inputs (s + j)).game.resetH = false := by
        cases j with
        | zero => exact shifted.running
        | succ j => exact play.running (s + (j + 1)) (by omega) (by omega)
      rw [coinShift_early board start inputs reset shifted j (by omega) running]

end Placed

section Walk

theorem walk_coinShift (board : Board)
    (played : playHeld board (fun g => decide (AtFirstScroll board g)) walkKeys = true)
    (enabled : (control (board.levelMem 10#8)).getLsbD 5 = true)
    (other : (startCoinIn (control (board.levelMem 11#8))).getLsbD
      (coinSlot (control (board.levelMem 10#8))).val = false) :
    CoinShift board (Toplevel.held board) (scriptInputs walkKeys) 10#8 (scriptEnd walkKeys) := by
  rcases playHeld_sound board _ walkKeys played with ⟨-, calm, passed⟩
  rcases of_decide_eq_true passed with ⟨-, column, -⟩
  refine { running := calm.resetH, shift := ?_, column := column, enabled, other }
  apply script_shift board _ walkKeys played
  intro g passed
  rw [(of_decide_eq_true passed).1]
  decide

theorem walk_released (board : Board)
    (played : playHeld board (fun g => decide (AtFirstScroll board g)) walkKeys = true)
    (k : Nat) (after : scriptEnd walkKeys < k) (soon : k ≤ scriptEnd walkKeys + 3) :
    (sinceReset board (Toplevel.held board) (scriptInputs walkKeys) k).game.resetH = false := by
  rcases playHeld_sound board _ walkKeys played with ⟨-, -, passed⟩
  rcases of_decide_eq_true passed with ⟨-, -, safe⟩
  obtain ⟨j, rfl⟩ := Nat.exists_eq_add_of_le after.le
  exact (afterScript_cycle board _ walkKeys played safe 3 (by decide)).1 j (by omega)

theorem low_coinShift : CoinShift lowBoard (Toplevel.held lowBoard) (scriptInputs walkKeys) 10#8
    (scriptEnd walkKeys) :=
  walk_coinShift lowBoard low_played rfl rfl

theorem held_raised : Toplevel.held raisedBoard = Toplevel.held lowBoard := rfl

theorem raised_coinShift : CoinShift raisedBoard (Toplevel.held lowBoard)
    (scriptInputs walkKeys) 10#8 (scriptEnd walkKeys) := by
  rw [← held_raised]
  exact walk_coinShift raisedBoard raised_played rfl rfl

end Walk

section Pair

variable (first second : Board) (start : Toplevel) (inputs : Nat → Input)

/-- Two boards whose levels agree on column `c`, played with the same keys: after the coin of
column `c` has been scrolled in, its height is the pending height in all cycles of both games
exactly when, in either game, column `c + 1` has the same bits 3:2 or a Reset comes within
three cycles. -/
theorem coin_height_iff (reset : start.game.resetH = true) (c : BitVec 8)
    (agree : first.levelMem c = second.levelMem c) (s t : Nat)
    (shiftedFirst : CoinShift first start inputs c s)
    (shiftedSecond : CoinShift second start inputs c t) :
    (KeepsHeight first start inputs c s ∧ KeepsHeight second start inputs c t ∧
        ∀ m n, s < m → t < n →
          InPlay first start inputs (coinSlot (control (first.levelMem c))) s m →
          InPlay second start inputs (coinSlot (control (first.levelMem c))) t n →
          ((sinceReset first start inputs m).game.coins
              (coinSlot (control (first.levelMem c)))).coinYPos =
            ((sinceReset second start inputs n).game.coins
              (coinSlot (control (first.levelMem c)))).coinYPos) ↔
      (startBlock (control (first.levelMem (c + 1#8))) =
          startBlock (control (first.levelMem c)) ∨
        ∃ k, s < k ∧ k ≤ s + 3 ∧ (sinceReset first start inputs k).game.resetH = true) ∧
      (startBlock (control (second.levelMem (c + 1#8))) =
          startBlock (control (first.levelMem c)) ∨
        ∃ k, t < k ∧ k ≤ t + 3 ∧ (sinceReset second start inputs k).game.resetH = true) := by
  have single := keepsHeight_iff first start inputs reset shiftedFirst
  have other := keepsHeight_iff second start inputs reset shiftedSecond
  have pending := coinShift_height first start inputs reset shiftedFirst
  have pendingOther := coinShift_height second start inputs reset shiftedSecond
  rw [← agree] at other pendingOther
  constructor
  · intro heights
    rcases heights with ⟨keeps, keepsOther, -⟩
    exact ⟨single.mp keeps, other.mp keepsOther⟩
  · intro conditions
    rcases conditions with ⟨condition, conditionOther⟩
    have keeps := single.mpr condition
    have keepsOther := other.mpr conditionOther
    refine ⟨keeps, keepsOther, ?_⟩
    intro m n afterFirst afterSecond play playOther
    have same := keepsOther n afterSecond
    rw [← agree] at same
    rw [keeps m afterFirst play, same playOther, pending, pendingOther]

theorem coin_height_iff_walk :
    (KeepsHeight lowBoard (Toplevel.held lowBoard) (scriptInputs walkKeys) 10#8
          (scriptEnd walkKeys) ∧
        KeepsHeight raisedBoard (Toplevel.held lowBoard) (scriptInputs walkKeys) 10#8
          (scriptEnd walkKeys) ∧
        ∀ m n, scriptEnd walkKeys < m → scriptEnd walkKeys < n →
          InPlay lowBoard (Toplevel.held lowBoard) (scriptInputs walkKeys) 0
            (scriptEnd walkKeys) m →
          InPlay raisedBoard (Toplevel.held lowBoard) (scriptInputs walkKeys) 0
            (scriptEnd walkKeys) n →
          ((sinceReset lowBoard (Toplevel.held lowBoard) (scriptInputs walkKeys)
              m).game.coins 0).coinYPos =
            ((sinceReset raisedBoard (Toplevel.held lowBoard) (scriptInputs walkKeys)
              n).game.coins 0).coinYPos) ↔
      (startBlock (control (lowBoard.levelMem 11#8)) =
          startBlock (control (lowBoard.levelMem 10#8)) ∨
        ∃ k, scriptEnd walkKeys < k ∧ k ≤ scriptEnd walkKeys + 3 ∧
          (sinceReset lowBoard (Toplevel.held lowBoard) (scriptInputs walkKeys)
            k).game.resetH = true) ∧
      (startBlock (control (raisedBoard.levelMem 11#8)) =
          startBlock (control (lowBoard.levelMem 10#8)) ∨
        ∃ k, scriptEnd walkKeys < k ∧ k ≤ scriptEnd walkKeys + 3 ∧
          (sinceReset raisedBoard (Toplevel.held lowBoard) (scriptInputs walkKeys)
            k).game.resetH = true) :=
  coin_height_iff lowBoard raisedBoard (Toplevel.held lowBoard) (scriptInputs walkKeys) rfl 10#8
    rfl (scriptEnd walkKeys) (scriptEnd walkKeys) low_coinShift raised_coinShift

/-- Four cycles after the scroll the coin stands at 140 in one game and at 260 in the
other, although the levels agree up to its column. -/
theorem walk_heights_differ :
    (∀ a : BitVec 8, a ≤ 10#8 → lowBoard.levelMem a = raisedBoard.levelMem a) ∧
    CoinShift lowBoard (Toplevel.held lowBoard) (scriptInputs walkKeys) 10#8
      (scriptEnd walkKeys) ∧
    CoinShift raisedBoard (Toplevel.held lowBoard) (scriptInputs walkKeys) 10#8
      (scriptEnd walkKeys) ∧
    InPlay lowBoard (Toplevel.held lowBoard) (scriptInputs walkKeys) 0 (scriptEnd walkKeys)
      (scriptEnd walkKeys + 4) ∧
    InPlay raisedBoard (Toplevel.held lowBoard) (scriptInputs walkKeys) 0 (scriptEnd walkKeys)
      (scriptEnd walkKeys + 4) ∧
    ((sinceReset lowBoard (Toplevel.held lowBoard) (scriptInputs walkKeys)
      (scriptEnd walkKeys + 4)).game.coins 0).coinYPos = 140#10 ∧
    ((sinceReset raisedBoard (Toplevel.held lowBoard) (scriptInputs walkKeys)
      (scriptEnd walkKeys + 4)).game.coins 0).coinYPos = 260#10 := by
  have released := walk_released lowBoard low_played
  have releasedRaised := walk_released raisedBoard raised_played
  rw [held_raised] at releasedRaised
  refine ⟨by decide, low_coinShift, raised_coinShift,
    coinShift_inPlay lowBoard _ _ rfl low_coinShift released,
    coinShift_inPlay raisedBoard _ _ rfl raised_coinShift releasedRaised, ?_, ?_⟩
  · exact congrArg Coin.coinYPos (coinShift_moved lowBoard _ _ rfl low_coinShift
      (released _ (by omega) (by omega)))
  · exact congrArg Coin.coinYPos (coinShift_moved raisedBoard _ _ rfl raised_coinShift
      (releasedRaised _ (by omega) (by omega)))

end Pair

end FPGAMario
