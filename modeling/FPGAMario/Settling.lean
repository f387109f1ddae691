import FPGAMario.Restart

/-! How long the game goes on changing after a frame pulse: what the renderer draws from stands
still after a few cycles. -/

namespace FPGAMario

open Hdl Game BlockArray

@[ext] structure Drawn where
  blockCols : BlockCols
  marioXPos : BitVec 10
  marioYPos : BitVec 10
  isJumping : Bool
  direction : Bool
  runCounter : BitVec 2
  goombaXPos : BitVec 10
  goombaYPos : BitVec 10
  isAlive : Bool
  goombaSprite : Bool
  coinXPos : Fin 4 → BitVec 10
  coinYPos : Fin 4 → BitVec 10
  isRunning : Fin 4 → Bool

def Game.drawn (g : Game) : Drawn where
  blockCols := g.blocks.blockCols
  marioXPos := g.mario.marioXPos
  marioYPos := g.mario.marioYPos
  isJumping := g.mario.isJumping
  direction := g.mario.direction
  runCounter := g.mario.runCounter
  goombaXPos := g.goomba.goombaXPos
  goombaYPos := g.goomba.goombaYPos
  isAlive := g.goomba.isAlive
  goombaSprite := g.goomba.goombaSprite
  coinXPos i := (g.coins i).coinXPos
  coinYPos i := (g.coins i).coinYPos
  isRunning i := (g.coins i).isRunning

namespace Coin

def rest (x y : BitVec 10) (c : Coin) : Coin := c.step false false false false x y 0#2

theorem step_rest (shift : Bool) (x y : BitVec 10) (block : BitVec 2) (c : Coin) :
    c.step false false false shift x y block = c.rest x y := by
  simp [rest, step]

/-- A pickup is over after two such cycles: the coin it removes cannot be taken again. -/
theorem rest_twice_untaken (x y : BitVec 10) (c : Coin) :
    ((c.rest x y).rest x y).coinTaken = false := by
  rcases c with ⟨cx, cy, taken, running⟩
  cases taken with
  | true => simp [rest, step, TakenIn]
  | false =>
      by_cases near : (⟨cx, cy, false, running⟩ : Coin).TakenIn x y
      · simp [rest, step, near]
      · have far : ¬ (⟨cx, cy, false, running⟩ : Coin).TakenIn x y := near
        simp [rest, step, far]

theorem rest_still (x y : BitVec 10) (c : Coin) (untaken : c.coinTaken = false) :
    (c.rest x y).coinXPos = c.coinXPos ∧ (c.rest x y).coinYPos = c.coinYPos ∧
      (c.rest x y).isRunning = c.isRunning := by
  simp [rest, step, untaken]

end Coin

namespace BlockArray

theorem remove_remove (cols : BlockCols) (column : BitVec 10) (low : BitVec 5) :
    remove (remove cols column low) column low = remove cols column low := by
  funext i
  simp only [remove]
  split
  · exact clearPart_clearPart 3 low.toNat (cols i)
  · rfl

def rest (board : Board) (x y : BitVec 10) (a : BlockArray) : BlockArray :=
  a.step board false false 0#30 x y

theorem rest_rest (board : Board) (x y : BitVec 10) (a : BlockArray) :
    (a.rest board x y).rest board x y = a.rest board x y := by
  by_cases brick : (a.marioPolls board x y).up = 0b010#3
  · have removed : a.rest board x y =
        { a with blockCols := remove a.blockCols (marioBlockX x) (lower (marioBlockUp y)) } := by
      simp [rest, step, brick]
    rw [removed]
    by_cases again : (marioPolls board x y { a with
        blockCols := remove a.blockCols (marioBlockX x) (lower (marioBlockUp y)) }).up = 0b010#3
    · simp only [rest, step, Bool.false_eq_true, if_false, again, if_true, remove_remove]
    · simp only [rest, step, Bool.false_eq_true, if_false, again]
  · have kept : a.rest board x y = a := by simp [rest, step, brick]
    rw [kept, kept]

end BlockArray

section Window

structure Resting (board : Board) (game : Nat → Game) (inputs : Nat → Input) (n : Nat) :
    Prop where
  running : ∀ k, k < n → (game k).resetH = false
  step : ∀ k, k < n → game (k + 1) = (game k).step board (Pulses.all false) (inputs k)

namespace Resting

variable {board : Board} {game : Nat → Game} {inputs : Nat → Input} {n : Nat}
  (resting : Resting board game inputs n)

include resting

theorem mario {k : Nat} (bound : k < n) : (game (k + 1)).mario =
    { (game k).mario with marioXMotion := 0#10, marioYMotion := 0#10 } := by
  rw [resting.step k bound, step_mario, resting.running k bound]
  rfl

theorem marioPos {k : Nat} (bound : k ≤ n) : (game k).mario.marioXPos = (game 0).mario.marioXPos ∧
    (game k).mario.marioYPos = (game 0).mario.marioYPos := by
  induction k with
  | zero => exact ⟨rfl, rfl⟩
  | succ k ih =>
      rw [resting.mario bound]
      exact ih (Nat.le_of_succ_le bound)

theorem blocks {k : Nat} (bound : k < n) : (game (k + 1)).blocks =
    (game k).blocks.rest board (game 0).mario.marioXPos (game 0).mario.marioYPos := by
  rcases resting.marioPos bound.le with ⟨x, y⟩
  rw [resting.step k bound, step_blocks, resting.running k bound, x, y]
  rfl

theorem column {k : Nat} (bound : k ≤ n) :
    (game k).blocks.currentBlockCol = (game 0).blocks.currentBlockCol := by
  induction k with
  | zero => rfl
  | succ k ih =>
      rw [resting.step k bound, step_keptCol board _ _ _ (resting.running k bound) rfl]
      exact ih (Nat.le_of_succ_le bound)

theorem word {k : Nat} (later : 2 ≤ k) (bound : k ≤ n) :
    (game k).level.q = board.levelMem (game 0).blocks.currentBlockCol := by
  obtain ⟨j, rfl⟩ := Nat.exists_eq_add_of_le' later
  have next : j + 1 < n := bound
  have now := Nat.lt_of_succ_lt next
  rw [resting.step (j + 1) next, step_level, SyncRom.step_q, resting.step j now, step_level,
    SyncRom.step_address, resting.column now.le]

theorem startCoin {k : Nat} (later : 3 ≤ k) (bound : k ≤ n) :
    (game k).startCoin =
      startCoinIn (control (board.levelMem (game 0).blocks.currentBlockCol)) := by
  obtain ⟨j, rfl⟩ : ∃ j, k = j + 1 := ⟨k - 1, by omega⟩
  rw [resting.step j (by omega), step_startCoin, newColControl, resting.word (by omega) (by omega)]

theorem goomba {k : Nat} (later : 3 ≤ k) (bound : k < n) :
    (game (k + 1)).goomba.goombaXPos = (game k).goomba.goombaXPos ∧
      (game (k + 1)).goomba.goombaYPos = (game k).goomba.goombaYPos ∧
      (game (k + 1)).goomba.isAlive = (game k).goomba.isAlive ∧
      (game (k + 1)).goomba.goombaSprite = (game k).goomba.goombaSprite := by
  have word := resting.word (by omega) bound.le
  cases started : (control (board.levelMem (game 0).blocks.currentBlockCol)).getLsbD 0 with
  | true =>
      have value {j : Nat} (after : 2 ≤ j) (before : j < n) :
          (game (j + 1)).goomba = Goomba.startValue 500#10 440#10 := by
        rw [resting.step j before, step_goomba, resting.running j before, newColControl,
          resting.word after before.le, started]
        rfl
      obtain ⟨j, rfl⟩ : ∃ j, k = j + 1 := ⟨k - 1, by omega⟩
      rw [value (j := j + 1) (by omega) bound, value (j := j) (by omega) (by omega)]
      exact ⟨rfl, rfl, rfl, rfl⟩
  | false =>
      rw [resting.step k bound, step_goomba, resting.running k bound, newColControl, word, started]
      exact ⟨rfl, rfl, rfl, rfl⟩

theorem coin {k : Nat} (later : 5 ≤ k) (bound : k < n) (i : Fin 4) :
    ((game (k + 1)).coins i).coinXPos = ((game k).coins i).coinXPos ∧
      ((game (k + 1)).coins i).coinYPos = ((game k).coins i).coinYPos ∧
      ((game (k + 1)).coins i).isRunning = ((game k).coins i).isRunning := by
  have step {j : Nat} (after : 3 ≤ j) (before : j < n) : (game (j + 1)).coins i =
      ((game j).coins i).step false
        ((startCoinIn (control (board.levelMem (game 0).blocks.currentBlockCol))).getLsbD i.val)
        false false (game 0).mario.marioXPos (game 0).mario.marioYPos
        (startBlock (control (board.levelMem (game 0).blocks.currentBlockCol))) := by
    rcases resting.marioPos before.le with ⟨x, y⟩
    rw [resting.step j before, step_coins, resting.running j before,
      resting.startCoin after before.le, newColControl, resting.word (by omega) before.le, x, y]
    rfl
  obtain ⟨j, rfl⟩ : ∃ j, k = j + 2 := ⟨k - 2, by omega⟩
  cases started : (startCoinIn
      (control (board.levelMem (game 0).blocks.currentBlockCol))).getLsbD i.val with
  | true =>
      rw [step (j := j + 2) (by omega) bound, step (j := j + 1) (by omega) (by omega), started]
      exact ⟨rfl, rfl, rfl⟩
  | false =>
      rw [started] at step
      rw [step (j := j + 2) (by omega) bound, Coin.step_rest]
      apply Coin.rest_still
      rw [step (j := j + 1) (by omega) (by omega), step (j := j) (by omega) (by omega),
        Coin.step_rest, Coin.step_rest]
      apply Coin.rest_twice_untaken

/-- From the sixth cycle on nothing that is drawn changes. -/
theorem drawn {k : Nat} (later : 5 ≤ k) (bound : k < n) :
    (game (k + 1)).drawn = (game k).drawn := by
  have mario := resting.mario bound
  rcases resting.goomba (by omega) bound with ⟨goombaX, goombaY, alive, sprite⟩
  have coin := resting.coin later bound
  apply Drawn.ext
  case blockCols =>
    obtain ⟨j, rfl⟩ : ∃ j, k = j + 1 := ⟨k - 1, by omega⟩
    simp only [Game.drawn]
    rw [resting.blocks bound, resting.blocks (by omega), rest_rest]
  case goombaXPos => exact goombaX
  case goombaYPos => exact goombaY
  case isAlive => exact alive
  case goombaSprite => exact sprite
  case coinXPos => exact funext fun i => (coin i).1
  case coinYPos => exact funext fun i => (coin i).2.1
  case isRunning => exact funext fun i => (coin i).2.2
  all_goals
    simp only [Game.drawn]
    rw [mario]

end Resting

end Window

theorem VgaController.step_row (v : VgaController) (reset : Bool) (row : v.vCounter = 0#10)
    (inside : v.hCounter.toNat < 799) :
    (v.step reset).vCounter = 0#10 ∧ (v.step reset).hCounter.toNat ≤ v.hCounter.toNat + 1 := by
  have more : ¬ v.hCounter + 1#10 = hTotal := by
    rw [hTotal]
    bv_omega
  cases reset with
  | true => exact ⟨rfl, Nat.zero_le _⟩
  | false =>
      simp only [step, Bool.false_eq_true, if_false, vCounterIn, hCounterIn, more]
      exact ⟨row, by bv_omega⟩

section Runs

variable (board : Board) (start : Toplevel) (inputs : Nat → Input)

def PulseSeen (n : Nat) : Prop :=
  (Toplevel.run board start inputs n).clock.pulses ≠ Pulses.all false

theorem drawn_still (n : Nat)
    (running : ∀ k, k < 8 → (Toplevel.run board start inputs (n + k)).game.resetH = false)
    (quiet : ∀ k, k < 8 → ¬ PulseSeen board start inputs (n + k)) :
    (Toplevel.run board start inputs (n + 8)).game.drawn =
      (Toplevel.run board start inputs (n + 7)).game.drawn := by
  have resting : Resting board (fun k => (Toplevel.run board start inputs (n + k)).game)
      (fun k => inputs (n + k)) 8 := by
    refine ⟨running, ?_⟩
    intro k bound
    have silent := not_not.mp (quiet k bound)
    change (Toplevel.run board start inputs (n + k + 1)).game = _
    rw [Toplevel.run_game, silent]
  exact resting.drawn (k := 7) (by omega) (by omega)

theorem pulseSeen_origin (n : Nat) (pulse : PulseSeen board start inputs (n + 1)) :
    (Toplevel.run board start inputs n).clock.vga.frameClk = true := by
  rw [← Bool.not_eq_false]
  intro away
  apply pulse
  simp [FrameClock.pulses, Toplevel.run_clock, FrameClock.step, away, Pulses.all]

theorem row_zero (n : Nat) (origin : (Toplevel.run board start inputs n).clock.vga.frameClk = true)
    (k : Nat) (bound : k < 700) :
    (Toplevel.run board start inputs (n + k)).clock.vga.vCounter = 0#10 ∧
      (Toplevel.run board start inputs (n + k)).clock.vga.hCounter.toNat ≤ k := by
  induction k with
  | zero =>
      simp only [VgaController.frameClk, decide_eq_true_eq] at origin
      rw [Nat.add_zero, origin.1]
      exact ⟨origin.2, Nat.le_refl 0⟩
  | succ k ih =>
      rcases ih (by omega) with ⟨row, pixel⟩
      rw [← Nat.add_assoc, Toplevel.run_clock, FrameClock.step]
      split
      · exact ⟨row, Nat.le_succ_of_le pixel⟩
      · have next := VgaController.step_row _ (Toplevel.run board start inputs (n + k)).game.resetH
          row (by omega)
        exact ⟨next.1, next.2.trans (Nat.succ_le_succ pixel)⟩

/-- The picture changes only in the eight cycles after a Reset cycle, or after a frame pulse and
in row 0. -/
theorem frames_atomic (reset : start.game.resetH = true) (n : Nat)
    (changed : (Toplevel.run board start inputs (n + 1)).game.drawn ≠
      (Toplevel.run board start inputs n).game.drawn) :
    ∃ k, k ≤ n ∧ n < k + 8 ∧ ((Toplevel.run board start inputs k).game.resetH = true ∨
      PulseSeen board start inputs k ∧
        (Toplevel.run board start inputs (n + 1)).clock.vga.vCounter = 0#10) := by
  rcases Nat.lt_or_ge n 8 with early | late
  · exact ⟨0, Nat.zero_le n, by omega, Or.inl reset⟩
  · by_contra never
    obtain ⟨m, rfl⟩ : ∃ m, n = m + 1 + 7 := ⟨n - 8, by omega⟩
    apply changed
    apply drawn_still board start inputs (m + 1)
    · intro k bound
      rw [← Bool.not_eq_true]
      intro high
      exact never ⟨m + 1 + k, by omega, by omega, Or.inl high⟩
    · intro k bound pulse
      have seen : PulseSeen board start inputs (m + k + 1) := by
        rwa [Nat.add_right_comm] at pulse
      have row := row_zero board start inputs (m + k) (pulseSeen_origin board start inputs _ seen)
        (9 - k) (by omega)
      have position : m + k + (9 - k) = m + 1 + 7 + 1 := by omega
      rw [position] at row
      exact never ⟨m + 1 + k, by omega, by omega, Or.inr ⟨pulse, row.1⟩⟩

end Runs

section Released

/-- The detectors have seen the scan at the origin for a while. -/
def FrameClock.Parked (c : FrameClock) : Prop :=
  c.vga.frameClk = true ∧ c.pulses = Pulses.all false ∧
    c.marioEdge.delayed = true ∧ c.goombaEdge.delayed = true ∧
      ∀ i, (c.coinEdge i).delayed = true

theorem FrameClock.Parked.step {c : FrameClock} (parked : c.Parked) : (c.step true).Parked := by
  rcases parked with ⟨origin, -, mario, goomba, coins⟩
  refine ⟨?_, ?_, origin, origin, fun _ => origin⟩
  · simp only [FrameClock.step]
    split
    · exact origin
    · rfl
  · simp [FrameClock.pulses, FrameClock.step, mario, goomba, coins, Pulses.all]

theorem held_pressed (board : Board) (inputs : Nat → Input) (n : Nat)
    (pressed : ∀ k, k < n → (inputs k).key0 = false) :
    (Toplevel.run board (Toplevel.held board) inputs n).clock.Parked ∧
      (Toplevel.run board (Toplevel.held board) inputs n).game = Game.held board := by
  induction n with
  | zero => exact ⟨⟨rfl, rfl, rfl, rfl, fun _ => rfl⟩, rfl⟩
  | succ n ih =>
      rcases ih (fun k bound => pressed k (Nat.lt_succ_of_lt bound)) with ⟨parked, game⟩
      have key := pressed n (Nat.lt_succ_self n)
      constructor
      · rw [Toplevel.run_clock, game]
        exact parked.step
      · rw [Toplevel.run_game, game]
        rcases input : inputs n with ⟨key0, keycode⟩
        rw [input] at key
        subst key
        rfl

def longPress (n : Nat) : Input := ⟨decide (10 ≤ n), 0#8⟩

theorem longPress_game (n : Nat) (bound : n ≤ 10) :
    (Toplevel.run graveBoard (Toplevel.held graveBoard) longPress n).clock.Parked ∧
      (Toplevel.run graveBoard (Toplevel.held graveBoard) longPress n).game =
        Game.held graveBoard := by
  apply held_pressed
  intro k small
  rw [longPress, decide_eq_false]
  omega

theorem longPress_drawn :
    (Toplevel.run graveBoard (Toplevel.held graveBoard) longPress 12).game.drawn ≠
      (Toplevel.run graveBoard (Toplevel.held graveBoard) longPress 11).game.drawn := by
  have held := (longPress_game 10 (Nat.le_refl 10)).2
  intro same
  have alive := congrArg Drawn.isAlive same
  simp only [Game.drawn] at alive
  rw [Toplevel.run_game _ _ _ 11, Toplevel.run_game _ _ _ 10, held] at alive
  have spawned : true = false := alive
  exact Bool.noConfusion spawned

theorem frames_atomic_longPress :
    ∃ k, k ≤ 11 ∧ 11 < k + 8 ∧
      ((Toplevel.run graveBoard (Toplevel.held graveBoard) longPress k).game.resetH = true ∨
        PulseSeen graveBoard (Toplevel.held graveBoard) longPress k ∧
          (Toplevel.run graveBoard (Toplevel.held graveBoard) longPress
            (11 + 1)).clock.vga.vCounter = 0#10) :=
  frames_atomic graveBoard (Toplevel.held graveBoard) longPress rfl 11 longPress_drawn

/-- Right after a Reset the picture changes with no pulse near. -/
theorem release_not_atomic : ¬ ∀ (board : Board) (start : Toplevel) (inputs : Nat → Input)
    (r n : Nat), r < n →
    (∀ k, r < k → k ≤ n → (Toplevel.run board start inputs k).game.resetH = false) →
    (Toplevel.run board start inputs (n + 1)).game.drawn ≠
      (Toplevel.run board start inputs n).game.drawn →
    ∃ k, k ≤ n ∧ n < k + 8 ∧ PulseSeen board start inputs k := by
  intro atomic
  have running : (Toplevel.run graveBoard (Toplevel.held graveBoard) longPress
      11).game.resetH = false := by
    rw [Toplevel.run_game, (longPress_game 10 (Nat.le_refl 10)).2]
    rfl
  have single (k : Nat) (above : 10 < k) (below : k ≤ 11) :
      (Toplevel.run graveBoard (Toplevel.held graveBoard) longPress k).game.resetH = false := by
    obtain rfl : k = 11 := by omega
    exact running
  rcases atomic graveBoard (Toplevel.held graveBoard) longPress 10 11 (by omega) single
    longPress_drawn with ⟨k, upTo, -, pulse⟩
  apply pulse
  rcases Nat.lt_or_eq_of_le upTo with earlier | rfl
  · exact (longPress_game k (by omega)).1.2.1
  · rw [Toplevel.run_clock, (longPress_game 10 (Nat.le_refl 10)).2]
    exact (longPress_game 10 (Nat.le_refl 10)).1.step.2.1

end Released

end FPGAMario
