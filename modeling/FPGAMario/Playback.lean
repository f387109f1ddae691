import FPGAMario.FrameTiming
import FPGAMario.Hdl.Force
import Mathlib.Logic.Function.Iterate

/-! Long runs of the board, one video frame at a time. Between two pulses the game settles
within a few cycles and then waits, so a frame of 840000 cycles is computed from the first
few of them. -/

namespace FPGAMario

open Hdl

namespace Game

def idle (board : Board) (g : Game) : Game :=
  g.step board (Pulses.all false) ⟨true, 0#8⟩

theorem step_idle (board : Board) (g : Game) (input : Input) (released : input.key0 = true) :
    g.step board (Pulses.all false) input = g.idle board := by
  cases input
  simp only at released
  simp [idle, step, Mario.step, Pulses.all, released]

/-- A game in which a cycle without a pulse changes nothing. -/
structure Calm (board : Board) (g : Game) : Prop where
  resetH : g.resetH = false
  killMario : g.goomba.killMario = false
  goombaKilled : g.goomba.goombaKilled = false
  goombaYMotion : g.goomba.goombaYMotion = 0#10
  marioXMotion : g.mario.marioXMotion = 0#10
  marioYMotion : g.mario.marioYMotion = 0#10
  address : g.level.address = g.blocks.currentBlockCol
  q : g.level.q = board.levelMem g.blocks.currentBlockCol
  startCoin : g.startCoin = startCoinIn g.newColControl
  head : (g.marioPolls board).up ≠ 0b010#3
  goomba : g.newColControl.getLsbD 0 = true → g.goomba = Goomba.startValue 500#10 440#10
  coinTaken : ∀ i, (g.coins i).coinTaken = false
  coin : ∀ i : Fin 4, if g.startCoin.getLsbD i.val
    then g.coins i = Coin.startValue (startBlock g.newColControl)
    else ¬ (g.coins i).TakenIn g.mario.marioXPos g.mario.marioYPos

instance (board : Board) (g : Game) : Decidable (g.Calm board) :=
  decidable_of_iff
    (g.resetH = false ∧ g.goomba.killMario = false ∧ g.goomba.goombaKilled = false ∧
      g.goomba.goombaYMotion = 0#10 ∧ g.mario.marioXMotion = 0#10 ∧
      g.mario.marioYMotion = 0#10 ∧ g.level.address = g.blocks.currentBlockCol ∧
      g.level.q = board.levelMem g.blocks.currentBlockCol ∧
      g.startCoin = startCoinIn g.newColControl ∧ (g.marioPolls board).up ≠ 0b010#3 ∧
      (g.newColControl.getLsbD 0 = true → g.goomba = Goomba.startValue 500#10 440#10) ∧
      (∀ i, (g.coins i).coinTaken = false) ∧
      ∀ i : Fin 4, if g.startCoin.getLsbD i.val
        then g.coins i = Coin.startValue (startBlock g.newColControl)
        else ¬ (g.coins i).TakenIn g.mario.marioXPos g.mario.marioYPos)
    ⟨fun ⟨a, b, c, d, e, f, h, i, j, k, l, m, n⟩ => ⟨a, b, c, d, e, f, h, i, j, k, l, m, n⟩,
      fun ⟨a, b, c, d, e, f, h, i, j, k, l, m, n⟩ => ⟨a, b, c, d, e, f, h, i, j, k, l, m, n⟩⟩

theorem Calm.mario_step {board : Board} {g : Game} (calm : g.Calm board) (keycode : BitVec 16) :
    g.mario.step g.resetH false keycode (g.marioPolls board) = g.mario := by
  have horizontal := calm.marioXMotion
  have vertical := calm.marioYMotion
  rcases hmario : g.mario with ⟨⟩
  simp_all [Mario.step, calm.resetH]

theorem Calm.goomba_step {board : Board} {g : Game} (calm : g.Calm board) :
    g.goomba.step g.resetH false (g.newColControl.getLsbD 0) false false 500#10 440#10
      g.mario.marioXPos g.mario.marioYPos (g.goombaPolls board) = g.goomba := by
  rw [calm.resetH]
  cases marked : g.newColControl.getLsbD 0 with
  | true => simp [Goomba.step, calm.goomba marked]
  | false =>
      have vertical := calm.goombaYMotion
      have killed := calm.goombaKilled
      rcases hgoomba : g.goomba with ⟨⟩
      simp_all [Goomba.step]

theorem Calm.blocks_step {board : Board} {g : Game} (calm : g.Calm board) :
    g.blocks.step board g.resetH false g.newBlockId g.mario.marioXPos g.mario.marioYPos =
      g.blocks := by
  have clear : ¬ (g.blocks.marioPolls board g.mario.marioXPos g.mario.marioYPos).up = 0b010#3 :=
    calm.head
  simp [BlockArray.step, calm.resetH, clear]

theorem Calm.coin_step {board : Board} {g : Game} (calm : g.Calm board) (i : Fin 4) :
    (g.coins i).step g.resetH (g.startCoin.getLsbD i.val) false false
      g.mario.marioXPos g.mario.marioYPos (startBlock g.newColControl) = g.coins i := by
  have condition := calm.coin i
  have taken := calm.coinTaken i
  rw [calm.resetH]
  cases started : g.startCoin.getLsbD i.val with
  | true =>
      rw [started, if_pos rfl] at condition
      simp [Coin.step, condition]
  | false =>
      rw [started, if_neg (by decide)] at condition
      rcases hcoin : g.coins i with ⟨⟩
      simp_all [Coin.step]

theorem Calm.idle_self {board : Board} {g : Game} (calm : g.Calm board) : g.idle board = g := by
  have released : (!true || g.goomba.killMario) = g.resetH := by
    rw [calm.killMario, calm.resetH]
    rfl
  apply Game.ext
  case resetH => exact released
  case score => exact scoreIn_idle g calm.coinTaken calm.goombaKilled
  case startCoin => exact calm.startCoin.symm
  case mario => exact calm.mario_step _
  case goomba => exact calm.goomba_step
  case blocks => exact calm.blocks_step
  case level => exact SyncRom.Settled.step_self ⟨calm.address, calm.q⟩
  case coins => exact funext calm.coin_step

theorem idle_killMario (board : Board) (g : Game) (safe : g.goomba.killMario = false) :
    (g.idle board).goomba.killMario = false := by
  simp only [idle, step_goomba, Goomba.step, Pulses.all]
  split
  · rfl
  · split
    · rfl
    · exact safe

theorem iterate_idle_killMario (board : Board) (g : Game) (safe : g.goomba.killMario = false)
    (n : Nat) : ((idle board)^[n] g).goomba.killMario = false := by
  induction n with
  | zero => exact safe
  | succ n ih =>
      rw [Function.iterate_succ_apply']
      exact idle_killMario board _ ih

theorem iterate_idle_resetH (board : Board) (g : Game) (safe : g.goomba.killMario = false)
    (released : g.resetH = false) (n : Nat) : ((idle board)^[n] g).resetH = false := by
  cases n with
  | zero => exact released
  | succ n =>
      rw [Function.iterate_succ_apply']
      simp [idle, iterate_idle_killMario board g safe n]

theorem iterate_idle_calm (board : Board) (g : Game) (cycles : Nat)
    (calm : ((idle board)^[cycles] g).Calm board) (n : Nat) (late : cycles ≤ n) :
    (idle board)^[n] g = (idle board)^[cycles] g := by
  induction n, late using Nat.le_induction with
  | base => rfl
  | succ n late ih => rw [Function.iterate_succ_apply', ih, calm.idle_self]

end Game

/-- Clk cycles between two pulses: 800 * 525 pixels of two cycles. -/
def frameCycles : Nat := 840000

section Frame

variable (board : Board) (start : Toplevel) (inputs : Nat → Input)

theorem run_silent {rising : Bool} (origin : start.clock.AtOrigin rising) (n : Nat)
    (quiet : ∀ k, k < n + 1 → (Toplevel.run board start inputs k).game.resetH = false)
    (bound : n + 1 < frameCycles) :
    (Toplevel.run board start inputs (n + 1)).clock.marioEdge.rising = false := by
  rw [run_rising board start inputs origin n quiet]
  simp only [frameCycles] at bound
  apply decide_eq_false
  omega

theorem run_frame_cycle {rising : Bool} (origin : start.clock.AtOrigin rising)
    (released : ∀ k, k < frameCycles → (inputs k).key0 = true)
    (reset : start.game.resetH = false)
    (safe : (start.game.step board (Pulses.all rising) (inputs 0)).goomba.killMario = false)
    (alive : start.game.goomba.killMario = false) (n : Nat) (bound : n < frameCycles) :
    (∀ k, k < n + 1 → (Toplevel.run board start inputs k).game.resetH = false) ∧
      (Toplevel.run board start inputs (n + 1)).game =
        (Game.idle board)^[n] (start.game.step board (Pulses.all rising) (inputs 0)) := by
  induction n with
  | zero =>
      constructor
      · intro k small
        have zero : k = 0 := by omega
        rw [zero]
        exact reset
      · rw [Toplevel.run_game, Toplevel.run_start,
          FrameClock.pulses_of_synced _ origin.synced, origin.marioEdge]
        rfl
  | succ n ih =>
      rcases ih (by omega) with ⟨quiet, state⟩
      have first : (start.game.step board (Pulses.all rising) (inputs 0)).resetH = false := by
        simp [released 0 (by decide), alive]
      have low : (Toplevel.run board start inputs (n + 1)).game.resetH = false := by
        rw [state]
        exact Game.iterate_idle_resetH board _ safe first n
      have quiet' : ∀ k, k < n + 1 + 1 →
          (Toplevel.run board start inputs k).game.resetH = false := by
        intro k small
        rcases Nat.lt_succ_iff_lt_or_eq.mp small with earlier | rfl
        · exact quiet k earlier
        · exact low
      refine ⟨quiet', ?_⟩
      have clock := run_afterOrigin board start inputs origin (n + 1) quiet
      have silent := run_silent board start inputs origin n quiet bound
      rw [Toplevel.run_game, FrameClock.pulses_of_synced _ clock.synced, silent,
        Game.step_idle _ _ _ (released (n + 1) bound), state, Function.iterate_succ_apply']

/-- A frame ends in the state that the first `cycles + 1` cycles have settled in. -/
theorem run_frame {rising : Bool} (origin : start.clock.AtOrigin rising)
    (released : ∀ k, k < frameCycles → (inputs k).key0 = true)
    (reset : start.game.resetH = false) (alive : start.game.goomba.killMario = false)
    (safe : (start.game.step board (Pulses.all rising) (inputs 0)).goomba.killMario = false)
    (cycles : Nat) (few : cycles < frameCycles)
    (calm : ((Game.idle board)^[cycles]
      (start.game.step board (Pulses.all rising) (inputs 0))).Calm board) :
    (Toplevel.run board start inputs frameCycles).clock.AtOrigin true ∧
      (Toplevel.run board start inputs frameCycles).game =
        (Game.idle board)^[cycles] (start.game.step board (Pulses.all rising) (inputs 0)) := by
  rcases run_frame_cycle board start inputs origin released reset safe alive
    (frameCycles - 1) (by decide) with ⟨quiet, state⟩
  have length : frameCycles - 1 + 1 = frameCycles := rfl
  rw [length] at quiet state
  constructor
  · apply (run_afterOrigin board start inputs origin frameCycles quiet).atOrigin (by decide)
    have pulse := run_rising board start inputs origin (frameCycles - 1) quiet
    rw [length] at pulse
    rw [pulse]
    decide
  · rw [state, Game.iterate_idle_calm board _ cycles calm _ (by omega)]

theorem run_frame_quiet {rising : Bool} (origin : start.clock.AtOrigin rising)
    (released : ∀ k, k < frameCycles → (inputs k).key0 = true)
    (reset : start.game.resetH = false) (alive : start.game.goomba.killMario = false)
    (safe : (start.game.step board (Pulses.all rising) (inputs 0)).goomba.killMario = false)
    (n : Nat) (positive : 0 < n) (bound : n < frameCycles) :
    (Toplevel.run board start inputs n).clock.marioEdge.rising = false := by
  obtain ⟨k, rfl⟩ : ∃ k, n = k + 1 := ⟨n - 1, by omega⟩
  rcases run_frame_cycle board start inputs origin released reset safe alive k
    (by omega) with ⟨quiet, -⟩
  exact run_silent board start inputs origin k quiet bound

end Frame

end FPGAMario
