import FPGAMario.Contact

/-! From the cycle in which `kill_Mario` rises to the end of the Reset it causes. -/

namespace FPGAMario

open Hdl Game BlockArray

namespace Coin

theorem step_taken_quiet (start shift : Bool) (x y : BitVec 10) (block : BitVec 2) (c : Coin) :
    (c.step false start false shift x y block).coinTaken =
      decide (start = false ∧ c.coinTaken = false ∧ c.TakenIn x y) := by
  cases start with
  | true => simp [step, startValue]
  | false =>
      cases taken : c.coinTaken with
      | true => simp [step, taken]
      | false => simp [step, taken]

end Coin

section Reborn

/-- `coin_taken_in` of slot `i`, where neither the start nor the end of the coin comes first. -/
def Game.Touched (g : Game) (i : Fin 4) : Prop :=
  g.startCoin.getLsbD i.val = false ∧ (g.coins i).coinTaken = false ∧
    (g.coins i).TakenIn g.mario.marioXPos g.mario.marioYPos

instance (g : Game) (i : Fin 4) : Decidable (g.Touched i) :=
  inferInstanceAs (Decidable (_ ∧ _ ∧ _))

/-- The score with the pickups that are still on their way to the adder. -/
def Game.owedScore (g : Game) : BitVec 8 :=
  addSlots g.scoreIn (fun i => bit8 (decide (g.Touched i)))

/-- The game in the third cycle after a death with column `c` pending: Reset is over, and the
ROM still shows that column. -/
def Game.reborn (board : Board) (c : BitVec 8) (score : BitVec 8) : Game where
  resetH := false
  score := score
  startCoin := startCoinIn (control (board.levelMem c))
  mario := Mario.resetValue
  goomba := Goomba.resetValue
  blocks := ⟨fun _ => blockBits (board.levelMem c), 10#8⟩
  level := ⟨10#8, board.levelMem c⟩
  coins := fun _ => Coin.resetValue

/-- The scan has just been reset to the origin, so the first pulse comes at once. -/
def FrameClock.reborn : FrameClock where
  vgaClk := false
  vga := ⟨false, false, false, 0#10, 0#10⟩
  marioEdge := ⟨true, true⟩
  goombaEdge := ⟨true, true⟩
  coinEdge := fun _ => ⟨true, true⟩

theorem FrameClock.reborn_atOrigin : FrameClock.reborn.AtOrigin true :=
  ⟨⟨rfl, fun _ => rfl⟩, rfl, rfl, rfl, rfl⟩

/-- A Reset that is seen two cycles after a pulse restarts the scan, whatever comes in the
other cycles. -/
theorem FrameClock.AtOrigin.reset_restarts {rising : Bool} {c : FrameClock}
    (origin : c.AtOrigin rising) (second fourth : Bool) :
    (((c.step false).step second).step true).step fourth = FrameClock.reborn := by
  have away := origin.away
  rcases origin with ⟨⟨goomba, coins⟩, vgaClk, -, -, edge⟩
  have restarted : ((c.vga.step false).step true).frameClk = true := rfl
  simp only [FrameClock.step, FrameClock.reborn, EdgeDetector.step, vgaClk, away, restarted,
    Bool.not_false, Bool.not_true, Bool.false_eq_true, if_true, if_false, Bool.and_self]
  rfl

def Toplevel.reborn (board : Board) (c : BitVec 8) (score : BitVec 8) : Toplevel :=
  ⟨FrameClock.reborn, Game.reborn board c score⟩

end Reborn

section Death

variable (board : Board) (start : Toplevel) (inputs : Nat → Input)

/-- `kill_Mario` rises at edge `n`, with `KEY[0]` released there and from then on. -/
structure Death (n : Nat) : Prop where
  reset : start.game.resetH = true
  raised : KillRaised board start inputs n
  running : (sinceReset board start inputs (n + 1)).game.resetH = false
  released : ∀ k, n + 1 < k → (inputs k).key0 = true

abbrev afterDeath (n k : Nat) : Toplevel := sinceReset board start inputs (n + 1 + k)

abbrev deathColumn (n : Nat) : BitVec 8 :=
  (afterDeath board start inputs n 0).game.blocks.currentBlockCol

abbrev deathScore (n : Nat) : BitVec 8 := (afterDeath board start inputs n 0).game.owedScore

theorem near_later (reset : start.game.resetH = true) (m : Nat)
    (near : (sinceReset board start inputs (m + 1)).game.Near) : 0 < m := by
  have band := run_inBand board start inputs reset m
  rw [sinceReset, Toplevel.run_game] at near
  rcases step_near board _ _ _ band near with ⟨-, idle⟩
  exact alive_later board start inputs reset m (step_alive board _ _ _ idle near.alive)

theorem near_back (reset : start.game.resetH = true) (m : Nat)
    (quiet : ¬ FramePulse board start inputs m)
    (near : (sinceReset board start inputs (m + 1)).game.Near) :
    (sinceReset board start inputs m).game.Near ∧
      (sinceReset board start inputs (m + 1)).game.blocks.currentBlockCol =
        (sinceReset board start inputs m).game.blocks.currentBlockCol := by
  have band := run_inBand board start inputs reset m
  have later := near_later board start inputs reset m near
  have step := run_quietStep board start inputs m later quiet
  rw [step] at near ⊢
  rcases step_near board _ _ _ band near with ⟨running, low⟩
  exact ⟨(step_samePlace board _ _ running low).near near,
    step_keptCol board _ _ _ running rfl⟩

/-- When the goomba kills Mario, the ROM has long settled on the pending column. -/
theorem killRaised_settled (reset : start.game.resetH = true)
    (n : Nat) (raised : KillRaised board start inputs n) :
    (sinceReset board start inputs n).game.level.Settled board.levelMem
      (sinceReset board start inputs n).game.blocks.currentBlockCol := by
  have pulse := killRaised_pulse board start inputs reset n raised
  have later := killRaised_later board start inputs reset n raised
  have collision := killRaised_collision board start inputs reset n raised
  have near : (sinceReset board start inputs n).game.Near :=
    ⟨collision.alive, by have touching := collision.touching; omega⟩
  rcases Nat.exists_eq_add_one.mpr later with ⟨m, rfl⟩
  have laterBefore := near_later board start inputs reset m near
  have quiet : ¬ FramePulse board start inputs m := by
    intro earlier
    exact (pulse_alone board start inputs m laterBefore earlier).1 pulse
  rcases near_back board start inputs reset m quiet near with ⟨nearBefore, column⟩
  rcases Nat.exists_eq_add_one.mpr laterBefore with ⟨l, rfl⟩
  have quietBefore : ¬ FramePulse board start inputs l := by
    intro earlier
    have earliest := near_later board start inputs reset l nearBefore
    exact (pulse_alone board start inputs l earliest earlier).2 pulse
  rcases near_back board start inputs reset l quietBefore nearBefore with ⟨-, columnBefore⟩
  refine ⟨column.symm, ?_⟩
  rw [column, columnBefore]
  exact level_q_two board start inputs (l + 1)

variable {n : Nat} (death : Death board start inputs n)

include death

theorem Death.quiet : ¬ FramePulse board start inputs (n + 1) ∧
    ¬ FramePulse board start inputs (n + 2) := by
  have pulse := killRaised_pulse board start inputs death.reset n death.raised
  have later := killRaised_later board start inputs death.reset n death.raised
  exact pulse_alone board start inputs n later pulse

theorem Death.step_zero :
    (afterDeath board start inputs n 1).game =
      (afterDeath board start inputs n 0).game.step board (Pulses.all false) (inputs (n + 2)) :=
  run_quietStep board start inputs (n + 1) (Nat.succ_pos n) (death.quiet board start inputs).1

theorem Death.step_one :
    (afterDeath board start inputs n 2).game =
      (afterDeath board start inputs n 1).game.step board (Pulses.all false) (inputs (n + 3)) :=
  run_quietStep board start inputs (n + 2) (Nat.succ_pos _) (death.quiet board start inputs).2

theorem Death.unmarked :
    (afterDeath board start inputs n 0).game.newColControl.getLsbD 0 = false := by
  have settled := killRaised_settled board start inputs death.reset n death.raised
  have collision := killRaised_collision board start inputs death.reset n death.raised
  have same : (afterDeath board start inputs n 0).game.newColControl =
      (sinceReset board start inputs n).game.newColControl := by
    calc (afterDeath board start inputs n 0).game.newColControl =
          control (board.levelMem (sinceReset board start inputs n).game.level.address) := rfl
      _ = control (board.levelMem
          (sinceReset board start inputs n).game.blocks.currentBlockCol) := by rw [settled.1]
      _ = (sinceReset board start inputs n).game.newColControl := by
          rw [newColControl, settled.2]
  rw [same]
  exact collision.idle

theorem Death.reset_one : (afterDeath board start inputs n 1).game.resetH = true := by
  rw [death.step_zero, step_resetH, death.raised.2, Bool.or_true]

theorem Death.goomba_one : (afterDeath board start inputs n 1).game.goomba =
    { (afterDeath board start inputs n 0).game.goomba with
      goombaYMotion := 0#10, goombaKilled := false } := by
  rw [death.step_zero, step_goomba, death.running, death.unmarked]
  rfl

theorem Death.reset_two : (afterDeath board start inputs n 2).game.resetH = true := by
  rw [death.step_one, step_resetH, death.goomba_one, death.raised.2, Bool.or_true]

theorem Death.scoreIn_one :
    (afterDeath board start inputs n 1).game.scoreIn =
      (afterDeath board start inputs n 0).game.owedScore := by
  have coin (i : Fin 4) : ((afterDeath board start inputs n 1).game.coins i).coinTaken =
      decide ((afterDeath board start inputs n 0).game.Touched i) := by
    rw [death.step_zero, step_coins, death.running]
    apply Coin.step_taken_quiet
  have score : (afterDeath board start inputs n 1).game.score =
      (afterDeath board start inputs n 0).game.scoreIn := rfl
  simp only [scoreIn, owedScore, score, coin, death.goomba_one]
  simp [bit8]

theorem Death.cleared_two :
    (afterDeath board start inputs n 2).game.goomba = Goomba.resetValue ∧
      (∀ i, (afterDeath board start inputs n 2).game.coins i = Coin.resetValue) ∧
      (afterDeath board start inputs n 2).game.blocks.currentBlockCol = 10#8 := by
  have reset := death.reset_one
  refine ⟨?_, ?_, ?_⟩
  · rw [death.step_one, step_goomba, reset]
    rfl
  · intro i
    rw [death.step_one, step_coins, reset]
    rfl
  · rw [death.step_one, step_resetBlocks _ _ _ _ reset]

theorem Death.column_one :
    (afterDeath board start inputs n 1).game.blocks.currentBlockCol =
      (afterDeath board start inputs n 0).game.blocks.currentBlockCol := by
  rw [death.step_zero]
  apply step_keptCol
  · exact death.running
  · rfl

/-- In the third cycle the game is as after any Reset, but for the score and for the column
that was pending at the death. -/
theorem Death.game_three :
    (afterDeath board start inputs n 3).game =
      Game.reborn board (deathColumn board start inputs n) (deathScore board start inputs n) := by
  rcases death.cleared_two with ⟨goomba, coins, column⟩
  have reset := death.reset_two
  have released : (inputs (n + 4)).key0 = true := death.released (n + 4) (by omega)
  have word : (afterDeath board start inputs n 2).game.level.q =
      board.levelMem (deathColumn board start inputs n) :=
    level_q_two board start inputs (n + 2)
  have next : (afterDeath board start inputs n 3).game.level.q =
      board.levelMem (deathColumn board start inputs n) := by
    rw [deathColumn, ← death.column_one]
    exact level_q_two board start inputs (n + 3)
  have owed : (afterDeath board start inputs n 2).game.score =
      (afterDeath board start inputs n 0).game.owedScore := death.scoreIn_one
  have step : (afterDeath board start inputs n 3).game =
      (afterDeath board start inputs n 2).game.step board
        (afterDeath board start inputs n 2).clock.pulses (inputs (n + 4)) := rfl
  refine Game.ext ?_ ?_ ?_ ?_ ?_ ?_ ?_ ?_
  · rw [step, step_resetH, released, goomba]
    rfl
  · rw [step, step_score, scoreIn_idle _ (fun i => by rw [coins i]; rfl) (by rw [goomba]; rfl),
      owed]
    rfl
  · rw [step, step_startCoin, newColControl, word]
    rfl
  · rw [step, step_mario, reset]
    rfl
  · rw [step, step_goomba, reset]
    rfl
  · rw [step, step_resetBlocks _ _ _ _ reset, newBlockId, word]
    rfl
  · have address : (afterDeath board start inputs n 3).game.level.address = 10#8 := column
    calc (afterDeath board start inputs n 3).game.level =
          ⟨(afterDeath board start inputs n 3).game.level.address,
            (afterDeath board start inputs n 3).game.level.q⟩ := rfl
      _ = ⟨10#8, board.levelMem (deathColumn board start inputs n)⟩ := by
          rw [address, next]
  · funext i
    rw [step, step_coins, reset]
    rfl

theorem Death.state_three :
    afterDeath board start inputs n 3 =
      Toplevel.reborn board (deathColumn board start inputs n)
        (deathScore board start inputs n) := by
  have pulse := killRaised_pulse board start inputs death.reset n death.raised
  have later := killRaised_later board start inputs death.reset n death.raised
  have collision := killRaised_collision board start inputs death.reset n death.raised
  have reset := death.reset_one
  have game := death.game_three
  rcases Nat.exists_eq_add_one.mpr later with ⟨j, rfl⟩
  have origin := pulse_atOrigin board start inputs j pulse
  have clock : (afterDeath board start inputs (j + 1) 3).clock =
      ((((sinceReset board start inputs (j + 1)).clock.step false).step
          (afterDeath board start inputs (j + 1) 0).game.resetH).step true).step
        (afterDeath board start inputs (j + 1) 2).game.resetH := by
    rw [← collision.running, ← reset]
    rfl
  rw [origin.reset_restarts] at clock
  calc afterDeath board start inputs (j + 1) 3 =
        ⟨(afterDeath board start inputs (j + 1) 3).clock,
          (afterDeath board start inputs (j + 1) 3).game⟩ := rfl
    _ = _ := by
        rw [clock, game]
        rfl

end Death

end FPGAMario
