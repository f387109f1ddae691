import FPGAMario.Revival

/-! Two deaths on one level: when they restart the game alike, and two that do not. -/

namespace FPGAMario

open Hdl Game

section Single

variable (board : Board) (start : Toplevel) (inputs : Nat → Input) {n : Nat}
  (death : Death board start inputs n)

include death

theorem Death.revived_waiting :
    (Game.revived board (deathColumn board start inputs n) (deathScore board start inputs n)
      (inputs (n + 5))).Waiting board :=
  FPGAMario.revived_waiting board _ _ _ (death.released (n + 5) (by omega))

theorem Death.game_later (k : Nat) (bound : k < frameCycles) :
    (∀ j, j < k + 1 → (afterDeath board start inputs n (3 + j)).game.resetH = false) ∧
      (afterDeath board start inputs n (4 + k)).game =
        (Game.idle board)^[k] (Game.revived board (deathColumn board start inputs n)
          (deathScore board start inputs n) (inputs (n + 5))) := by
  have three := death.state_three
  have later (j : Nat) : afterDeath board start inputs n (3 + j) = Toplevel.run board
      (afterDeath board start inputs n 3) (fun k => inputs (n + 5 + k)) j := by
    rw [afterDeath, ← Nat.add_assoc, sinceReset_add]
  have origin : (afterDeath board start inputs n 3).clock.AtOrigin true := by
    rw [three]
    exact FrameClock.reborn_atOrigin
  have game : (afterDeath board start inputs n 3).game =
      Game.reborn board (deathColumn board start inputs n) (deathScore board start inputs n) := by
    rw [three]
    rfl
  have revived : (afterDeath board start inputs n 3).game.step board (Pulses.all true)
      (inputs (n + 5 + 0)) = Game.revived board (deathColumn board start inputs n)
        (deathScore board start inputs n) (inputs (n + 5)) := by
    rw [game]
    rfl
  rcases run_frame_cycle board (afterDeath board start inputs n 3) _ origin
    (fun k _ => death.released (n + 5 + k) (by omega)) (by rw [game]; rfl)
    (by rw [revived]; exact death.revived_waiting.safe) (by rw [game]; rfl) k bound
    with ⟨quiet, state⟩
  rw [revived, ← later] at state
  have position : 4 + k = 3 + (k + 1) := by omega
  constructor
  · intro j small
    rw [later j]
    exact quiet j small
  · rw [position]
    exact state

theorem Death.lastColumn :
    (afterDeath board start inputs n 16).game.blocks.blockCols 9 =
      blockBits (board.levelMem (deathColumn board start inputs n)) := by
  have sixteen := (death.game_later board start inputs 12 (by decide)).2
  calc (afterDeath board start inputs n 16).game.blocks.blockCols 9 =
        (Game.revived board (deathColumn board start inputs n) (deathScore board start inputs n)
          (inputs (n + 5))).blocks.blockCols 9 := by
        rw [sixteen, death.revived_waiting.iterate_lastColumn]
    _ = blockBits (board.levelMem (deathColumn board start inputs n)) :=
        revived_lastColumn board _ _ _

theorem Death.score :
    (afterDeath board start inputs n 16).game.score = deathScore board start inputs n := by
  have sixteen := (death.game_later board start inputs 12 (by decide)).2
  calc (afterDeath board start inputs n 16).game.score =
        (Game.revived board (deathColumn board start inputs n) (deathScore board start inputs n)
          (inputs (n + 5))).score := by
        rw [sixteen, death.revived_waiting.iterate_score]
    _ = deathScore board start inputs n := revived_score board _ _ _

theorem Death.deserted_iff :
    (afterDeath board start inputs n 16).game.Deserted ↔
      Barren (control (board.levelMem (deathColumn board start inputs n))) ∧
        Barren (control (board.levelMem 10#8)) := by
  rw [(death.game_later board start inputs 12 (by decide)).2]
  exact revived_deserted_iff board _ _ _ (death.released (n + 5) (by omega)) 10

theorem Death.state_four :
    afterDeath board start inputs n 4 =
      ⟨FrameClock.reborn.step false, Game.revived board (deathColumn board start inputs n)
        (deathScore board start inputs n) (inputs (n + 5))⟩ := by
  have step : afterDeath board start inputs n 4 =
      (afterDeath board start inputs n 3).step board (inputs (n + 5)) := rfl
  rw [step, death.state_three]
  rfl

def ResetEnds (board : Board) (start : Toplevel) (inputs : Nat → Input) (n : Nat) : Prop :=
  ∀ k, 1 ≤ k → k ≤ 16 →
    (afterDeath board start inputs n k).game.resetH = decide (k ≤ 2)

theorem Death.resetEnds : ResetEnds board start inputs n := by
  intro k low high
  match k with
  | 1 => exact death.reset_one
  | 2 => exact death.reset_two
  | k + 3 =>
      have late : ¬ k + 3 ≤ 2 := by omega
      rw [decide_eq_false late, Nat.add_comm k 3]
      exact (death.game_later board start inputs k (by simp only [frameCycles]; omega)).1 k
        (Nat.lt_succ_self k)

end Single

section Pair

variable (board : Board) (first second : Toplevel) (inputsFirst inputsSecond : Nat → Input)

/-- What a canonical restart means for two deaths: both Resets end, sixteen cycles after the
deaths the level is deserted, and from then on the games are the same. -/
structure SameRestart (m n : Nat) : Prop where
  resetFirst : ResetEnds board first inputsFirst m
  resetSecond : ResetEnds board second inputsSecond n
  desertedFirst : (afterDeath board first inputsFirst m 16).game.Deserted
  desertedSecond : (afterDeath board second inputsSecond n 16).game.Deserted
  same : ∀ k, 16 ≤ k → (afterDeath board first inputsFirst m k).game =
    (afterDeath board second inputsSecond n k).game

/-- What two deaths must have in common: the blocks of the pending columns and the owed
scores; and neither these columns nor column 10 may ask for a coin or a goomba. -/
structure SameRemains (c d : BitVec 8) (scoreFirst scoreSecond : BitVec 8) : Prop where
  blocks : blockBits (board.levelMem c) = blockBits (board.levelMem d)
  score : scoreFirst = scoreSecond
  barrenFirst : Barren (control (board.levelMem c))
  barrenSecond : Barren (control (board.levelMem d))
  barrenNext : Barren (control (board.levelMem 10#8))

/-- Two deaths, with the same keys afterwards, restart the game alike exactly when their
remains are the same. -/
theorem restart_iff (m n : Nat) (deathFirst : Death board first inputsFirst m)
    (deathSecond : Death board second inputsSecond n)
    (sameKeys : ∀ k, inputsFirst (m + 2 + k) = inputsSecond (n + 2 + k)) :
    SameRestart board first second inputsFirst inputsSecond m n ↔
      SameRemains board (deathColumn board first inputsFirst m)
        (deathColumn board second inputsSecond n) (deathScore board first inputsFirst m)
        (deathScore board second inputsSecond n) := by
  constructor
  · intro restart
    rcases restart with ⟨-, -, desertedFirst, desertedSecond, same⟩
    have equal := same 16 (Nat.le_refl _)
    have column := congrArg (fun g => g.blocks.blockCols 9) equal
    have score := congrArg Game.score equal
    simp only [deathFirst.lastColumn, deathSecond.lastColumn] at column
    rw [deathFirst.score, deathSecond.score] at score
    rcases deathFirst.deserted_iff.mp desertedFirst with ⟨barrenFirst, barrenNext⟩
    rcases deathSecond.deserted_iff.mp desertedSecond with ⟨barrenSecond, -⟩
    exact ⟨column, score, barrenFirst, barrenSecond, barrenNext⟩
  · intro remains
    rcases remains with ⟨blocks, score, barrenFirst, barrenSecond, barrenNext⟩
    refine ⟨deathFirst.resetEnds, deathSecond.resetEnds,
      deathFirst.deserted_iff.mpr ⟨barrenFirst, barrenNext⟩,
      deathSecond.deserted_iff.mpr ⟨barrenSecond, barrenNext⟩, ?_⟩
    intro k late
    have fifth : inputsFirst (m + 5) = inputsSecond (n + 5) := sameKeys 3
    have revived := revived_congr board _ (deathScore board first inputsFirst m)
      (inputsFirst (m + 5)) _ blocks barrenFirst barrenSecond
    have four : afterDeath board first inputsFirst m 4 =
        afterDeath board second inputsSecond n 4 := by
      calc afterDeath board first inputsFirst m 4 =
            ⟨FrameClock.reborn.step false, Game.revived board (deathColumn board first inputsFirst m)
              (deathScore board first inputsFirst m) (inputsFirst (m + 5))⟩ :=
            deathFirst.state_four board first inputsFirst
        _ = ⟨FrameClock.reborn.step false, Game.revived board
              (deathColumn board second inputsSecond n) (deathScore board second inputsSecond n)
              (inputsSecond (n + 5))⟩ := by
            rw [revived, score, fifth]
        _ = afterDeath board second inputsSecond n 4 :=
            (deathSecond.state_four board second inputsSecond).symm
    obtain ⟨j, rfl⟩ : ∃ j, k = 4 + j := ⟨k - 4, by omega⟩
    have positionFirst : m + 1 + (4 + j) + 1 = m + 6 + j := by omega
    have positionSecond : n + 1 + (4 + j) + 1 = n + 6 + j := by omega
    have keys (k : Nat) : inputsFirst (m + 6 + k) = inputsSecond (n + 6 + k) := by
      have same := sameKeys (4 + k)
      rwa [← Nat.add_assoc, ← Nat.add_assoc] at same
    rw [afterDeath, afterDeath, sinceReset, sinceReset, positionFirst, positionSecond,
      Toplevel.run, Toplevel.run, run_add _ _ _ (m + 6) j, run_add _ _ _ (n + 6) j, funext keys]
    exact congrArg (fun s => (Hdl.run (Toplevel.step board) s
      (fun k => inputsSecond (n + 6 + k)) j).game) four

end Pair

section TwoDeaths

def graveBoard : Board where
  levelMem address :=
    if address = 10#8 then 0b000001#6 ++ 0#30 else if address = 14#8 then 1#36 else 0#36
  outside _ _ _ := 0#3

def lateKeys : List (BitVec 8) := List.replicate 149 0x07#8 ++ List.replicate 2 0#8

def earlyKeys : List (BitVec 8) := List.replicate 120 0x07#8 ++ List.replicate 85 0#8

def Dies (board : Board) (c : BitVec 8) (g : Game) : Prop :=
  (g.step board (Pulses.all true) ⟨true, 0#8⟩).goomba.killMario = true ∧
    (g.step board (Pulses.all true) ⟨true, 0#8⟩).blocks.currentBlockCol = c

instance (board : Board) (c : BitVec 8) (g : Game) : Decidable (Dies board c g) :=
  inferInstanceAs (Decidable (_ ∧ _))

set_option maxRecDepth 100000 in
theorem late_played :
    playHeld graveBoard (fun g => decide (Dies graveBoard 14#8 g)) lateKeys = true := by
  decide +kernel

set_option maxRecDepth 100000 in
theorem early_played :
    playHeld graveBoard (fun g => decide (Dies graveBoard 12#8 g)) earlyKeys = true := by
  decide +kernel

theorem script_released (keys : List (BitVec 8)) (k : Nat) (after : scriptEnd keys + 1 < k) :
    (scriptInputs keys k).key0 = true := by
  have released := scriptInputs_end keys (k - scriptEnd keys - 1)
  have position : scriptEnd keys + 1 + (k - scriptEnd keys - 1) = k := by omega
  rw [position] at released
  rw [released]

theorem script_death (board : Board) (c : BitVec 8) (keys : List (BitVec 8))
    (played : playHeld board (fun g => decide (Dies board c g)) keys = true) :
    Death board (Toplevel.held board) (scriptInputs keys) (scriptEnd keys) := by
  rcases playHeld_sound board _ keys played with ⟨-, calm, passed⟩
  rcases afterScript_one board _ keys played with ⟨game, running, -⟩
  have kill := (of_decide_eq_true passed).1
  rw [← game] at kill
  exact ⟨rfl, ⟨calm.killMario, kill⟩, running, script_released keys⟩

theorem script_deathColumn (board : Board) (c : BitVec 8) (keys : List (BitVec 8))
    (played : playHeld board (fun g => decide (Dies board c g)) keys = true) :
    deathColumn board (Toplevel.held board) (scriptInputs keys) (scriptEnd keys) = c := by
  rcases playHeld_sound board _ keys played with ⟨-, -, passed⟩
  have column := (of_decide_eq_true passed).2
  rw [← (afterScript_one board _ keys played).1] at column
  rw [deathColumn, afterDeath, Nat.add_zero]
  exact column

theorem late_death : Death graveBoard (Toplevel.held graveBoard) (scriptInputs lateKeys)
    (scriptEnd lateKeys) :=
  script_death graveBoard 14#8 lateKeys late_played

theorem early_death : Death graveBoard (Toplevel.held graveBoard) (scriptInputs earlyKeys)
    (scriptEnd earlyKeys) :=
  script_death graveBoard 12#8 earlyKeys early_played

theorem deaths_sameKeys (k : Nat) : scriptInputs lateKeys (scriptEnd lateKeys + 2 + k) =
    scriptInputs earlyKeys (scriptEnd earlyKeys + 2 + k) := by
  have late := scriptInputs_end lateKeys (1 + k)
  have early := scriptInputs_end earlyKeys (1 + k)
  rw [← Nat.add_assoc] at late early
  exact late.trans early.symm

theorem restart_iff_deaths :
    SameRestart graveBoard (Toplevel.held graveBoard) (Toplevel.held graveBoard)
        (scriptInputs lateKeys) (scriptInputs earlyKeys) (scriptEnd lateKeys)
        (scriptEnd earlyKeys) ↔
      SameRemains graveBoard
        (deathColumn graveBoard (Toplevel.held graveBoard) (scriptInputs lateKeys)
          (scriptEnd lateKeys))
        (deathColumn graveBoard (Toplevel.held graveBoard) (scriptInputs earlyKeys)
          (scriptEnd earlyKeys))
        (deathScore graveBoard (Toplevel.held graveBoard) (scriptInputs lateKeys)
          (scriptEnd lateKeys))
        (deathScore graveBoard (Toplevel.held graveBoard) (scriptInputs earlyKeys)
          (scriptEnd earlyKeys)) :=
  restart_iff graveBoard (Toplevel.held graveBoard) (Toplevel.held graveBoard)
    (scriptInputs lateKeys) (scriptInputs earlyKeys) (scriptEnd lateKeys) (scriptEnd earlyKeys)
    late_death early_death deaths_sameKeys

/-- Sixteen cycles after the two deaths the windows differ. -/
theorem deaths_differ :
    Death graveBoard (Toplevel.held graveBoard) (scriptInputs lateKeys) (scriptEnd lateKeys) ∧
    Death graveBoard (Toplevel.held graveBoard) (scriptInputs earlyKeys) (scriptEnd earlyKeys) ∧
    (∀ k, scriptInputs lateKeys (scriptEnd lateKeys + 2 + k) =
      scriptInputs earlyKeys (scriptEnd earlyKeys + 2 + k)) ∧
    (afterDeath graveBoard (Toplevel.held graveBoard) (scriptInputs lateKeys)
        (scriptEnd lateKeys) 16).game.blocks.blockCols ≠
      (afterDeath graveBoard (Toplevel.held graveBoard) (scriptInputs earlyKeys)
        (scriptEnd earlyKeys) 16).game.blocks.blockCols := by
  refine ⟨late_death, early_death, deaths_sameKeys, ?_⟩
  intro same
  have column := congrFun same 9
  rw [late_death.lastColumn, early_death.lastColumn,
    script_deathColumn graveBoard 14#8 lateKeys late_played,
    script_deathColumn graveBoard 12#8 earlyKeys early_played] at column
  apply absurd column
  decide

end TwoDeaths

end FPGAMario
