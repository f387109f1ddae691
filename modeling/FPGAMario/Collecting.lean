import FPGAMario.Frames
import FPGAMario.Score
import FPGAMario.Scrolling

/-! Which coins Mario collects: those that his centre comes close to, in the frame in which it
does, so that no picture shows him on a coin. -/

namespace FPGAMario

open Hdl Game

namespace Coin

theorem untouched_of_still {x y : BitVec 10} {c : Coin} (untaken : c.coinTaken = false)
    (still : c.rest x y = c) : ¬ c.TakenIn x y := by
  intro near
  have taken : (c.rest x y).coinTaken = true := by simp [rest, step, untaken, near]
  rw [still, untaken] at taken
  exact Bool.noConfusion taken

theorem rest_self {x y : BitVec 10} {c : Coin} (untaken : c.coinTaken = false)
    (far : ¬ c.TakenIn x y) : c.rest x y = c := by
  rcases c with ⟨cx, cy, taken, running⟩
  obtain rfl : taken = false := untaken
  simp [rest, step, far]

theorem startValue_untouched {x y : BitVec 10} (block : BitVec 2) (left : x.toNat ≤ 300) :
    ¬ (startValue block).TakenIn x y := by
  rintro ⟨close, _⟩
  have far : marioDist x 500#10 ≤ -200 := by
    rw [marioDist]
    simp only [BitVec.toNat_ofNat]
    omega
  have square : 40000 ≤ marioDist x 500#10 * marioDist x 500#10 := by nlinarith
  have other : 0 ≤ marioDist y (startValue block).coinYPos * marioDist y (startValue block).coinYPos :=
    mul_self_nonneg _
  have bound : coinSize * coinSize = 361 := rfl
  rw [bound] at close
  change marioDist x 500#10 * marioDist x 500#10 + _ ≤ 361 at close
  omega

end Coin

section Frame

variable {board : Board} {start : Toplevel} {inputs : Nat → Input}

theorem untouched_after_pulse (origin : start.clock.AtOrigin true)
    (quiet : ∀ k, k ≤ 840000 → (Toplevel.run board start inputs k).game.resetH = false)
    (band : (Toplevel.run board start inputs 6).game.mario.InBand) {j : Nat} (later : 6 ≤ j)
    (bound : j ≤ 840000) (i : Fin 4) :
    ((Toplevel.run board start inputs j).game.coins i).coinTaken = false ∧
      ¬ ((Toplevel.run board start inputs j).game.coins i).TakenIn
        (Toplevel.run board start inputs j).game.mario.marioXPos
        (Toplevel.run board start inputs j).game.mario.marioYPos := by
  have resting := resting_after_pulse origin (Nat.le_refl 839999) quiet
  have same := game_after_pulse origin quiet later bound
  rw [same, ← game_after_pulse origin quiet (Nat.le_refl 6) (by decide)]
  have untaken := resting.coin_untaken (k := 5) (Nat.le_refl 5) (by decide) i
  refine ⟨untaken, ?_⟩
  have next := resting.coin_step (k := 5) (by decide) (by decide) i
  have still := resting.coin_still (k := 5) (Nat.le_refl 5) (by decide) i
  rw [still] at next
  rcases resting.marioPos (k := 5) (by decide) with ⟨x, y⟩
  rw [← x, ← y] at next
  split at next
  case isTrue =>
    rw [next]
    exact Coin.startValue_untouched _ band.right
  case isFalse => exact Coin.untouched_of_still untaken next.symm

/-- In a frame in which a slot is not started, its coin is picked up exactly if Mario has come
within reach of it. -/
theorem pickup_after_pulse (origin : start.clock.AtOrigin true)
    (quiet : ∀ k, k ≤ 840000 → (Toplevel.run board start inputs k).game.resetH = false) {i : Fin 4}
    (untaken : (start.game.coins i).coinTaken = false)
    (far : ¬ (start.game.coins i).TakenIn start.game.mario.marioXPos start.game.mario.marioYPos)
    (unstarted : ∀ k, k < 840000 →
      (Toplevel.run board start inputs k).game.startCoin.getLsbD i.val = false) :
    (∃ k, k < 840000 ∧ Pickup board start inputs i k) ↔
      ((Toplevel.run board start inputs 1).game.coins i).TakenIn
        (Toplevel.run board start inputs 1).game.mario.marioXPos
        (Toplevel.run board start inputs 1).game.mario.marioYPos := by
  have resting := resting_after_pulse origin (Nat.le_refl 839999) quiet
  have first : ((Toplevel.run board start inputs 1).game.coins i).coinTaken = false := by
    rw [Toplevel.run_game, step_coins, unstarted 0 (by decide), quiet 0 (by decide)]
    simp [Coin.step, untaken, far]
  have next (k : Nat) (below : k < 839999) :
      (Toplevel.run board start inputs (1 + k + 1)).game.coins i =
        ((Toplevel.run board start inputs (1 + k)).game.coins i).rest
          (Toplevel.run board start inputs 1).game.mario.marioXPos
          (Toplevel.run board start inputs 1).game.mario.marioYPos := by
    rcases resting.marioPos below.le with ⟨x, y⟩
    have step : (Toplevel.run board start inputs (1 + k + 1)).game = _ := resting.step k below
    have running : (Toplevel.run board start inputs (1 + k)).game.resetH = false :=
      resting.running k below
    rw [step, step_coins, unstarted (1 + k) (by omega), running, x, y]
    exact Coin.step_rest _ _ _ _ _
  constructor
  · rintro ⟨k, below, fresh, taken⟩
    by_contra away
    have kept (k : Nat) (inside : k ≤ 839999) :
        (Toplevel.run board start inputs (1 + k)).game.coins i =
          (Toplevel.run board start inputs 1).game.coins i := by
      induction k with
      | zero => rfl
      | succ k ih =>
          rw [← Nat.add_assoc, next k inside, ih (Nat.le_of_succ_le inside)]
          exact Coin.rest_self first away
    rw [Nat.add_comm k 1, kept k (by omega), first] at taken
    exact Bool.noConfusion taken
  · intro near
    refine ⟨1, by decide, first, ?_⟩
    rw [next 0 (by decide)]
    simp [Coin.rest, Coin.step, first, near]

end Frame

section Reach

def reachKeys : List (BitVec 8) := List.replicate 201 0x07#8 ++ List.replicate 71 0x1A#8

/-- The coming step of Mario, and no start, brings him within reach of the coin in slot `i`. -/
def reaches (board : Board) (i : Fin 4) (g : Game) : Bool :=
  (g.step board (Pulses.all true) ⟨true, 0#8⟩).force fun first =>
    !g.startCoin.getLsbD i.val && !first.goomba.killMario &&
      decide ((first.coins i).TakenIn first.mario.marioXPos first.mario.marioYPos) &&
      (Game.always board (fun later => !later.startCoin.getLsbD i.val) 5 first &&
        Game.forceIdle board 5 first fun settled => decide (settled.Calm board))

set_option maxRecDepth 100000 in
theorem reach_played :
    playHeld raisedBoard (reaches raisedBoard 0) (reachKeys ++ [0x1A#8]) = true := by
  decide +kernel

theorem reach_earlier : playHeld raisedBoard
    (fun g => g.play raisedBoard (reaches raisedBoard 0) [0x1A#8]) reachKeys = true := by
  rw [← playHeld_append]
  exact reach_played

abbrev reachInputs : Nat → Input := scriptInputs (reachKeys ++ [0x1A#8])

abbrev reachEnd : Nat := scriptEnd (reachKeys ++ [0x1A#8])

theorem raised_unmarked : raisedBoard.Unmarked := by
  intro a
  simp only [raisedBoard]
  split
  · decide
  · split <;> decide

theorem reach_running (k : Nat) : (Toplevel.run raisedBoard (Toplevel.held raisedBoard) reachInputs
    (k + 2)).game.resetH = false :=
  unmarked_resetH raised_unmarked (Toplevel.held raisedBoard) reachInputs rfl k

theorem reaches_frame {board : Board} {i : Fin 4} {g : Game} (passed : reaches board i g = true) :
    let first := g.step board (Pulses.all true) ⟨true, 0#8⟩
    g.startCoin.getLsbD i.val = false ∧ first.goomba.killMario = false ∧
      (first.coins i).TakenIn first.mario.marioXPos first.mario.marioYPos ∧
      ∀ n, ((Game.idle board)^[n] first).startCoin.getLsbD i.val = false := by
  simp only [reaches, Game.force_eq, Game.forceIdle_eq, Bool.and_eq_true, Bool.not_eq_true',
    decide_eq_true_eq] at passed
  rcases passed with ⟨⟨⟨unasked, safe⟩, near⟩, quiet, calm⟩
  refine ⟨unasked, safe, near, fun n => ?_⟩
  rw [← Bool.not_eq_true']
  exact Game.always_frame board _ quiet calm n

theorem reach_frame {last : Nat} (atLast : reachEnd = last) :
    let game (n : Nat) := (Toplevel.run raisedBoard (Toplevel.held raisedBoard) reachInputs
      (last + 1 + n)).game
    ((game 1).coins 0).TakenIn (game 1).mario.marioXPos (game 1).mario.marioYPos ∧
      ∀ n, n < frameCycles → (game n).startCoin.getLsbD 0 = false := by
  intro game
  rcases reaches_frame (playHeld_sound raisedBoard _ _ reach_played).2.2 with
    ⟨unasked, safe, near, quiet⟩
  have cycle := afterScript_cycle raisedBoard _ _ reach_played safe
  have one := (afterScript_one raisedBoard _ _ reach_played).1
  rw [← one] at near
  simp only [afterScript, atLast] at unasked cycle near quiet
  refine ⟨near, ?_⟩
  intro n bound
  cases n with
  | zero => exact unasked
  | succ n =>
      have later := (cycle n (Nat.lt_of_succ_lt bound)).2
      have position : last + 1 + (n + 1) = last + (n + 1) + 1 := Nat.add_right_comm ..
      simp only [game, position]
      rw [later]
      exact quiet n

theorem reach_pulse {last : Nat} (atLast : reachEnd = last) :
    (Toplevel.run raisedBoard (Toplevel.held raisedBoard) reachInputs
      (last + 1)).clock.AtOrigin true := by
  have origin := (playHeld_sound raisedBoard _ _ reach_played).1
  simp only [afterScript, atLast] at origin
  exact origin

theorem reach_pulse_before {first : Nat} (atFirst : scriptEnd reachKeys = first) :
    (Toplevel.run raisedBoard (Toplevel.held raisedBoard) reachInputs
      (first + 1)).clock.AtOrigin true := by
  have origin := (playHeld_sound raisedBoard _ _ reach_earlier).1
  rw [← afterScript_append raisedBoard reachKeys [0x1A#8] _ rfl] at origin
  rw [atFirst] at origin
  exact origin

end Reach

section Runs

theorem pickup_from (board : Board) (start : Toplevel) (inputs : Nat → Input) (i : Fin 4)
    (n k : Nat) : Pickup board (Toplevel.run board start inputs n) (fun j => inputs (n + j)) i k ↔
      Pickup board start inputs i (n + k) := by
  rw [Pickup, Pickup, ← run_from, ← run_from]
  rfl

variable (board : Board) (start : Toplevel) (inputs : Nat → Input) (m : Nat)

/-- No picture shows Mario on a coin: from the sixth cycle after a pulse to the next pulse his centre is
out of reach of every coin that is there. -/
theorem no_coin_at_mario (reset : start.game.resetH = true)
    (pulse : (Toplevel.run board start inputs (m + 2)).clock.marioEdge.rising = true)
    (quiet : ∀ k, k ≤ 840000 → (Toplevel.run board start inputs (m + 2 + k)).game.resetH = false)
    (j : Nat) (later : 6 ≤ j) (bound : j ≤ 840000) (i : Fin 4) :
    ¬ ((Toplevel.run board start inputs (m + 2 + j)).game.coins i).TakenIn
      (Toplevel.run board start inputs (m + 2 + j)).game.mario.marioXPos
      (Toplevel.run board start inputs (m + 2 + j)).game.mario.marioYPos := by
  have origin := pulse_atOrigin board start inputs m pulse
  have band : (Toplevel.run board start inputs (m + 2 + 6)).game.mario.InBand :=
    run_inBand board start inputs reset (m + 7)
  simp only [run_from] at quiet band ⊢
  exact (untouched_after_pulse origin quiet band later bound i).2

/-- Mario's step brings him within reach of a coin, and five cycles later it is gone. -/
theorem no_coin_at_mario_reach :
    let game (j : Nat) := (Toplevel.run raisedBoard (Toplevel.held raisedBoard) reachInputs
      (reachEnd + 1 + j)).game
    ((game 1).coins 0).TakenIn (game 1).mario.marioXPos (game 1).mario.marioYPos ∧
      ¬ ((game 6).coins 0).TakenIn (game 6).mario.marioXPos (game 6).mario.marioYPos := by
  intro game
  obtain ⟨m, last⟩ : ∃ m, reachEnd = m + 1 := Nat.exists_eq_add_one.mpr (scriptEnd_positive _)
  simp only [game]
  rw [last]
  refine ⟨(reach_frame last).1, ?_⟩
  apply no_coin_at_mario raisedBoard (Toplevel.held raisedBoard) reachInputs m rfl
  · exact congrArg EdgeDetector.rising (reach_pulse last).marioEdge
  · intro k _
    rw [Nat.add_right_comm]
    exact reach_running (m + k)
  · decide
  · decide

/-- Coins are collected by touch: in any frame but the first, a coin whose slot is not started in it is
picked up exactly if Mario's step of that frame brings his centre within reach of it. -/
theorem picked_up_iff (reset : start.game.resetH = true)
    (pulse : (Toplevel.run board start inputs (m + 2)).clock.marioEdge.rising = true)
    (quiet : ∀ k, k ≤ 1680000 → (Toplevel.run board start inputs (m + 2 + k)).game.resetH = false)
    (i : Fin 4)
    (unstarted : ∀ k, k < 840000 →
      (Toplevel.run board start inputs (m + 2 + 840000 + k)).game.startCoin.getLsbD i.val = false) :
    (∃ k, k < 840000 ∧ Pickup board start inputs i (m + 2 + 840000 + k)) ↔
      ((Toplevel.run board start inputs (m + 2 + 840000 + 1)).game.coins i).TakenIn
        (Toplevel.run board start inputs (m + 2 + 840000 + 1)).game.mario.marioXPos
        (Toplevel.run board start inputs (m + 2 + 840000 + 1)).game.mario.marioYPos := by
  have origin := pulse_atOrigin board start inputs m pulse
  have band : (Toplevel.run board start inputs (m + 2 + 6)).game.mario.InBand :=
    run_inBand board start inputs reset (m + 7)
  have early (k : Nat) (below : k ≤ 840000) : (Toplevel.run board
      (Toplevel.run board start inputs (m + 2)) (fun k => inputs (m + 2 + k)) k).game.resetH =
        false := by
    rw [← run_from]
    exact quiet k (by omega)
  have late (k : Nat) (below : k ≤ 840000) : (Toplevel.run board
      (Toplevel.run board start inputs (m + 2 + 840000)) (fun k => inputs (m + 2 + 840000 + k))
        k).game.resetH = false := by
    rw [← run_from, Nat.add_assoc (m + 2)]
    exact quiet (840000 + k) (by omega)
  rw [run_from] at band
  rcases untouched_after_pulse origin early band (by decide) (Nat.le_refl 840000) i with
    ⟨untaken, far⟩
  have again := atOrigin_next origin (fun k below => early k below.le)
  rw [← run_from] at untaken far again
  have collected := pickup_after_pulse again late untaken far (fun k below => by
    rw [← run_from]
    exact unstarted k below)
  simp only [pickup_from] at collected
  rw [← run_from] at collected
  exact collected

theorem picked_up_iff_reach :
    let game := (Toplevel.run raisedBoard (Toplevel.held raisedBoard) reachInputs
      (reachEnd + 1 + 1)).game
    (game.coins 0).TakenIn game.mario.marioXPos game.mario.marioYPos ∧
      ((∃ k, k < 840000 ∧ Pickup raisedBoard (Toplevel.held raisedBoard) reachInputs 0
          (reachEnd + 1 + k)) ↔
        (game.coins 0).TakenIn game.mario.marioXPos game.mario.marioYPos) := by
  intro game
  obtain ⟨m, first⟩ := Nat.exists_eq_add_one.mpr (scriptEnd_positive reachKeys)
  obtain ⟨last, atLast⟩ : ∃ last, reachEnd = last := ⟨_, rfl⟩
  have frame : last + 1 = m + 2 + 840000 := by
    rw [← atLast, reachEnd, scriptEnd_append, first]
    exact Nat.add_right_comm (m + 1) 840000 1
  simp only [game]
  rw [atLast]
  refine ⟨(reach_frame atLast).1, ?_⟩
  have quiet := (reach_frame atLast).2
  simp only [frame] at quiet
  rw [frame]
  apply picked_up_iff raisedBoard (Toplevel.held raisedBoard) reachInputs m rfl
  · exact congrArg EdgeDetector.rising (reach_pulse_before first).marioEdge
  · intro k _
    rw [Nat.add_right_comm]
    exact reach_running (m + k)
  · exact quiet

end Runs

end FPGAMario
