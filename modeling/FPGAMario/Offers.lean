import FPGAMario.Bricks
import FPGAMario.Hdl.PaidOnce
import FPGAMario.Score
import Mathlib.Algebra.Order.BigOperators.Group.Finset

/-! What the level has to offer: every control word that comes to the output of the level memory
pays once at most, however long it stays there. -/

namespace FPGAMario

open Hdl Game

section Words

def worth (w : BitVec 6) : Nat :=
  (if w.getLsbD 5 = true then 1 else 0) + 2 * if w.getLsbD 0 = true then 1 else 0

theorem slots_one (w : BitVec 6) :
    addSlots 0 (fun i => if (startCoinIn w).getLsbD i.val = true then 1 else 0) =
      if w.getLsbD 5 = true then 1 else 0 := by
  revert w
  decide

/-- A coin word asks one slot, so the slots together are asked once for every coin word. -/
theorem count_worth (words : Nat → BitVec 6) (P : Nat) :
    addSlots 0 (fun i => Nat.count (fun p => (startCoinIn (words p)).getLsbD i.val = true) P) +
        2 * Nat.count (fun p => (words p).getLsbD 0 = true) P =
      ∑ p ∈ Finset.range P, worth (words p) := by
  induction P with
  | zero => rfl
  | succ P ih =>
      have slots := slots_one (words P)
      rw [Finset.sum_range_succ, ← ih, worth, ← slots]
      simp only [addSlots, Nat.count_succ]
      omega

end Words

section Requests

variable (board : Board) (start : Toplevel) (inputs : Nat → Input)

/-- The control words in the order in which they come to the output of the level memory from a
Reset on: the three that were on their way, then column 10 and its successors. -/
def request : Nat → BitVec 6
  | 0 => start.game.newColControl
  | 1 => control (board.levelMem start.game.level.address)
  | 2 => control (board.levelMem start.game.blocks.currentBlockCol)
  | p + 3 => control (board.levelMem (BitVec.ofNat 8 (10 + p)))

def requestAt (n : Nat) : Nat := if n < 3 then n else 3 + shifts board start inputs (n - 3)

theorem requestAt_mono : Monotone (requestAt board start inputs) := by
  intro first last ordered
  have grows := shifts_mono board start inputs (first - 3) (last - 3) (by omega)
  simp only [requestAt]
  split
  · split <;> omega
  · split <;> omega

theorem requestAt_le (n : Nat) : requestAt board start inputs n ≤ 3 + shifts board start inputs n := by
  have grows := shifts_mono board start inputs (n - 3) n (by omega)
  simp only [requestAt]
  split <;> omega

variable {board start inputs} (reset : start.game.resetH = true) {n : Nat}

include reset

theorem newColControl_request
    (running : ∀ k, k + 1 < n → (sinceReset board start inputs k).game.resetH = false) :
    (Toplevel.run board start inputs n).game.newColControl =
      request board start (requestAt board start inputs n) := by
  match n, running with
  | 0, _ => rfl
  | 1, _ => rfl
  | 2, _ => rfl
  | n + 3, running =>
      have column : (Toplevel.run board start inputs (n + 1)).game.blocks.currentBlockCol = _ :=
        run_currentBlockCol reset fun k bound => running k (by omega)
      have place : requestAt board start inputs (n + 3) = shifts board start inputs n + 3 := by
        rw [requestAt, if_neg (by omega), Nat.add_sub_cancel, Nat.add_comm]
      rw [newColControl, level_q_two board start inputs (n + 1), column, place]
      rfl

theorem coin_paidOnce (i : Fin 4) : PaidOnce (fun n => CoinStart board start inputs i (n + 1))
    (fun n => Pickup board start inputs i (n + 1)) where
  started n pickup := by
    have off : ¬ ((Toplevel.run board start inputs 1).game.coins i).isRunning = true := by
      rw [coin_reset board start inputs 0 i reset]
      exact Bool.noConfusion
    have runs : ((Toplevel.run board start inputs (n + 1)).game.coins i).isRunning = true := by
      have taken := pickup.2
      rw [Toplevel.run_game, step_coins] at taken
      exact (Coin.taken_step _ _ _ _ _ _ _ _ taken).2
    rcases start_between
      (fun k => ((Toplevel.run board start inputs k).game.coins i).isRunning = true)
      (CoinStart board start inputs i) 1 (n + 1) (by omega)
      (fun k _ => coin_stays_off board start inputs i k) off runs with ⟨k, low, high, starts⟩
    obtain ⟨k, rfl⟩ := Nat.exists_eq_add_of_le' low
    exact ⟨k, by omega, starts⟩
  between first second ordered earlier later := by
    rcases pickups_started board start inputs i (first + 1) (second + 1) (by omega) earlier later
      with ⟨k, low, high, starts⟩
    obtain ⟨k, rfl⟩ : ∃ j, k = j + 1 := ⟨k - 1, by omega⟩
    exact ⟨k, by omega, by omega, starts⟩
  silent n pickup starts := by
    have taken := pickup.2
    rw [coin_started board start inputs (n + 1) i starts.1 starts.2] at taken
    exact Bool.noConfusion taken

theorem goomba_paidOnce : PaidOnce (fun n => GoombaStart board start inputs (n + 1))
    (fun n => Squish board start inputs (n + 1)) where
  started n squish := by
    have dead : ¬ (Toplevel.run board start inputs 1).game.goomba.isAlive = true := by
      rw [Toplevel.run_game, step_goomba, Toplevel.run_start, reset]
      exact Bool.noConfusion
    rcases start_between
      (fun k => (Toplevel.run board start inputs k).game.goomba.isAlive = true)
      (GoombaStart board start inputs) 1 (n + 1) (by omega)
      (fun k _ => goomba_stays_dead board start inputs k) dead squish.2.2.2.1
      with ⟨k, low, high, starts⟩
    obtain ⟨k, rfl⟩ := Nat.exists_eq_add_of_le' low
    exact ⟨k, by omega, starts⟩
  between first second ordered earlier later := by
    rcases squishes_started board start inputs (first + 1) (second + 1) (by omega) earlier later
      with ⟨k, low, high, starts⟩
    obtain ⟨k, rfl⟩ : ∃ j, k = j + 1 := ⟨k - 1, by omega⟩
    exact ⟨k, by omega, by omega, starts⟩
  silent n squish starts := by
    have low := squish.2.1
    rw [starts.2] at low
    exact Bool.noConfusion low

variable (board inputs) in
theorem rewards_one : rewards board start inputs 1 = 0 := by
  have coin (i : Fin 4) : ¬ Pickup board start inputs i 0 := by
    intro pickup
    have taken := pickup.2
    rw [coin_reset board start inputs 0 i reset] at taken
    exact Bool.noConfusion taken
  have goomba : ¬ Squish board start inputs 0 := by
    intro squish
    have running : start.game.resetH = false := squish.1
    rw [reset] at running
    exact Bool.noConfusion running
  simp [rewards, addSlots, Nat.count_succ, coin, goomba]

theorem rewards_add_two (N : Nat) : rewards board start inputs (N + 2) =
    addSlots 0 (fun i => Nat.count (fun n => Pickup board start inputs i (n + 1)) (N + 1)) +
      2 * Nat.count (fun n => Squish board start inputs (n + 1)) (N + 1) := by
  have none := rewards_one board inputs reset
  simp only [rewards, addSlots, Nat.count_one] at none
  simp only [rewards, addSlots, Nat.count_succ' _ (N + 1)]
  omega

theorem pickups_le (i : Fin 4) (N : Nat)
    (running : ∀ k, k ≤ N → (sinceReset board start inputs k).game.resetH = false) :
    Nat.count (fun n => Pickup board start inputs i (n + 1)) (N + 1) ≤
      Nat.count (fun p => (startCoinIn (request board start p)).getLsbD i.val = true)
        (requestAt board start inputs N + 1) := by
  apply (coin_paidOnce reset i).count_le (requestAt_mono board start inputs)
  intro n bound
  have word := newColControl_request (n := n) reset fun k below => running k (by omega)
  have raised : (Toplevel.run board start inputs (n + 1)).game.startCoin = _ :=
    congrArg startCoinIn word
  rw [CoinStart, running n bound, raised]
  exact and_iff_right rfl

theorem squishes_le (N : Nat)
    (running : ∀ k, k ≤ N → (sinceReset board start inputs k).game.resetH = false) :
    Nat.count (fun n => Squish board start inputs (n + 1)) (N + 1) ≤
      Nat.count (fun p => (request board start p).getLsbD 0 = true)
        (requestAt board start inputs (N + 1) + 1) := by
  have mono : Monotone (fun n => requestAt board start inputs (n + 1)) :=
    fun first last ordered => requestAt_mono board start inputs (Nat.succ_le_succ ordered)
  apply (goomba_paidOnce reset).count_le mono
  intro n bound
  have word := newColControl_request (n := n + 1) reset fun k below => running k (by omega)
  rw [GoombaStart, running n bound, word]
  exact and_iff_right rfl

theorem rewards_le (n : Nat)
    (running : ∀ k, k < n → (sinceReset board start inputs k).game.resetH = false) :
    rewards board start inputs (n + 1) ≤
      ∑ p ∈ Finset.range (4 + shifts board start inputs n), worth (request board start p) := by
  cases n with
  | zero =>
      rw [rewards_one board inputs reset]
      exact Nat.zero_le _
  | succ N =>
      have unreset (k : Nat) (bound : k ≤ N) := running k (Nat.lt_succ_of_le bound)
      have seen := requestAt_le board start inputs (N + 1)
      have ordered := requestAt_mono board start inputs (Nat.le_add_right N 1)
      have coins (i : Fin 4) := (pickups_le reset i N unreset).trans
        (Nat.count_monotone _ (show requestAt board start inputs N + 1 ≤
          4 + shifts board start inputs (N + 1) by omega))
      have goombas := (squishes_le reset N unreset).trans
        (Nat.count_monotone _ (show requestAt board start inputs (N + 1) + 1 ≤
          4 + shifts board start inputs (N + 1) by omega))
      have first := coins 0
      have second := coins 1
      have third := coins 2
      have fourth := coins 3
      rw [rewards_add_two reset, ← count_worth]
      simp only [addSlots]
      omega

end Requests

section Bound

variable (board : Board) (start : Toplevel) (inputs : Nat → Input)

def offered (columns : Nat) : Nat :=
  ∑ p ∈ Finset.range columns, worth (control (board.levelMem (BitVec.ofNat 8 (10 + p))))

/-- What the three words offer that are on their way when the Reset comes. -/
def leftOver : Nat :=
  worth (request board start 0) + worth (request board start 1) + worth (request board start 2)

theorem sum_request (columns : Nat) :
    ∑ p ∈ Finset.range (3 + columns), worth (request board start p) =
      leftOver board start + offered board columns := by
  induction columns with
  | zero => simp [Finset.sum_range_succ, leftOver, offered]
  | succ columns ih =>
      have word : request board start (3 + columns) =
          control (board.levelMem (BitVec.ofNat 8 (10 + columns))) := by
        rw [Nat.add_comm]
        rfl
      rw [← Nat.add_assoc, Finset.sum_range_succ, ih, word, offered, offered,
        Finset.sum_range_succ, Nat.add_assoc]

theorem offered_mono {few many : Nat} (ordered : few ≤ many) :
    offered board few ≤ offered board many :=
  Finset.sum_le_sum_of_subset (Finset.range_mono ordered)

theorem rewards_le_offered (reset : start.game.resetH = true) (n : Nat)
    (running : ∀ k, k < n → (sinceReset board start inputs k).game.resetH = false) :
    rewards board start inputs (n + 1) ≤
      leftOver board start + offered board (shifts board start inputs n + 1) := by
  have bound := rewards_le reset n running
  have columns : 4 + shifts board start inputs n = 3 + (shifts board start inputs n + 1) := by omega
  rwa [columns, sum_request] at bound

end Bound

/-- The level pays once: from a Reset on the points never exceed what is offered by the columns
that have been next to come in, and by the words that the Reset found on their way. -/
theorem level_pays_once (board : Board) (start : Toplevel) (inputs : Nat → Input)
    (reset : start.game.resetH = true) (n : Nat)
    (running : ∀ k, k < n → (sinceReset board start inputs k).game.resetH = false) :
    rewards board start inputs (n + 1) ≤
      leftOver board start + ∑ p ∈ Finset.range (shifts board start inputs n + 1),
        worth (control (board.levelMem (BitVec.ofNat 8 (10 + p)))) :=
  rewards_le_offered board start inputs reset n running

/-- Column 10 is a coin, and it is next when Mario walks to the first scroll. -/
theorem level_pays_once_walk :
    rewards lowBoard (Toplevel.held lowBoard) (scriptInputs walkKeys) (scriptEnd walkKeys + 1) ≤
      leftOver lowBoard (Toplevel.held lowBoard) + ∑ p ∈ Finset.range
        (shifts lowBoard (Toplevel.held lowBoard) (scriptInputs walkKeys) (scriptEnd walkKeys) + 1),
        worth (control (lowBoard.levelMem (BitVec.ofNat 8 (10 + p)))) := by
  have unmarked : lowBoard.Unmarked := by
    intro a
    change (control (if a = 10#8 then 0b100000#6 ++ 0#30 else 0#36)).getLsbD 0 = false
    split <;> decide
  apply level_pays_once lowBoard (Toplevel.held lowBoard) (scriptInputs walkKeys) rfl
    (scriptEnd walkKeys)
  intro k _
  cases k with
  | zero => rfl
  | succ k => exact unmarked_resetH unmarked (Toplevel.held lowBoard) _ rfl k

end FPGAMario
