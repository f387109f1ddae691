import FPGAMario.Contact
import FPGAMario.CoinRequest

/-! A coin against the level column it belongs to, from the scroll that brings the column in
until the column has left the window. -/

namespace FPGAMario

open Hdl Game BlockArray

namespace Coin

theorem step_scrolls (pulse shift : Bool) (x y : BitVec 10) (block : BitVec 2) (c : Coin)
    (untaken : c.coinTaken = false) :
    ((c.step false false pulse shift x y block).coinXPos.toNat =
        if pulse = true ∧ 120 ≤ c.coinXPos.toNat ∧ shift = true then c.coinXPos.toNat - 40
        else c.coinXPos.toNat) ∧
      ((c.step false false pulse shift x y block).isRunning = true ↔
        c.isRunning = true ∧ ¬ (pulse = true ∧ c.coinXPos.toNat < 120)) := by
  constructor
  · simp only [step, Bool.false_eq_true, if_false, untaken]
    by_cases scrolls : pulse = true ∧ coinXMin ≤ c.coinXPos ∧ shift = true
    · have wide : 120 ≤ c.coinXPos.toNat := scrolls.2.1
      rw [if_pos scrolls, if_pos ⟨scrolls.1, wide, scrolls.2.2⟩]
      bv_omega
    · rw [if_neg scrolls, if_neg]
      exact fun again => scrolls ⟨again.1, again.2.1, again.2.2⟩
  · simp only [step, Bool.false_eq_true, if_false, untaken]
    by_cases out : pulse = true ∧ c.coinXPos < coinXMin
    · have left : c.coinXPos.toNat < 120 := out.2
      simp [out, left]
    · have kept : ¬ (pulse = true ∧ c.coinXPos.toNat < 120) := fun again => out again
      simp [out, kept]

end Coin

namespace Game

/-- The coin of slot `i` after `m` scrolls have followed the one that brought column `c` in. -/
structure OnColumn (c : BitVec 8) (i : Fin 4) (m : Nat) (g : Game) : Prop where
  column : g.blocks.currentBlockCol = c + 1#8 + BitVec.ofNat 8 m
  inside : m ≤ 9 → (g.coins i).isRunning = true ∧ (g.coins i).coinXPos.toNat = 140 + 40 * (9 - m)
  outside : 10 ≤ m → (g.coins i).coinXPos.toNat = 100 ∧
    ((g.coins i).isRunning = true → m = 10 ∧ g.mario.marioXPos.toNat < 299)

theorem OnColumn.of_started {c : BitVec 8} {i : Fin 4} {block : BitVec 2} {g : Game}
    (column : g.blocks.currentBlockCol = c + 1#8) (coin : g.coins i = Coin.startValue block) :
    g.OnColumn c i 0 where
  column := by
    rw [column]
    exact (BitVec.add_zero _).symm
  inside _ := by
    rw [coin]
    exact ⟨rfl, rfl⟩
  outside late := by omega

variable {board : Board} {pulse : Bool} {input : Input} {g : Game}

theorem step_marioXPos_still (running : g.resetH = false) :
    (g.step board (Pulses.all false) input).mario.marioXPos = g.mario.marioXPos := by
  rw [step_mario, running]
  rfl

theorem step_coins_all (i : Fin 4) : (g.step board (Pulses.all pulse) input).coins i =
    (g.coins i).step g.resetH (g.startCoin.getLsbD i.val) pulse (g.mario.shift pulse)
      g.mario.marioXPos g.mario.marioYPos (startBlock g.newColControl) := rfl

theorem OnColumn.shift {c : BitVec 8} {i : Fin 4} {m : Nat} (band : g.mario.InBand)
    (running : g.resetH = false) (idle : g.startCoin.getLsbD i.val = false)
    (untaken : (g.coins i).coinTaken = false) (shift : g.mario.shift pulse = true)
    (on : g.OnColumn c i m) : (g.step board (Pulses.all pulse) input).OnColumn c i (m + 1) := by
  rcases (Mario.shift_eq_true _ _).mp shift with ⟨rfl, past⟩
  have mario := (step_xPos board (Pulses.all true) input g band).2.1 running shift
  have right := band.right
  have coin : (g.step board (Pulses.all true) input).coins i =
      (g.coins i).step false false true true g.mario.marioXPos g.mario.marioYPos
        (startBlock g.newColControl) := by
    rw [step_coins_all, running, idle, shift]
  rcases Coin.step_scrolls true true g.mario.marioXPos g.mario.marioYPos
    (startBlock g.newColControl) (g.coins i) untaken with ⟨position, runs⟩
  rw [← coin] at position runs
  constructor
  · rw [step_shiftBlocks board (Pulses.all true) input g running shift, on.column]
    apply BitVec.eq_of_toNat_eq
    simp only [BitVec.toNat_add, BitVec.toNat_ofNat]
    omega
  · intro inside
    rcases on.inside (by omega) with ⟨was, place⟩
    rw [if_pos ⟨rfl, by omega, rfl⟩] at position
    exact ⟨runs.mpr ⟨was, by omega⟩, by omega⟩
  · intro outside
    rcases Nat.lt_or_eq_of_le outside with beyond | last
    · rcases on.outside (by omega) with ⟨place, stopped⟩
      rw [if_neg (by omega)] at position
      refine ⟨by omega, ?_⟩
      intro still
      have near := (stopped (runs.mp still).1).2
      omega
    · rcases on.inside (by omega) with ⟨-, place⟩
      rw [if_pos ⟨rfl, by omega, rfl⟩] at position
      refine ⟨by omega, ?_⟩
      intro _
      exact ⟨last.symm, by omega⟩

theorem OnColumn.still {c : BitVec 8} {i : Fin 4} {m : Nat} (running : g.resetH = false)
    (idle : g.startCoin.getLsbD i.val = false) (untaken : (g.coins i).coinTaken = false)
    (still : g.mario.shift pulse = false) (on : g.OnColumn c i m) :
    (g.step board (Pulses.all pulse) input).OnColumn c i m := by
  have coin : (g.step board (Pulses.all pulse) input).coins i =
      (g.coins i).step false false pulse false g.mario.marioXPos g.mario.marioYPos
        (startBlock g.newColControl) := by
    rw [step_coins_all, running, idle, still]
  rcases Coin.step_scrolls pulse false g.mario.marioXPos g.mario.marioYPos
    (startBlock g.newColControl) (g.coins i) untaken with ⟨position, runs⟩
  rw [← coin] at position runs
  rw [if_neg (by simp)] at position
  constructor
  · rw [step_keptCol board (Pulses.all pulse) input g running still]
    exact on.column
  · intro inside
    rcases on.inside inside with ⟨was, place⟩
    exact ⟨runs.mpr ⟨was, by omega⟩, position.trans place⟩
  · intro outside
    rcases on.outside outside with ⟨place, stopped⟩
    refine ⟨position.trans place, ?_⟩
    intro after
    rcases runs.mp after with ⟨was, silent⟩
    cases pulse with
    | true => exact absurd ⟨rfl, by omega⟩ silent
    | false =>
        rw [step_marioXPos_still running]
        exact stopped was

end Game

section Riding

variable (board : Board) (start : Toplevel) (inputs : Nat → Input)

/-- From the scroll at cycle `s` to cycle `n` the slot is neither reset nor taken, nor started
by a later column. -/
structure Riding (i : Fin 4) (s n : Nat) : Prop where
  running : ∀ k, s < k → k < n → (sinceReset board start inputs k).game.resetH = false
  untaken : ∀ k, s < k → k < n →
    ((sinceReset board start inputs k).game.coins i).coinTaken = false
  unstarted : ∀ k, s + 4 ≤ k → k < n →
    (sinceReset board start inputs k).game.startCoin.getLsbD i.val = false

def scrollsAfter (s n : Nat) : Nat :=
  shifts board start inputs n - shifts board start inputs (s + 1)

variable {board start inputs}

theorem Riding.before {i : Fin 4} {s m n : Nat} (riding : Riding board start inputs i s n)
    (earlier : m ≤ n) : Riding board start inputs i s m where
  running k low high := riding.running k low (Nat.lt_of_lt_of_le high earlier)
  untaken k low high := riding.untaken k low (Nat.lt_of_lt_of_le high earlier)
  unstarted k low high := riding.unstarted k low (Nat.lt_of_lt_of_le high earlier)

variable (board start inputs)

theorem scrollsAfter_succ_of_shift (s n : Nat) (later : s < n)
    (shift : (sinceReset board start inputs n).shift = true) :
    scrollsAfter board start inputs s (n + 1) = scrollsAfter board start inputs s n + 1 := by
  have mono := shifts_mono board start inputs (s + 1) n later
  calc scrollsAfter board start inputs s (n + 1) =
        shifts board start inputs n + 1 - shifts board start inputs (s + 1) := by
        rw [scrollsAfter, shifts_succ_of_shift board start inputs n shift]
    _ = scrollsAfter board start inputs s n + 1 := Nat.sub_add_comm mono

theorem scrollsAfter_succ_of_still (s n : Nat)
    (still : (sinceReset board start inputs n).shift = false) :
    scrollsAfter board start inputs s (n + 1) = scrollsAfter board start inputs s n := by
  rw [scrollsAfter, scrollsAfter, shifts_succ_of_still board start inputs n still]

theorem shift_false_of_near (n : Nat)
    (near : (sinceReset board start inputs n).game.mario.marioXPos.toNat < 299) :
    (sinceReset board start inputs n).shift = false := by
  rw [← Bool.not_eq_true]
  intro shift
  have past := ((Mario.shift_eq_true _ _).mp shift).2
  omega

variable (reset : start.game.resetH = true) {c : BitVec 8} {s : Nat}
  (shifted : ShiftsIn board start inputs c s)

include reset shifted

theorem shiftsIn_near (k : Nat) (soon : k ≤ 10)
    (running : ∀ j, s < j → j < s + 1 + k → (sinceReset board start inputs j).game.resetH = false) :
    (sinceReset board start inputs (s + 1 + k)).game.mario.marioXPos.toNat ≤ 260 + 2 * k := by
  induction k with
  | zero =>
      have band := run_inBand board start inputs reset s
      have right := band.right
      have back := (step_xPos board (sinceReset board start inputs s).clock.pulses
        (inputs (s + 1)) _ band).2.1 shifted.running shifted.shift
      rw [Nat.add_zero, Toplevel.run_game, back]
      omega
  | succ k ih =>
      have near := ih (Nat.le_of_succ_le soon)
        (fun j low high => running j low (Nat.lt_succ_of_lt high))
      have band := run_inBand board start inputs reset (s + 1 + k)
      have still := shift_false_of_near board start inputs (s + 1 + k) (by omega)
      have moves := (step_xPos board (sinceReset board start inputs (s + 1 + k)).clock.pulses
        (inputs (s + 1 + k + 1)) _ band).2.2 (running (s + 1 + k) (by omega) (by omega)) still
      have next : (sinceReset board start inputs (s + 1 + k + 1)).game.mario.marioXPos.toNat ≤
          (sinceReset board start inputs (s + 1 + k)).game.mario.marioXPos.toNat + 2 := by
        rw [Toplevel.run_game]
        exact moves
      rw [← Nat.add_assoc]
      omega

theorem shiftsIn_pending (k : Nat) (soon : k ≤ 3)
    (running : ∀ j, s < j → j < s + 1 + k → (sinceReset board start inputs j).game.resetH = false) :
    scrollsAfter board start inputs s (s + 1 + k) = 0 ∧
      (sinceReset board start inputs (s + 1 + k)).game.blocks.currentBlockCol = c + 1#8 := by
  induction k with
  | zero =>
      refine ⟨Nat.sub_self _, ?_⟩
      have blocks : (sinceReset board start inputs (s + 1)).game.blocks = _ :=
        step_shiftBlocks board _ (inputs (s + 1)) _ shifted.running shifted.shift
      rw [Nat.add_zero, blocks, shifted.column]
  | succ k ih =>
      have before (j : Nat) (low : s < j) (high : j < s + 1 + k) :
          (sinceReset board start inputs j).game.resetH = false :=
        running j low (Nat.lt_succ_of_lt high)
      rcases ih (Nat.le_of_succ_le soon) before with ⟨none, column⟩
      have near := shiftsIn_near board start inputs reset shifted k (by omega) before
      have still := shift_false_of_near board start inputs (s + 1 + k) (by omega)
      constructor
      · rw [← Nat.add_assoc, scrollsAfter_succ_of_still board start inputs s _ still, none]
      · have kept := step_keptCol board (sinceReset board start inputs (s + 1 + k)).clock.pulses
          (inputs (s + 1 + k + 1)) _ (running (s + 1 + k) (by omega) (Nat.lt_succ_self _)) still
        rw [← Nat.add_assoc, Toplevel.run_game, kept, column]

theorem shiftsIn_onColumn {i : Fin 4}
    (asked : (startCoinIn (control (board.levelMem c))).getLsbD i.val = true) (k : Nat)
    (soon : k ≤ 3) (riding : Riding board start inputs i s (s + 1 + k)) :
    scrollsAfter board start inputs s (s + 1 + k) = 0 ∧
      (sinceReset board start inputs (s + 1 + k)).game.OnColumn c i 0 := by
  rcases shiftsIn_pending board start inputs reset shifted k soon riding.running with
    ⟨none, column⟩
  refine ⟨none, ?_⟩
  have running : (sinceReset board start inputs (s + k)).game.resetH = false := by
    cases k with
    | zero => exact shifted.running
    | succ k => exact riding.running (s + (k + 1)) (by omega) (by omega)
  rw [← shiftsIn_startCoin board start inputs reset shifted k (Nat.lt_succ_of_le soon)] at asked
  have coin := coin_started board start inputs (s + k + 1) i running asked
  have position : s + 1 + k = s + k + 1 := Nat.add_right_comm s 1 k
  rw [position] at column ⊢
  exact OnColumn.of_started column coin

/-- While it is in play the coin stays on its column. -/
theorem riding_onColumn {i : Fin 4}
    (asked : (startCoinIn (control (board.levelMem c))).getLsbD i.val = true) (n : Nat)
    (later : s < n) (riding : Riding board start inputs i s n) :
    (sinceReset board start inputs n).game.OnColumn c i (scrollsAfter board start inputs s n) := by
  rcases Nat.lt_or_ge n (s + 4) with early | late
  · obtain ⟨k, rfl⟩ := Nat.exists_eq_add_of_le (show s + 1 ≤ n from later)
    rcases shiftsIn_onColumn board start inputs reset shifted asked k (by omega) riding with
      ⟨none, on⟩
    rwa [none]
  · clear later
    induction n, late using Nat.le_induction with
    | base =>
        rcases shiftsIn_onColumn board start inputs reset shifted asked 3 (by omega) riding with
          ⟨none, on⟩
        rw [show s + 4 = s + 1 + 3 from rfl, none]
        exact on
    | succ n late ih =>
        have on := ih (riding.before (Nat.le_succ n))
        have band := run_inBand board start inputs reset n
        have running := riding.running n (by omega) (Nat.lt_succ_self n)
        have untaken := riding.untaken n (by omega) (Nat.lt_succ_self n)
        have idle := riding.unstarted n late (Nat.lt_succ_self n)
        rw [Toplevel.run_game, run_pulses board start inputs n (by omega)]
        cases shift : (sinceReset board start inputs n).shift with
        | true =>
            rw [scrollsAfter_succ_of_shift board start inputs s n (by omega) shift]
            exact on.shift band running idle untaken shift
        | false =>
            rw [scrollsAfter_succ_of_still board start inputs s n shift]
            exact on.still running idle untaken shift

end Riding

def windowIndex (column : BitVec 8) (g : Game) : BitVec 8 :=
  column - g.blocks.currentBlockCol + 10#8

/-- Cycle `n` finds the coin of slot `i` in the window slot of column `c`; once that column has
left the window the coin is at 100, and if it still runs there is no scroll in this cycle and
a frame pulse stops it. -/
structure CoinInPlace (board : Board) (start : Toplevel) (inputs : Nat → Input) (c : BitVec 8)
    (i : Fin 4) (s n : Nat) : Prop where
  inside : scrollsAfter board start inputs s n ≤ 9 →
    (windowIndex c (sinceReset board start inputs n).game).toNat =
        9 - scrollsAfter board start inputs s n ∧
      ((sinceReset board start inputs n).game.coins i).isRunning = true ∧
      ((sinceReset board start inputs n).game.coins i).coinXPos.toNat =
        140 + 40 * (windowIndex c (sinceReset board start inputs n).game).toNat
  outside : 10 ≤ scrollsAfter board start inputs s n →
    ((sinceReset board start inputs n).game.coins i).coinXPos.toNat = 100
  leaves : 10 ≤ scrollsAfter board start inputs s n →
    ((sinceReset board start inputs n).game.coins i).isRunning = true →
      scrollsAfter board start inputs s n = 10 ∧ (sinceReset board start inputs n).shift = false
  stops : 10 ≤ scrollsAfter board start inputs s n → FramePulse board start inputs n →
    Riding board start inputs i s (n + 1) →
      ((sinceReset board start inputs (n + 1)).game.coins i).isRunning = false

/-- From the scroll that brings in column `c` until its slot is reset, taken or started again,
the coin that `c` asked for scrolls with its column. -/
theorem coin_stays_on_column (board : Board) (start : Toplevel) (inputs : Nat → Input)
    (reset : start.game.resetH = true) (c : BitVec 8) (s : Nat)
    (shifted : ShiftsIn board start inputs c s) (i : Fin 4)
    (asked : (control (board.levelMem c)).getLsbD 5 = true ∧
      coinSlot (control (board.levelMem c)) = i) (n : Nat) (later : s < n)
    (riding : Riding board start inputs i s n) : CoinInPlace board start inputs c i s n := by
  have requested := (startCoinIn_iff _ i).mpr asked
  have on := riding_onColumn board start inputs reset shifted requested n later riding
  constructor
  · intro inside
    rcases on.inside inside with ⟨runs, position⟩
    have index : (windowIndex c (sinceReset board start inputs n).game).toNat =
        9 - scrollsAfter board start inputs s n := by
      rw [windowIndex, on.column]
      simp only [BitVec.toNat_add, BitVec.toNat_sub, BitVec.toNat_ofNat]
      omega
    exact ⟨index, runs, by rw [index]; exact position⟩
  · intro outside
    exact (on.outside outside).1
  · intro outside runs
    rcases (on.outside outside).2 runs with ⟨ten, near⟩
    exact ⟨ten, shift_false_of_near board start inputs n near⟩
  · intro outside pulse further
    have position := (on.outside outside).1
    have running := further.running n later (Nat.lt_succ_self n)
    have untaken := further.untaken n later (Nat.lt_succ_self n)
    have idle : (sinceReset board start inputs n).game.startCoin.getLsbD i.val = false := by
      rcases Nat.lt_or_ge n (s + 4) with early | late
      · obtain ⟨k, rfl⟩ := Nat.exists_eq_add_of_le (show s + 1 ≤ n from later)
        have none := (shiftsIn_onColumn board start inputs reset shifted requested k (by omega)
          riding).1
        omega
      · exact further.unstarted n late (Nat.lt_succ_self n)
    have coin : (sinceReset board start inputs (n + 1)).game.coins i =
        ((sinceReset board start inputs n).game.coins i).step false false true
          (sinceReset board start inputs n).shift (sinceReset board start inputs n).game.mario.marioXPos
          (sinceReset board start inputs n).game.mario.marioYPos
          (startBlock (sinceReset board start inputs n).game.newColControl) := by
      rw [run_frameStep board start inputs n (by omega) pulse, step_coins_all, running, idle]
      rw [Toplevel.shift, pulse]
    rw [coin, ← Bool.not_eq_true]
    intro again
    exact ((Coin.step_scrolls _ _ _ _ _ _ untaken).2.mp again).2 ⟨rfl, by omega⟩

def passKeys : List (BitVec 8) := List.replicate 211 0x07#8

set_option maxRecDepth 100000 in
theorem pass_played :
    playHeld lowBoard (fun g => decide (AtFirstScroll lowBoard g) &&
      (g.playAll lowBoard (fun later => !(later.coins 0).coinTaken &&
          decide (later.blocks.currentBlockCol ≠ 10#8)) passKeys &&
        g.play lowBoard (fun last => decide ((last.coins 0).coinXPos = 100#10) &&
          (last.coins 0).isRunning) passKeys)) walkKeys = true := by
  decide +kernel

section Pass

variable {first last : Nat} (atFirst : first = scriptEnd walkKeys)
  (atLast : last = first + frameCycles * passKeys.length)

include atFirst atLast

theorem pass_shiftsIn : ShiftsIn lowBoard (Toplevel.held lowBoard)
    (scriptInputs (walkKeys ++ passKeys)) 10#8 first := by
  rcases playHeld_more lowBoard _ _ _ walkKeys passKeys pass_played first last atFirst atLast
    with ⟨⟨origin, calm, scroll⟩, -⟩
  rcases of_decide_eq_true scroll with ⟨position, column, -⟩
  refine { running := calm.resetH, shift := ?_, column := column }
  rw [Toplevel.shift, Mario.shift_eq_true, position]
  exact ⟨congrArg EdgeDetector.rising origin.marioEdge, by decide⟩

theorem pass_riding : Riding lowBoard (Toplevel.held lowBoard)
    (scriptInputs (walkKeys ++ passKeys)) 0 first last := by
  rcases playHeld_more lowBoard _ _ _ walkKeys passKeys pass_played first last atFirst atLast
    with ⟨-, passing, -⟩
  simp only [Bool.and_eq_true, Bool.not_eq_true', decide_eq_true_eq] at passing
  constructor
  · intro k after before
    exact (passing k after before.le).1
  · intro k after before
    exact (passing k after before.le).2.1
  · intro k after before
    obtain ⟨j, rfl⟩ : ∃ j, k = j + 3 := ⟨k - 3, by omega⟩
    have pending := (passing j (by omega) (by omega)).2.2
    have word : lowBoard.levelMem (sinceReset lowBoard (Toplevel.held lowBoard)
        (scriptInputs (walkKeys ++ passKeys)) j).game.blocks.currentBlockCol = 0#36 :=
      if_neg pending
    rw [sinceReset, Toplevel.run_game, step_startCoin, newColControl, level_q_two, word]
    rfl

theorem pass_gone :
    ((sinceReset lowBoard (Toplevel.held lowBoard) (scriptInputs (walkKeys ++ passKeys))
        last).game.coins 0).coinXPos = 100#10 ∧
      ((sinceReset lowBoard (Toplevel.held lowBoard) (scriptInputs (walkKeys ++ passKeys))
        last).game.coins 0).isRunning = true := by
  rcases playHeld_more lowBoard _ _ _ walkKeys passKeys pass_played first last atFirst atLast
    with ⟨-, -, -, -, gone⟩
  simp only [Bool.and_eq_true, decide_eq_true_eq] at gone
  exact gone

end Pass

/-- The coin of column 10 at the pulse after the eleventh scroll, which has taken it off the
screen. -/
theorem coin_stays_on_column_pass :
    let state := sinceReset lowBoard (Toplevel.held lowBoard) (scriptInputs (walkKeys ++ passKeys))
    let last := scriptEnd walkKeys + frameCycles * passKeys.length
    (((state last).game.coins 0).coinXPos = 100#10 ∧
        ((state last).game.coins 0).isRunning = true) ∧
      CoinInPlace lowBoard (Toplevel.held lowBoard) (scriptInputs (walkKeys ++ passKeys)) 10#8 0
        (scriptEnd walkKeys) last := by
  intro state last
  refine ⟨pass_gone rfl rfl, ?_⟩
  apply coin_stays_on_column lowBoard (Toplevel.held lowBoard) _ rfl 10#8 (scriptEnd walkKeys)
    (pass_shiftsIn rfl rfl) 0 ⟨rfl, rfl⟩ last
  · apply Nat.lt_add_of_pos_right
    rw [passKeys, List.length_replicate]
    decide
  · exact pass_riding rfl rfl

end FPGAMario
