import FPGAMario.CoinRequest
import FPGAMario.Probes

/-! The window against the level: a cell shows what the level has there, unless it was a brick and
Mario's head has been in it. -/

namespace FPGAMario

open Hdl Game BlockArray

section Cell

instance (c r : Fin 10) (px py : Int) : Decidable (Covers c r px py) :=
  inferInstanceAs (Decidable (_ ∧ _))

variable (board : Board) (pulses : Pulses) (input : Input) (g : Game)

theorem step_headBrick (band : g.mario.InBand) (reset : g.resetH = false)
    (still : g.mario.shift pulses.mario = false) {c r : Fin 10}
    (covers : Covers c r g.mario.marioXPos.toNat (g.mario.marioYPos.toNat - 20))
    (brick : cellId g.blocks.blockCols c r = 0b010#3) :
    cellId (g.step board pulses input).blocks.blockCols c r = 0b000#3 := by
  have truthful := (up_truthful_iff board g band).mpr fun height => by
    rw [height] at covers
    simp only [Covers, BitVec.toNat_ofNat] at covers
    omega
  have up : (g.marioPolls board).up = 0b010#3 := (truthful.1 c r covers).trans brick
  simp only [Covers] at covers
  have column := (marioBlockX_tracks g.mario.marioXPos).1 (by omega) (by omega)
  have row := marioBlockUp_row g.mario.marioYPos (by omega) (by omega)
  have sameColumn : c.val = (marioBlockX g.mario.marioXPos).toNat := by omega
  have sameRow : 3 * r.val = (lower (marioBlockUp g.mario.marioYPos)).toNat := by omega
  have columns := step_blockCols_still board pulses input g reset still
  rw [if_pos up] at columns
  rw [cellId, columns, remove, if_pos sameColumn, sameRow]
  exact part_clearPart_same _ _ _

theorem step_cell (band : g.mario.InBand) (reset : g.resetH = false)
    (still : g.mario.shift pulses.mario = false)
    (straight : ¬ (g.mario.marioYPos = 59#10 ∧ HeadField g 0b010#3)) (c r : Fin 10) :
    cellId (g.step board pulses input).blocks.blockCols c r =
      if Covers c r g.mario.marioXPos.toNat (g.mario.marioYPos.toNat - 20) ∧
          cellId g.blocks.blockCols c r = 0b010#3
        then 0b000#3 else cellId g.blocks.blockCols c r := by
  split
  case isTrue hit => exact step_headBrick board pulses input g band reset still hit.1 hit.2
  case isFalse missed =>
    have removes := (removesHeadBrick_iff board pulses input g band reset still).mpr straight
    rcases removes c r with same | ⟨covers, brick, -⟩
    · exact same
    · exact absurd ⟨covers, brick⟩ missed

end Cell

/-- Block `r` of column `column` of the level, which repeats after 256 columns. -/
def levelCell (board : Board) (column : Nat) (r : Fin 10) : BitVec 3 :=
  part 3 (3 * r.val) (blockBits (board.levelMem (BitVec.ofNat 8 column)))

section Runs

variable (board : Board) (start : Toplevel) (inputs : Nat → Input)

/-- In some cycle before `n`, no scroll, the pixel over Mario lay in block `r` of this column of the
level. -/
def Bumped (n column : Nat) (r : Fin 10) : Prop :=
  ∃ k, k < n ∧ (sinceReset board start inputs k).shift = false ∧
    ∃ c : Fin 10, c.val + shifts board start inputs k = column ∧
      Covers c r (sinceReset board start inputs k).game.mario.marioXPos.toNat
        ((sinceReset board start inputs k).game.mario.marioYPos.toNat - 20)

/-- The select at the top of the screen that straddles two rows finds no brick. -/
def Straight (n : Nat) : Prop :=
  ∀ k, k < n → ¬ ((sinceReset board start inputs k).game.mario.marioYPos = 59#10 ∧
    HeadField (sinceReset board start inputs k).game 0b010#3)

/-- A cell of a column that has come in since Reset: a brick that was bumped and is gone, or what the
level has there. -/
def Shown (n : Nat) (c r : Fin 10) : Prop :=
  let column := c.val + shifts board start inputs n
  let cell := cellId (sinceReset board start inputs n).game.blocks.blockCols c r
  Bumped board start inputs n column r ∧ levelCell board column r = 0b010#3 ∧ cell = 0b000#3 ∨
    ¬ (Bumped board start inputs n column r ∧ levelCell board column r = 0b010#3) ∧
      cell = levelCell board column r

variable {board start inputs} {n : Nat}

theorem run_currentBlockCol (reset : start.game.resetH = true)
    (running : ∀ k, k < n → (sinceReset board start inputs k).game.resetH = false) :
    (sinceReset board start inputs n).game.blocks.currentBlockCol =
      BitVec.ofNat 8 (10 + shifts board start inputs n) := by
  induction n with
  | zero =>
      have blocks := step_resetBlocks board start.clock.pulses (inputs 0) start.game reset
      exact congrArg BlockArray.currentBlockCol blocks
  | succ n ih =>
      have now := running n (Nat.lt_succ_self n)
      have before := ih fun k bound => running k (Nat.lt_succ_of_lt bound)
      cases shift : (sinceReset board start inputs n).shift with
      | true =>
          have blocks : (sinceReset board start inputs (n + 1)).game.blocks = _ :=
            step_shiftBlocks board _ (inputs (n + 1)) _ now shift
          rw [blocks, shifts_succ_of_shift board start inputs n shift, ← Nat.add_assoc,
            BitVec.ofNat_add, ← before]
      | false =>
          have column : (sinceReset board start inputs (n + 1)).game.blocks.currentBlockCol = _ :=
            step_keptCol board _ (inputs (n + 1)) _ now shift
          rw [column, shifts_succ_of_still board start inputs n shift, before]

theorem bumped_succ_of_shift (shift : (sinceReset board start inputs n).shift = true)
    (column : Nat) (r : Fin 10) :
    Bumped board start inputs (n + 1) column r ↔ Bumped board start inputs n column r := by
  constructor
  · rintro ⟨k, earlier, still, bumped⟩
    rcases Nat.lt_or_eq_of_le (Nat.le_of_lt_succ earlier) with before | rfl
    · exact ⟨k, before, still, bumped⟩
    · rw [shift] at still
      contradiction
  · rintro ⟨k, earlier, bumped⟩
    exact ⟨k, Nat.lt_succ_of_lt earlier, bumped⟩

theorem bumped_succ_of_still (still : (sinceReset board start inputs n).shift = false)
    (c r : Fin 10) :
    Bumped board start inputs (n + 1) (c.val + shifts board start inputs n) r ↔
      Bumped board start inputs n (c.val + shifts board start inputs n) r ∨
        Covers c r (sinceReset board start inputs n).game.mario.marioXPos.toNat
          ((sinceReset board start inputs n).game.mario.marioYPos.toNat - 20) := by
  constructor
  · rintro ⟨k, earlier, quiet, slot, same, covers⟩
    rcases Nat.lt_or_eq_of_le (Nat.le_of_lt_succ earlier) with before | rfl
    · exact Or.inl ⟨k, before, quiet, slot, same, covers⟩
    · obtain rfl : slot = c := Fin.ext (Nat.add_right_cancel same)
      exact Or.inr covers
  · rintro (⟨k, earlier, bumped⟩ | covers)
    · exact ⟨k, Nat.lt_succ_of_lt earlier, bumped⟩
    · exact ⟨n, Nat.lt_succ_self n, still, c, rfl, covers⟩

theorem not_bumped_new (r : Fin 10) :
    ¬ Bumped board start inputs n (10 + shifts board start inputs n) r := by
  rintro ⟨k, earlier, -, c, same, -⟩
  have ordered := shifts_mono board start inputs k n earlier.le
  omega

theorem shown_shift (reset : start.game.resetH = true)
    (running : ∀ k, k < n + 1 → (sinceReset board start inputs k).game.resetH = false)
    (shift : (sinceReset board start inputs n).shift = true)
    (shown : ∀ c r : Fin 10, 10 ≤ c.val + shifts board start inputs n →
      Shown board start inputs n c r)
    (c r : Fin 10) (filled : 10 ≤ c.val + shifts board start inputs (n + 1)) :
    Shown board start inputs (n + 1) c r := by
  have now := running n (Nat.lt_succ_self n)
  have count := shifts_succ_of_shift board start inputs n shift
  have blocks : (sinceReset board start inputs (n + 1)).game.blocks = _ :=
    step_shiftBlocks board _ (inputs (n + 1)) _ now shift
  by_cases last : c.val < 9
  · have before : Shown board start inputs n ⟨c.val + 1, by omega⟩ r :=
      shown _ r (by simp only; omega)
    have column : c.val + (shifts board start inputs n + 1) =
        c.val + 1 + shifts board start inputs n := by omega
    have cell : cellId (sinceReset board start inputs (n + 1)).game.blocks.blockCols c r =
        cellId (sinceReset board start inputs n).game.blocks.blockCols ⟨c.val + 1, by omega⟩ r := by
      simp only [blocks, cellId, push, dif_pos last]
    rw [Shown, count, column, cell]
    simp only [bumped_succ_of_shift shift]
    exact before
  · have nine : c.val = 9 := by omega
    have column : c.val + (shifts board start inputs n + 1) =
        10 + shifts board start inputs n := by omega
    have settled := (run_fed board start inputs reset n).settled
      (Nat.lt_of_lt_of_le (by decide) ((Mario.shift_eq_true _ _).mp shift).2)
    have cell : cellId (sinceReset board start inputs (n + 1)).game.blocks.blockCols c r =
        levelCell board (10 + shifts board start inputs n) r := by
      have word : (sinceReset board start inputs n).game.newBlockId = _ :=
        congrArg blockBits settled.2
      simp only [blocks, cellId, push, dif_neg last, word, levelCell]
      rw [run_currentBlockCol reset fun k bound => running k (Nat.lt_succ_of_lt bound)]
    rw [Shown, count, column, cell]
    right
    refine ⟨?_, rfl⟩
    rintro ⟨bumped, -⟩
    exact not_bumped_new r ((bumped_succ_of_shift shift _ r).mp bumped)

theorem shown_still (reset : start.game.resetH = true)
    (running : (sinceReset board start inputs n).game.resetH = false)
    (still : (sinceReset board start inputs n).shift = false)
    (straight : ¬ ((sinceReset board start inputs n).game.mario.marioYPos = 59#10 ∧
      HeadField (sinceReset board start inputs n).game 0b010#3))
    {c r : Fin 10} (shown : Shown board start inputs n c r) :
    Shown board start inputs (n + 1) c r := by
  have cell : cellId (sinceReset board start inputs (n + 1)).game.blocks.blockCols c r = _ :=
    step_cell board (sinceReset board start inputs n).clock.pulses (inputs (n + 1)) _
      (run_inBand board start inputs reset n) running still straight c r
  rw [Shown, shifts_succ_of_still board start inputs n still, bumped_succ_of_still still, cell]
  rcases shown with ⟨bumped, brick, gone⟩ | ⟨kept, same⟩
  · left
    refine ⟨Or.inl bumped, brick, ?_⟩
    rw [gone, if_neg]
    rintro ⟨-, zero⟩
    exact absurd zero (by decide)
  · rw [same]
    by_cases hit : Covers c r (sinceReset board start inputs n).game.mario.marioXPos.toNat
        ((sinceReset board start inputs n).game.mario.marioYPos.toNat - 20) ∧
          levelCell board (c.val + shifts board start inputs n) r = 0b010#3
    · rw [if_pos hit]
      exact Or.inl ⟨Or.inr hit.1, hit.2, rfl⟩
    · rw [if_neg hit]
      right
      refine ⟨?_, rfl⟩
      rintro ⟨bumped | covers, brick⟩
      · exact kept ⟨bumped, brick⟩
      · exact hit ⟨covers, brick⟩

theorem run_shown (reset : start.game.resetH = true)
    (running : ∀ k, k < n → (sinceReset board start inputs k).game.resetH = false)
    (straight : Straight board start inputs n) (c r : Fin 10)
    (filled : 10 ≤ c.val + shifts board start inputs n) : Shown board start inputs n c r := by
  induction n generalizing c r with
  | zero =>
      have none : shifts board start inputs 0 = 0 := rfl
      omega
  | succ n ih =>
      have before := ih (fun k bound => running k (Nat.lt_succ_of_lt bound))
        (fun k bound => straight k (Nat.lt_succ_of_lt bound))
      cases shift : (sinceReset board start inputs n).shift with
      | true => exact shown_shift reset running shift before c r filled
      | false =>
          rw [shifts_succ_of_still board start inputs n shift] at filled
          exact shown_still reset (running n (Nat.lt_succ_self n)) shift
            (straight n (Nat.lt_succ_self n)) (before c r filled)

section Even

variable (even : ∀ address, (blockBits (board.levelMem address)).getLsbD 12 = false)

include even

theorem step_newBlockId (pulses : Pulses) (input : Input) (g : Game) :
    (g.step board pulses input).newBlockId.getLsbD 12 = false := by
  rw [newBlockId, step_level, SyncRom.step_q]
  exact even _

omit even in
theorem step_columns (reset shift : Bool) {newBlockId : BitVec 30} (x y : BitVec 10) {a : BlockArray}
    (columns : ∀ c, (a.blockCols c).getLsbD 12 = false) (word : newBlockId.getLsbD 12 = false)
    (c : Fin 10) :
    ((a.step board reset shift newBlockId x y).blockCols c).getLsbD 12 = false := by
  rw [BlockArray.step]
  split
  · exact word
  · split
    · simp only [push]
      split
      · exact columns _
      · exact word
    · split
      · simp only [remove]
        split
        · rw [clearPart_getLsbD, columns, Bool.false_and]
        · exact columns c
      · exact columns c

variable (inputs) in
theorem run_columns (reset : start.game.resetH = true)
    (first : start.game.newBlockId.getLsbD 12 = false) (n : Nat) (c : Fin 10) :
    ((sinceReset board start inputs n).game.blocks.blockCols c).getLsbD 12 = false := by
  induction n generalizing c with
  | zero =>
      have blocks := step_resetBlocks board start.clock.pulses (inputs 0) start.game reset
      exact (congrArg (fun b => (BlockArray.blockCols b c).getLsbD 12) blocks).trans first
  | succ n ih =>
      have word : (sinceReset board start inputs n).game.newBlockId.getLsbD 12 = false :=
        step_newBlockId even _ (inputs n) _
      rw [Toplevel.run_game, step_blocks]
      exact step_columns _ _ _ _ ih word c

/-- Where no block of row 4 has an odd id, the straddling select never finds a brick. -/
theorem straight_of_even (reset : start.game.resetH = true)
    (first : start.game.newBlockId.getLsbD 12 = false) (n : Nat) :
    Straight board start inputs n := by
  rintro k - ⟨-, c, -, bits⟩
  have clear := run_columns inputs even reset first k c
  have bit := congrArg (fun v => v.getLsbD 1) bits
  rw [part_getLsbD] at bit
  rw [clear] at bit
  contradiction

end Even

end Runs

/-- From Reset on, whatever the level and the keys: every cell of a column that has come in shows what
the level has there, except for the bricks that Mario's head has been in, and these are gone. -/
theorem bricks_gone_iff (board : Board) (start : Toplevel) (inputs : Nat → Input)
    (reset : start.game.resetH = true) (n : Nat)
    (running : ∀ k, k < n → (sinceReset board start inputs k).game.resetH = false)
    (straight : Straight board start inputs n) (c r : Fin 10)
    (filled : 10 ≤ c.val + shifts board start inputs n) :
    let column := c.val + shifts board start inputs n
    let cell := cellId (sinceReset board start inputs n).game.blocks.blockCols c r
    Bumped board start inputs n column r ∧ levelCell board column r = 0b010#3 ∧ cell = 0b000#3 ∨
      ¬ (Bumped board start inputs n column r ∧ levelCell board column r = 0b010#3) ∧
        cell = levelCell board column r :=
  run_shown reset running straight c r filled

section Bump

def brickBoard : Board where
  levelMem address := if address = 10#8 then 0#12 ++ 0b010#3 ++ 0#21 else 0#36
  outside _ _ _ := 0#3

def bumpKeys : List (BitVec 8) := List.replicate 200 0x07#8 ++ List.replicate 21 0x1A#8

set_option maxRecDepth 100000 in
theorem bump_played :
    playHeld brickBoard (fun g => decide (g.blocks.currentBlockCol = 16#8 ∧
      cellId g.blocks.blockCols 4 7 = 0b000#3)) bumpKeys = true := by
  decide +kernel

theorem brick_straight (n : Nat) : Straight brickBoard (Toplevel.held brickBoard)
    (scriptInputs bumpKeys) n := by
  have even (a : BitVec 8) : (blockBits (brickBoard.levelMem a)).getLsbD 12 = false := by
    simp only [brickBoard]
    split <;> decide
  exact straight_of_even even rfl rfl n

end Bump

theorem bricks_gone_iff_bump :
    let start := Toplevel.held brickBoard
    let inputs := scriptInputs bumpKeys
    let n := scriptEnd bumpKeys
    let column := (4 : Fin 10).val + shifts brickBoard start inputs n
    let cell := cellId (sinceReset brickBoard start inputs n).game.blocks.blockCols 4 7
    levelCell brickBoard column 7 = 0b010#3 ∧ cell = 0b000#3 ∧
      (Bumped brickBoard start inputs n column 7 ∧ levelCell brickBoard column 7 = 0b010#3 ∧
          cell = 0b000#3 ∨
        ¬ (Bumped brickBoard start inputs n column 7 ∧ levelCell brickBoard column 7 = 0b010#3) ∧
          cell = levelCell brickBoard column 7) := by
  intro start inputs n column cell
  rcases of_decide_eq_true (playHeld_sound brickBoard _ bumpKeys bump_played).2.2 with
    ⟨pending, gone⟩
  have running (k : Nat) (bound : k < n) : (sinceReset brickBoard start inputs k).game.resetH = false :=
    playHeld_running brickBoard _ bumpKeys bump_played k bound.le
  have address : (sinceReset brickBoard start inputs n).game.blocks.currentBlockCol = _ :=
    run_currentBlockCol rfl running
  have scrolls := congrArg BitVec.toNat (address.symm.trans pending)
  simp only [BitVec.toNat_ofNat] at scrolls
  have four : (4 : Fin 10).val = 4 := rfl
  have ten : BitVec.ofNat 8 column = 10#8 := by
    apply BitVec.eq_of_toNat_eq
    simp only [column, BitVec.toNat_ofNat]
    omega
  have brick : levelCell brickBoard column 7 = 0b010#3 := by
    rw [levelCell, ten]
    decide
  refine ⟨brick, gone, ?_⟩
  apply bricks_gone_iff brickBoard start inputs rfl n
  · exact running
  · exact brick_straight n
  · omega

end FPGAMario
