import FPGAMario.GoombaBand
import FPGAMario.MarioBand
import FPGAMario.Script

/-! Scrolling: the ROM output has settled whenever Mario raises `Shift`, and the window is a
stretch of the level from which bricks have been removed. -/

namespace FPGAMario

open Hdl Game BlockArray

namespace Game

/-- How far the ROM has followed `current_block_col`, against how close Mario is to the next
scroll: right after a scroll he needs 20 frames to reach 299 again. -/
def Fed (board : Board) (g : Game) : Prop :=
  g.level.Settled board.levelMem g.blocks.currentBlockCol ∨
    (g.level.address = g.blocks.currentBlockCol ∧ g.mario.marioXPos.toNat ≤ 262) ∨
    g.mario.marioXPos.toNat ≤ 260

theorem Fed.settled {board : Board} {g : Game} (fed : g.Fed board)
    (far : 262 < g.mario.marioXPos.toNat) :
    g.level.Settled board.levelMem g.blocks.currentBlockCol := by
  rcases fed with settled | ⟨-, near⟩ | near
  · exact settled
  · omega
  · omega

variable (board : Board) (pulses : Pulses) (input : Input) (g : Game)

theorem step_resetBlocks (reset : g.resetH = true) :
    (g.step board pulses input).blocks = ⟨fun _ => g.newBlockId, 10#8⟩ := by
  rw [step_blocks, reset]
  rfl

theorem step_shiftBlocks (reset : g.resetH = false)
    (shift : g.mario.shift pulses.mario = true) :
    (g.step board pulses input).blocks =
      ⟨push g.newBlockId g.blocks.blockCols, g.blocks.currentBlockCol + 1#8⟩ := by
  rw [step_blocks, reset, shift]
  rfl

def RemovesAt (i : Fin 10) : Prop :=
  (g.marioPolls board).up = 0b010#3 ∧ i.val = (marioBlockX g.mario.marioXPos).toNat

theorem step_keptCol (reset : g.resetH = false) (still : g.mario.shift pulses.mario = false) :
    (g.step board pulses input).blocks.currentBlockCol = g.blocks.currentBlockCol := by
  rw [step_blocks, reset, still]
  simp only [BlockArray.step, Bool.false_eq_true, if_false]
  split <;> rfl

theorem step_keptSlot (reset : g.resetH = false) (still : g.mario.shift pulses.mario = false)
    (i : Fin 10) :
    BitsIncluded ((g.step board pulses input).blocks.blockCols i) (g.blocks.blockCols i) ∧
      (¬ g.RemovesAt board i →
        (g.step board pulses input).blocks.blockCols i = g.blocks.blockCols i) := by
  rw [step_blocks, reset, still]
  simp only [BlockArray.step, Bool.false_eq_true, if_false]
  split
  · next brick =>
      simp only [remove]
      split
      · next column =>
          constructor
          · apply clearPart_included
          · intro kept
            exact absurd ⟨brick, column⟩ kept
      · exact ⟨BitsIncluded.refl _, fun _ => rfl⟩
  · exact ⟨BitsIncluded.refl _, fun _ => rfl⟩

theorem step_xPos (band : g.mario.InBand) :
    let after := (g.step board pulses input).mario.marioXPos.toNat
    (g.resetH = true → after = 140) ∧
      (g.resetH = false → g.mario.shift pulses.mario = true →
        after = g.mario.marioXPos.toNat - 40) ∧
      (g.resetH = false → g.mario.shift pulses.mario = false →
        after ≤ g.mario.marioXPos.toNat + 2) := by
  simp only [step_mario, Mario.step]
  refine ⟨?_, ?_, ?_⟩
  · intro reset
    rw [reset]
    rfl
  · intro reset shift
    rcases (Mario.shift_eq_true _ _).mp shift with ⟨pulse, past⟩
    rw [reset, pulse]
    exact (Mario.frameStep_xPos _ _ _ band).2.2.1 past
  · intro reset still
    rw [reset]
    cases pulse : pulses.mario with
    | false => simp
    | true =>
        have near : g.mario.marioXPos.toNat < 299 := by
          by_contra past
          have shift := (Mario.shift_eq_true pulses.mario g.mario).mpr ⟨pulse, by omega⟩
          rw [still] at shift
          cases shift
        exact ((Mario.frameStep_xPos _ _ _ band).2.2.2 near).2

theorem step_fed (band : g.mario.InBand) (fed : g.Fed board) :
    (g.step board pulses input).Fed board := by
  rcases step_xPos board pulses input g band with ⟨onReset, onShift, otherwise⟩
  have high := band.right
  cases reset : g.resetH with
  | true =>
      have start := onReset reset
      exact Or.inr (Or.inr (by omega))
  | false =>
      cases shift : g.mario.shift pulses.mario with
      | true =>
          have back := onShift reset shift
          exact Or.inr (Or.inr (by omega))
      | false =>
          have near := otherwise reset shift
          have column := step_keptCol board pulses input g reset shift
          rcases fed with ⟨address, word⟩ | ⟨address, position⟩ | position
          · refine Or.inl ⟨?_, ?_⟩
            · rw [step_level, column]
              rfl
            · rw [step_level, column, SyncRom.step_q, address]
          · refine Or.inl ⟨?_, ?_⟩
            · rw [step_level, column]
              rfl
            · rw [step_level, column, SyncRom.step_q, address]
          · refine Or.inr (Or.inl ⟨?_, by omega⟩)
            rw [step_level, column]
            rfl

end Game

section FromReset

variable (board : Board) (start : Toplevel) (inputs : Nat → Input)

theorem run_inBand (reset : start.game.resetH = true) (n : Nat) :
    (sinceReset board start inputs n).game.mario.InBand := by
  apply run_invariant (Toplevel.step board) start inputs (fun s => s.game.mario.InBand)
  · intro input
    simp only [Toplevel.step, step_mario, reset]
    exact Mario.resetValue_inBand
  · intro input s band
    apply Mario.step_inBand
    exact band

theorem run_fed (reset : start.game.resetH = true) (n : Nat) :
    (sinceReset board start inputs n).game.Fed board := by
  induction n with
  | zero =>
      refine Or.inr (Or.inr ?_)
      rw [Toplevel.run_game, step_mario, Toplevel.run_start, reset]
      change Mario.resetValue.marioXPos.toNat ≤ 260
      decide
  | succ n ih =>
      rw [Toplevel.run_game]
      apply step_fed
      · exact run_inBand board start inputs reset n
      · exact ih

structure Undisturbed (n : Nat) : Prop where
  running : (sinceReset board start inputs n).game.resetH = false
  still : (sinceReset board start inputs n).shift = false
  near : (sinceReset board start inputs (n + 1)).game.mario.marioXPos.toNat ≤
    (sinceReset board start inputs n).game.mario.marioXPos.toNat + 2
  column : (sinceReset board start inputs (n + 1)).game.blocks.currentBlockCol =
    (sinceReset board start inputs n).game.blocks.currentBlockCol

theorem run_back (reset : start.game.resetH = true) (n : Nat)
    (far : 262 < (sinceReset board start inputs n).game.mario.marioXPos.toNat) :
    ∃ m, n = m + 1 ∧ Undisturbed board start inputs m := by
  cases n with
  | zero =>
      rw [Toplevel.run_game, step_mario, Toplevel.run_start, reset] at far
      change 262 < 140 at far
      omega
  | succ m =>
      change 262 < (Toplevel.run board start inputs (m + 1 + 1)).game.mario.marioXPos.toNat at far
      have band := run_inBand board start inputs reset m
      have high := band.right
      have moves := step_xPos board (sinceReset board start inputs m).clock.pulses
        (inputs (m + 1)) _ band
      simp only [← Toplevel.run_game] at moves
      rcases moves with ⟨onReset, onShift, otherwise⟩
      refine ⟨m, rfl, ?_⟩
      cases running : (sinceReset board start inputs m).game.resetH with
      | true =>
          have home := onReset running
          omega
      | false =>
          cases still : (sinceReset board start inputs m).shift with
          | true =>
              have back := onShift running still
              omega
          | false =>
              exact ⟨running, still, otherwise running still,
                step_keptCol board _ (inputs (m + 1)) _ running still⟩

end FromReset

section Window

variable (board : Board) (start : Toplevel) (inputs : Nat → Input)

def shifts (n : Nat) : Nat :=
  Nat.count (fun k => (sinceReset board start inputs k).shift = true) n

/-- A brick was removed from the column that is now in slot `i` while it was in the window. -/
def Hit (n : Nat) (i : Fin 10) : Prop :=
  ∃ k, k < n ∧ ∃ j : Fin 10, j.val = i.val + (shifts board start inputs n -
      shifts board start inputs k) ∧
    (sinceReset board start inputs k).shift = false ∧
    (sinceReset board start inputs k).game.RemovesAt board j

theorem shifts_succ_of_shift (n : Nat) (shift : (sinceReset board start inputs n).shift = true) :
    shifts board start inputs (n + 1) = shifts board start inputs n + 1 := by
  rw [shifts, Nat.count_succ, if_pos shift, ← shifts]

theorem shifts_succ_of_still (n : Nat) (still : (sinceReset board start inputs n).shift = false) :
    shifts board start inputs (n + 1) = shifts board start inputs n := by
  rw [shifts, Nat.count_succ, if_neg (by rw [still]; decide), ← shifts, Nat.add_zero]

theorem shifts_mono (first last : Nat) (ordered : first ≤ last) :
    shifts board start inputs first ≤ shifts board start inputs last :=
  Nat.count_monotone _ ordered

theorem Hit.of_shift {n : Nat} {i next : Fin 10} (successor : next.val = i.val + 1)
    (shift : (sinceReset board start inputs n).shift = true)
    (hit : Hit board start inputs n next) : Hit board start inputs (n + 1) i := by
  rcases hit with ⟨k, earlier, j, slot, still, removes⟩
  have ordered := shifts_mono board start inputs k n (by omega)
  have count := shifts_succ_of_shift board start inputs n shift
  exact ⟨k, by omega, j, by omega, still, removes⟩

theorem Hit.of_still {n : Nat} {i : Fin 10}
    (still : (sinceReset board start inputs n).shift = false)
    (hit : Hit board start inputs n i) : Hit board start inputs (n + 1) i := by
  rcases hit with ⟨k, earlier, j, slot, quiet, removes⟩
  have count := shifts_succ_of_still board start inputs n still
  exact ⟨k, by omega, j, by rw [count]; exact slot, quiet, removes⟩

theorem Hit.of_removes {n : Nat} {i : Fin 10}
    (still : (sinceReset board start inputs n).shift = false)
    (removes : (sinceReset board start inputs n).game.RemovesAt board i) :
    Hit board start inputs (n + 1) i := by
  have count := shifts_succ_of_still board start inputs n still
  exact ⟨n, Nat.lt_succ_self n, i, by omega, still, removes⟩

def levelColumn (a : BlockArray) (i : Fin 10) : BitVec 30 :=
  blockBits (board.levelMem (a.currentBlockCol - 10#8 + BitVec.ofNat 8 i.val))

/-- Slot `i` holds a column of the level, up to bricks that were removed on the way. -/
def Streamed (n : Nat) (i : Fin 10) : Prop :=
  let blocks := (sinceReset board start inputs n).game.blocks
  BitsIncluded (blocks.blockCols i) (levelColumn board blocks i) ∧
    (¬ Hit board start inputs n i → blocks.blockCols i = levelColumn board blocks i)

theorem streamed_shift (reset : start.game.resetH = true) (n : Nat)
    (running : (sinceReset board start inputs n).game.resetH = false)
    (shift : (sinceReset board start inputs n).shift = true)
    (streamed : ∀ i : Fin 10, 10 ≤ i.val + shifts board start inputs n →
      Streamed board start inputs n i)
    (i : Fin 10) (filled : 10 ≤ i.val + shifts board start inputs (n + 1)) :
    Streamed board start inputs (n + 1) i := by
  have count := shifts_succ_of_shift board start inputs n shift
  have past := ((Mario.shift_eq_true _ _).mp shift).2
  have blocks : (sinceReset board start inputs (n + 1)).game.blocks = _ :=
    step_shiftBlocks board _ (inputs (n + 1)) (sinceReset board start inputs n).game running shift
  have settled := (run_fed board start inputs reset n).settled
    (Nat.lt_of_lt_of_le (by decide) past)
  have column : (sinceReset board start inputs n).game.blocks.currentBlockCol + 1#8 - 10#8 +
        BitVec.ofNat 8 i.val =
      (sinceReset board start inputs n).game.blocks.currentBlockCol - 10#8 +
        BitVec.ofNat 8 (i.val + 1) := by
    apply BitVec.eq_of_toNat_eq
    simp only [BitVec.toNat_add, BitVec.toNat_sub, BitVec.toNat_ofNat]
    omega
  simp only [Streamed, levelColumn, blocks, push, column]
  by_cases last : i.val < 9
  · rw [dif_pos last]
    rcases streamed ⟨i.val + 1, by omega⟩ (by simp only; omega) with ⟨included, equal⟩
    exact ⟨included, fun clean => equal (fun hit => clean (Hit.of_shift board start inputs rfl
      shift hit))⟩
  · have nine : i.val + 1 = 10 := by omega
    have word : (sinceReset board start inputs n).game.newBlockId =
        blockBits (board.levelMem
          (sinceReset board start inputs n).game.blocks.currentBlockCol) :=
      congrArg blockBits settled.2
    have address : (sinceReset board start inputs n).game.blocks.currentBlockCol - 10#8 +
        BitVec.ofNat 8 10 = (sinceReset board start inputs n).game.blocks.currentBlockCol :=
      BitVec.sub_add_cancel _ _
    rw [dif_neg last, nine, address, word]
    exact ⟨BitsIncluded.refl _, fun _ => rfl⟩

theorem streamed_still (n : Nat)
    (running : (sinceReset board start inputs n).game.resetH = false)
    (still : (sinceReset board start inputs n).shift = false) (i : Fin 10)
    (streamed : Streamed board start inputs n i) : Streamed board start inputs (n + 1) i := by
  rcases streamed with ⟨included, equal⟩
  rcases step_keptSlot board (sinceReset board start inputs n).clock.pulses
    (inputs (n + 1)) (sinceReset board start inputs n).game running still i with ⟨smaller, kept⟩
  have column : (sinceReset board start inputs (n + 1)).game.blocks.currentBlockCol =
      (sinceReset board start inputs n).game.blocks.currentBlockCol :=
    step_keptCol board _ (inputs (n + 1)) (sinceReset board start inputs n).game running still
  have same : levelColumn board (sinceReset board start inputs (n + 1)).game.blocks i =
      levelColumn board (sinceReset board start inputs n).game.blocks i := by
    rw [levelColumn, levelColumn, column]
  constructor
  · rw [same]
    exact smaller.trans included
  · intro clean
    rw [same, ← equal (fun hit => clean (Hit.of_still board start inputs still hit))]
    exact kept (fun removes => clean (Hit.of_removes board start inputs still removes))

theorem run_streamed (reset : start.game.resetH = true) (n : Nat)
    (running : ∀ k, k < n → (sinceReset board start inputs k).game.resetH = false)
    (i : Fin 10) (filled : 10 ≤ i.val + shifts board start inputs n) :
    Streamed board start inputs n i := by
  induction n generalizing i with
  | zero =>
      have none : shifts board start inputs 0 = 0 := rfl
      omega
  | succ n ih =>
      have now := running n (Nat.lt_succ_self n)
      have before := ih (fun k bound => running k (Nat.lt_succ_of_lt bound))
      cases shift : (sinceReset board start inputs n).shift with
      | true => exact streamed_shift board start inputs reset n now shift before i filled
      | false =>
          have count := shifts_succ_of_still board start inputs n shift
          exact streamed_still board start inputs n now shift i (before i (by omega))

/-- A shift is over after one cycle, since it moves Mario 40 pixels back. -/
theorem shift_once (reset : start.game.resetH = true) (n : Nat)
    (running : (sinceReset board start inputs n).game.resetH = false)
    (shift : (sinceReset board start inputs n).shift = true) :
    (sinceReset board start inputs (n + 1)).shift = false := by
  have band := run_inBand board start inputs reset n
  have high := band.right
  have back := (step_xPos board (sinceReset board start inputs n).clock.pulses (inputs (n + 1))
    _ band).2.1 running shift
  have near : ¬ 299 ≤ (sinceReset board start inputs (n + 1)).game.mario.marioXPos.toNat := by
    rw [Toplevel.run_game, back]
    omega
  rw [Toplevel.shift, ← Bool.not_eq_true, Mario.shift_eq_true]
  intro past
  exact near past.2

/-- One shift: it lasts one cycle, counts the address up by one and brings in the column
that `current_block_col` names. -/
structure CleanShift (n : Nat) : Prop where
  once : (sinceReset board start inputs (n + 1)).shift = false
  column : (sinceReset board start inputs (n + 1)).game.blocks.currentBlockCol =
    (sinceReset board start inputs n).game.blocks.currentBlockCol + 1#8
  settled : (sinceReset board start inputs n).game.level.Settled board.levelMem
    (sinceReset board start inputs n).game.blocks.currentBlockCol
  word : (sinceReset board start inputs (n + 1)).game.blocks.blockCols 9 =
    blockBits (board.levelMem (sinceReset board start inputs n).game.blocks.currentBlockCol)

theorem cleanShift (reset : start.game.resetH = true) (n : Nat)
    (running : (sinceReset board start inputs n).game.resetH = false)
    (shift : (sinceReset board start inputs n).shift = true) :
    CleanShift board start inputs n := by
  have blocks : (sinceReset board start inputs (n + 1)).game.blocks = _ :=
    step_shiftBlocks board _ (inputs (n + 1)) (sinceReset board start inputs n).game running shift
  have past := ((Mario.shift_eq_true _ _).mp shift).2
  have settled := (run_fed board start inputs reset n).settled
    (Nat.lt_of_lt_of_le (by decide) past)
  refine ⟨shift_once board start inputs reset n running shift, by rw [blocks], settled, ?_⟩
  rw [blocks]
  exact congrArg blockBits settled.2

/-- In a run without a further Reset every shift is clean, the address moves at shifts only,
and each slot filled since Reset descends from its own column of the level. -/
theorem window_streams_level (reset : start.game.resetH = true) (n : Nat)
    (running : ∀ k, k < n → (sinceReset board start inputs k).game.resetH = false) :
    (∀ i : Fin 10, 10 ≤ i.val + shifts board start inputs n → Streamed board start inputs n i) ∧
      ∀ k, k < n →
        ((sinceReset board start inputs k).shift = true → CleanShift board start inputs k) ∧
        ((sinceReset board start inputs k).shift = false →
          (sinceReset board start inputs (k + 1)).game.blocks.currentBlockCol =
            (sinceReset board start inputs k).game.blocks.currentBlockCol) := by
  refine ⟨run_streamed board start inputs reset n running, ?_⟩
  intro k bound
  constructor
  · intro shift
    exact cleanShift board start inputs reset k (running k bound) shift
  · intro still
    exact step_keptCol board _ (inputs (k + 1)) _ (running k bound) still

theorem script_shift (board : Board) (test : Game → Bool) (keys : List (BitVec 8))
    (played : playHeld board test keys = true)
    (far : ∀ g, test g = true → 299 ≤ g.mario.marioXPos.toNat) :
    (afterScript board keys 0).shift = true := by
  rcases playHeld_sound board test keys played with ⟨origin, -, passed⟩
  rw [Toplevel.shift, Mario.shift_eq_true]
  exact ⟨congrArg EdgeDetector.rising origin.marioEdge, far _ passed⟩

theorem numbered_unmarked : numberedBoard.Unmarked := by
  intro a
  change (control (a.setWidth 36)).getLsbD 0 = false
  simp [Game.control]

def strollKeys : List (BitVec 8) := walkKeys ++ List.replicate 21 0x07#8

set_option maxRecDepth 100000 in
theorem walk_played : playHeld numberedBoard
    (fun g => decide (299 ≤ g.mario.marioXPos.toNat)) walkKeys = true := by
  decide +kernel

set_option maxRecDepth 100000 in
theorem stroll_played : playHeld numberedBoard
    (fun g => decide (299 ≤ g.mario.marioXPos.toNat)) strollKeys = true := by
  decide +kernel

/-- Two scrolls over a level in which every column carries its own number. -/
theorem window_streams_level_stroll :
    let start := Toplevel.held numberedBoard
    let inputs := scriptInputs strollKeys
    let n := scriptEnd strollKeys + 1
    (sinceReset numberedBoard start inputs (scriptEnd walkKeys)).shift = true ∧
      (sinceReset numberedBoard start inputs (scriptEnd strollKeys)).shift = true ∧
      (∀ i : Fin 10, 10 ≤ i.val + shifts numberedBoard start inputs n →
        Streamed numberedBoard start inputs n i) ∧
      ∀ k, k < n →
        ((sinceReset numberedBoard start inputs k).shift = true →
          CleanShift numberedBoard start inputs k) ∧
        ((sinceReset numberedBoard start inputs k).shift = false →
          (sinceReset numberedBoard start inputs (k + 1)).game.blocks.currentBlockCol =
            (sinceReset numberedBoard start inputs k).game.blocks.currentBlockCol) := by
  intro start inputs n
  have first := script_shift numberedBoard _ walkKeys walk_played fun _ => of_decide_eq_true
  have second := script_shift numberedBoard _ strollKeys stroll_played fun _ => of_decide_eq_true
  rw [← afterScript_append numberedBoard walkKeys (List.replicate 21 0x07#8) _ rfl] at first
  refine ⟨first, second, ?_⟩
  apply window_streams_level numberedBoard start inputs rfl n
  intro k bound
  cases k with
  | zero => rfl
  | succ k => exact unmarked_resetH numbered_unmarked start inputs rfl k

end Window

end FPGAMario
