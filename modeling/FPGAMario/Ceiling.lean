import FPGAMario.Clipping
import FPGAMario.Contact

/-! A jump that reaches a solid cell: which blocks end it. -/

namespace FPGAMario

open Hdl Game BlockArray

namespace Mario

structure EndsAscent (before after : Mario) : Prop where
  counter : after.jumpCounter = 0#7
  falling : after.falling = true
  down : after.marioYPos = before.marioYPos + 2#10

theorem endsAscent_iff (keycode : BitVec 16) (polls : MarioPolls) (m : Mario) (band : m.InBand)
    (rising : m.jumpCounter ≠ 0#7) (low : 61 ≤ m.marioYPos.toNat) :
    EndsAscent m (frameStep keycode polls m) ↔ polls.up ≠ 0#3 ∨ m.jumpCounter = 95#7 := by
  have short := band.counter
  have bottom := band.bottom
  have unbegun : ¬ (keycode = keyW ∧ m.falling = false ∧ m.jumpCounter = 0#7 ∧
      polls.up = 0#3) := fun jump => rising jump.2.2.1
  have up : 1#7 ≤ m.jumpCounter := by bv_omega
  have room : ¬ m.marioYPos - marioYSize ≤ marioYMin := by bv_omega
  have height := frameStep_marioYPos keycode polls m
  have counter := frameStep_jumpCounter keycode polls m
  have falling := frameStep_falling keycode polls m
  generalize frameStep keycode polls m = after at *
  rw [verticalIn, if_neg unbegun, if_pos up] at height counter falling
  by_cases stop : m.jumpCounter = 95#7 ∨ m.marioYPos - marioYSize ≤ marioYMin ∨ polls.up ≠ 0#3
  · rw [if_pos stop] at height counter falling
    refine iff_of_true ⟨counter, falling, height⟩ ?_
    rcases stop with full | top | block
    · exact Or.inr full
    · exact absurd top room
    · exact Or.inl block
  · rw [if_neg stop] at height counter falling
    refine iff_of_false ?_ (fun turned => stop (turned.symm.imp id Or.inr))
    intro ends
    have zero := counter.symm.trans ends.counter
    bv_omega

end Mario

section Step

variable (board : Board) (pulses : Pulses) (input : Input) {g : Game} (band : g.mario.InBand)
  (running : g.resetH = false) {c r : Fin 10}

def HeadIn (c r : Fin 10) (g : Game) : Prop :=
  Covers c r g.mario.marioXPos.toNat (g.mario.marioYPos.toNat - 20)

instance (c r : Fin 10) (g : Game) : Decidable (HeadIn c r g) :=
  inferInstanceAs (Decidable (_ ∧ _ ∧ _ ∧ _))

theorem HeadIn.low (head : HeadIn c r g) (band : g.mario.InBand) : 61 ≤ g.mario.marioYPos.toNat := by
  have rows := head.2.2.1
  have odd := band.odd
  omega

theorem HeadIn.kept (head : HeadIn c r g) (quiet : pulses.mario = false)
    (running : g.resetH = false) : HeadIn c r (g.step board pulses input) := by
  rw [HeadIn, step_mario_quiet board pulses input quiet running]
  exact head

theorem still_of_quiet (quiet : pulses.mario = false) : g.mario.shift pulses.mario = false := by
  rw [quiet]
  rfl

include band running

theorem HeadIn.block_stays (head : HeadIn c r g) (quiet : pulses.mario = false)
    (other : cellId g.blocks.blockCols c r ≠ 0b010#3) :
    cellId (g.step board pulses input).blocks.blockCols c r = cellId g.blocks.blockCols c r := by
  have removes := removesHeadBrick_aligned board pulses input g band running
    (still_of_quiet pulses quiet) (head.low band)
  rcases removes c r with same | ⟨-, brick, -⟩
  · exact same
  · exact absurd brick other

theorem HeadIn.brick_breaks (head : HeadIn c r g) (quiet : pulses.mario = false)
    (brick : cellId g.blocks.blockCols c r = 0b010#3) :
    cellId (g.step board pulses input).blocks.blockCols c r = 0#3 := by
  have probed := (up_eq_cellId board g head).trans brick
  have columns := step_blockCols_still board pulses input g running (still_of_quiet pulses quiet)
  have low := head.low band
  have bottom := band.bottom
  have tracks := marioBlockX_tracks g.mario.marioXPos
  have row := marioBlockUp_row g.mario.marioYPos (by omega) (by omega)
  rw [if_pos probed] at columns
  have covers : Covers c r g.mario.marioXPos.toNat (g.mario.marioYPos.toNat - 20) := head
  simp only [Covers] at covers
  have position := tracks.1 (by omega) (by omega)
  have sameColumn : c.val = (marioBlockX g.mario.marioXPos).toNat := by omega
  have sameRow : (lower (marioBlockUp g.mario.marioYPos)).toNat = 3 * r.val := by omega
  rw [cellId, columns, remove, if_pos sameColumn, sameRow]
  exact part_clearPart_same _ _ _

end Step

section Runs

variable (board : Board) (start : Toplevel) (inputs : Nat → Input)

/-- The frame step of cycle `n` belongs to a jump and brings the pixel above Mario into the solid
cell `(c, r)`. -/
structure RisesInto (n : Nat) (c r : Fin 10) : Prop where
  frame : FramePulse board start inputs n
  rising : (sinceReset board start inputs (n + 1)).game.mario.jumpCounter ≠ 0#7
  head : HeadIn c r (sinceReset board start inputs (n + 1)).game
  solid : cellId (sinceReset board start inputs (n + 1)).game.blocks.blockCols c r ≠ 0#3

theorem pulse_single (n : Nat) (pulse : FramePulse board start inputs n) :
    ¬ FramePulse board start inputs (n + 1) := by
  have before : (sinceReset board start inputs n).clock.marioEdge.delayed = true := by
    rw [FramePulse, sinceReset, Toplevel.run_clock] at pulse
    rw [sinceReset, Toplevel.run_clock]
    simp only [FrameClock.step, EdgeDetector.step, Bool.and_eq_true] at pulse ⊢
    exact pulse.1
  rw [FramePulse, Toplevel.run_clock]
  simp [FrameClock.step, EdgeDetector.step, before]

variable {n m : Nat} {c r : Fin 10}

structure Arrives (n : Nat) (c r : Fin 10) (m : Nat) : Prop where
  head : HeadIn c r (sinceReset board start inputs m).game
  counter : (sinceReset board start inputs m).game.mario.jumpCounter =
    (sinceReset board start inputs (n + 1)).game.mario.jumpCounter
  block : cellId (sinceReset board start inputs (n + 1)).game.blocks.blockCols c r ≠ 0b010#3 →
    cellId (sinceReset board start inputs m).game.blocks.blockCols c r =
      cellId (sinceReset board start inputs (n + 1)).game.blocks.blockCols c r
  broken : cellId (sinceReset board start inputs (n + 1)).game.blocks.blockCols c r = 0b010#3 →
    n + 1 < m → cellId (sinceReset board start inputs m).game.blocks.blockCols c r = 0#3

variable {board start inputs}

theorem RisesInto.arrives (reset : start.game.resetH = true)
    (rises : RisesInto board start inputs n c r) (later : n + 1 ≤ m)
    (silent : ∀ k, n < k → k < m → ¬ FramePulse board start inputs k)
    (unreset : ∀ k, n < k → k < m → (sinceReset board start inputs k).game.resetH = false) :
    Arrives board start inputs n c r m := by
  induction m, later using Nat.le_induction with
  | base => exact ⟨rises.head, rfl, fun _ => rfl, fun _ late => absurd late (Nat.lt_irrefl _)⟩
  | succ m later ih =>
      have arrived := ih (fun k above below => silent k above (Nat.lt_succ_of_lt below))
        (fun k above below => unreset k above (Nat.lt_succ_of_lt below))
      have band := run_inBand board start inputs reset m
      have running := unreset m later (Nat.lt_succ_self m)
      have quiet : (sinceReset board start inputs m).clock.pulses.mario = false :=
        Bool.eq_false_iff.mpr (silent m later (Nat.lt_succ_self m))
      have next : (sinceReset board start inputs (m + 1)).game =
          (sinceReset board start inputs m).game.step board
            (sinceReset board start inputs m).clock.pulses (inputs (m + 1)) := rfl
      have stays := arrived.head.block_stays board _ (inputs (m + 1)) band running quiet
      rw [← next] at stays
      constructor
      case head =>
        rw [next]
        exact arrived.head.kept board _ _ quiet running
      case counter =>
        rw [next, step_mario_quiet board _ _ quiet running]
        exact arrived.counter
      case block =>
        intro other
        have same := arrived.block other
        rw [← same] at other ⊢
        exact stays other
      case broken =>
        intro brick _
        rcases Nat.eq_or_lt_of_le later with first | late
        · obtain rfl := first
          rw [next]
          exact arrived.head.brick_breaks board _ (inputs (n + 1 + 1)) band running quiet brick
        · have zero := arrived.broken brick late
          rw [stays (by rw [zero]; decide), zero]

/-- The frame after Mario's head has come into a solid cell ends his jump exactly if the cell is
no brick, or the jump is over anyway. -/
theorem RisesInto.endsAscent_iff (reset : start.game.resetH = true)
    (rises : RisesInto board start inputs n c r)
    (next : Successive (FramePulse board start inputs) n m)
    (unreset : ∀ k, n < k → k ≤ m → (sinceReset board start inputs k).game.resetH = false) :
    Mario.EndsAscent (sinceReset board start inputs m).game.mario
        (sinceReset board start inputs (m + 1)).game.mario ↔
      cellId (sinceReset board start inputs (n + 1)).game.blocks.blockCols c r ≠ 0b010#3 ∨
        (sinceReset board start inputs (n + 1)).game.mario.jumpCounter = 95#7 := by
  have later : n + 1 < m := by
    apply Nat.lt_of_le_of_ne next.ordered
    rintro rfl
    exact pulse_single board start inputs n next.at_first next.at_second
  have arrived := rises.arrives reset later.le next.between
    (fun k above below => unreset k above below.le)
  have band := run_inBand board start inputs reset m
  have running := unreset m next.ordered (Nat.le_refl m)
  have rising : (sinceReset board start inputs m).game.mario.jumpCounter ≠ 0#7 := by
    rw [arrived.counter]
    exact rises.rising
  have step : (sinceReset board start inputs (m + 1)).game.mario =
      (sinceReset board start inputs m).game.mario.frameStep
        ((inputs (m + 1)).keycode.setWidth 16)
        ((sinceReset board start inputs m).game.marioPolls board) := by
    rw [sinceReset, Toplevel.run_game]
    exact step_mario_frame board _ _ next.at_second running
  rw [step, Mario.endsAscent_iff _ _ _ band rising (arrived.head.low band),
    up_eq_cellId board _ arrived.head, arrived.counter]
  by_cases brick :
      cellId (sinceReset board start inputs (n + 1)).game.blocks.blockCols c r = 0b010#3
  · rw [arrived.broken brick later, brick]
    simp
  · rw [arrived.block brick]
    exact or_congr_left (iff_of_true rises.solid brick)

end Runs

/-- In every game, the next frame step ends a jump that has reached a solid cell exactly if the
cell holds no brick or the counter of the jump is full. -/
theorem block_ends_jump_iff (board : Board) (start : Toplevel) (inputs : Nat → Input)
    (reset : start.game.resetH = true) (n m : Nat) (c r : Fin 10)
    (rises : RisesInto board start inputs n c r)
    (next : Successive (FramePulse board start inputs) n m)
    (unreset : ∀ k, n < k → k ≤ m → (sinceReset board start inputs k).game.resetH = false) :
    Mario.EndsAscent (sinceReset board start inputs m).game.mario
        (sinceReset board start inputs (m + 1)).game.mario ↔
      cellId (sinceReset board start inputs (n + 1)).game.blocks.blockCols c r ≠ 0b010#3 ∨
        (sinceReset board start inputs (n + 1)).game.mario.jumpCounter = 95#7 :=
  rises.endsAscent_iff reset next unreset

section Shelf

def shelfColumn (block : BitVec 3) : BitVec 30 := 0#6 ++ block ++ 0#21

def shelfBoard (block : BitVec 3) : Board where
  levelMem _ := 0#6 ++ shelfColumn block
  outside _ _ _ := 0#3

def shelfKeys : List (BitVec 8) := [0#8, 0#8, 0x1A#8] ++ List.replicate 19 0#8

def shelfInputs : Nat → Input := scriptInputs (shelfKeys ++ [0#8])

abbrev shelfRun (block : BitVec 3) : Nat → Toplevel :=
  sinceReset (shelfBoard block) (Toplevel.held (shelfBoard block)) shelfInputs

def AtShelf (block : BitVec 3) (c r : Fin 10) (g : Game) : Prop :=
  g.mario.jumpCounter = 21#7 ∧ HeadIn c r g ∧ cellId g.blocks.blockCols c r = block

instance (block : BitVec 3) (c r : Fin 10) (g : Game) : Decidable (AtShelf block c r g) :=
  inferInstanceAs (Decidable (_ ∧ _ ∧ _))

variable (block : BitVec 3) (kind : block = 0b001#3 ∨ block = 0b010#3)

include kind

set_option maxRecDepth 100000 in
theorem shelf_played : playHeld (shelfBoard block)
    (fun g => decide (AtShelf block 0 7 (g.step (shelfBoard block) (Pulses.all true)
      ⟨true, 0#8⟩)) && g.play (shelfBoard block) (fun _ => true) [0#8]) shelfKeys = true := by
  rcases kind with rfl | rfl <;> decide +kernel

theorem shelf_unreset (k : Nat) : (shelfRun block k).game.resetH = false := by
  have unmarked : (shelfBoard block).Unmarked := by
    intro a
    change (control (0#6 ++ shelfColumn block)).getLsbD 0 = false
    rcases kind with rfl | rfl <;> decide
  exact unmarked_running unmarked _ (fun _ => rfl) k

theorem shelf_reached : ∃ first last, AtShelf block 0 7 (shelfRun block (first + 1)).game ∧
    Successive (FramePulse (shelfBoard block) (Toplevel.held (shelfBoard block)) shelfInputs)
      first last := by
  obtain ⟨first, atFirst⟩ : ∃ first, first = scriptEnd shelfKeys := ⟨_, rfl⟩
  obtain ⟨last, atLast⟩ : ∃ last, last = first + frameCycles := ⟨_, rfl⟩
  rcases script_frame (shelfBoard block) _ _ shelfKeys 0#8 (shelf_played block kind) first last
    atFirst atLast with ⟨here, -, next⟩
  have pressed : shelfInputs (first + 1) = ⟨true, 0#8⟩ := by
    have more := scriptInputs_more shelfKeys [0#8] 0
    rw [← atFirst] at more
    exact more
  have later : 0 < first := by
    rw [atFirst, scriptEnd]
    decide
  have step := run_frameStep (shelfBoard block) (Toplevel.held (shelfBoard block)) shelfInputs
    first later next.at_first
  rw [pressed] at step
  refine ⟨first, last, ?_, next⟩
  rw [shelfRun, step]
  exact of_decide_eq_true here

theorem AtShelf.risesInto {first : Nat} (shelf : AtShelf block 0 7 (shelfRun block (first + 1)).game)
    (frame : FramePulse (shelfBoard block) (Toplevel.held (shelfBoard block)) shelfInputs first) :
    RisesInto (shelfBoard block) (Toplevel.held (shelfBoard block)) shelfInputs first 0 7 := by
  refine ⟨frame, ?_, shelf.2.1, ?_⟩
  · rw [shelf.1]
    decide
  · rw [shelf.2.2]
    rcases kind with rfl | rfl <;> decide

end Shelf

theorem block_ends_jump_iff_shelf : ∃ first last,
    RisesInto (shelfBoard 0b001#3) (Toplevel.held (shelfBoard 0b001#3)) shelfInputs first 0 7 ∧
      Mario.EndsAscent (shelfRun 0b001#3 last).game.mario
        (shelfRun 0b001#3 (last + 1)).game.mario := by
  have kind : (0b001#3 : BitVec 3) = 0b001#3 ∨ (0b001#3 : BitVec 3) = 0b010#3 := Or.inl rfl
  rcases shelf_reached 0b001#3 kind with ⟨first, last, shelf, next⟩
  have rises := shelf.risesInto 0b001#3 kind next.at_first
  refine ⟨first, last, rises, (block_ends_jump_iff (shelfBoard 0b001#3)
    (Toplevel.held (shelfBoard 0b001#3)) shelfInputs rfl first last 0 7 rises next
    (fun k _ _ => shelf_unreset 0b001#3 kind k)).mpr (Or.inl ?_)⟩
  rw [shelf.2.2]
  decide

/-- The brick is gone when the next frame looks for it, and Mario goes on rising. -/
theorem brick_goes_unnoticed : ¬ ∀ (board : Board) (start : Toplevel) (inputs : Nat → Input),
    start.game.resetH = true → ∀ n m c r, RisesInto board start inputs n c r →
      Successive (FramePulse board start inputs) n m →
      (∀ k, n < k → k ≤ m → (sinceReset board start inputs k).game.resetH = false) →
      Mario.EndsAscent (sinceReset board start inputs m).game.mario
        (sinceReset board start inputs (m + 1)).game.mario := by
  intro ends
  have kind : (0b010#3 : BitVec 3) = 0b001#3 ∨ (0b010#3 : BitVec 3) = 0b010#3 := Or.inr rfl
  rcases shelf_reached 0b010#3 kind with ⟨first, last, shelf, next⟩
  have rises := shelf.risesInto 0b010#3 kind next.at_first
  have running : ∀ k, first < k → k ≤ last → (shelfRun 0b010#3 k).game.resetH = false :=
    fun k _ _ => shelf_unreset 0b010#3 kind k
  have ended := ends (shelfBoard 0b010#3) (Toplevel.held (shelfBoard 0b010#3)) shelfInputs rfl first
    last 0 7 rises next running
  rcases (rises.endsAscent_iff rfl next running).mp ended with other | full
  · exact other shelf.2.2
  · rw [shelf.1] at full
    exact absurd full (by decide)

end FPGAMario
