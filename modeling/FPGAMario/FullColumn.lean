import FPGAMario.Bricks
import FPGAMario.Clipping
import FPGAMario.Travel

/-! A column of the level without a gap: Mario does not get past it. -/

namespace FPGAMario

open Hdl Game BlockArray

/-- Column `w` of the level has a block in every row. -/
def FullColumn (board : Board) (w : Nat) : Prop := ∀ r, levelCell board w r ≠ 0#3

section Barrier

variable {board : Board} {start : Toplevel} {inputs : Nat → Input} {n w : Nat}
  (reset : start.game.resetH = true) (late : 10 ≤ w)

include reset late

theorem column_whole
    (running : ∀ k, k < n → (sinceReset board start inputs k).game.resetH = false)
    (behind : ∀ k, k < n → marioPlace board start inputs k < 40 * w + 120) (c : Fin 10)
    (place : c.val + shifts board start inputs n = w) (r : Fin 10) :
    cellId (sinceReset board start inputs n).game.blocks.blockCols c r = levelCell board w r := by
  have streamed := run_streamed board start inputs reset n running c (by omega)
  have missed : ¬ Hit board start inputs n c := by
    rintro ⟨k, earlier, j, slot, -, -, column⟩
    have band := run_inBand board start inputs reset k
    have left := band.left
    have right := band.right
    have tracks := (marioBlockX_tracks
      (sinceReset board start inputs k).game.mario.marioXPos).1 (by omega) (by omega)
    have ordered := shifts_mono board start inputs k n earlier.le
    have short := behind k earlier
    rw [marioPlace] at short
    omega
  have address : BitVec.ofNat 8 (10 + shifts board start inputs n) - 10#8 + BitVec.ofNat 8 c.val =
      BitVec.ofNat 8 w := by
    rw [← place]
    bv_omega
  rw [cellId, streamed.2 missed, levelColumn, run_currentBlockCol reset running, address, levelCell]

theorem blocked_right (full : FullColumn board w)
    (running : ∀ k, k < n → (sinceReset board start inputs k).game.resetH = false)
    (short : ∀ k, k ≤ n → marioPlace board start inputs k ≤ 40 * w + 101)
    (close : 40 * w + 100 ≤ marioPlace board start inputs n) :
    ((sinceReset board start inputs n).game.marioPolls board).right ≠ 0#3 := by
  have band := run_inBand board start inputs reset n
  have left := band.left
  have right := band.right
  have top := band.top
  have bottom := band.bottom
  have now := short n (Nat.le_refl n)
  rw [marioPlace] at now close
  have inside : w - shifts board start inputs n < 10 := by omega
  have covers : Covers ⟨w - shifts board start inputs n, inside⟩
      ⟨((sinceReset board start inputs n).game.mario.marioYPos.toNat - 40) / 40, by omega⟩
      ((sinceReset board start inputs n).game.mario.marioXPos.toNat + 20)
      (sinceReset board start inputs n).game.mario.marioYPos.toNat := by
    simp only [Covers]
    omega
  have whole := column_whole reset late running
    (fun k earlier => Nat.lt_of_le_of_lt (short k earlier.le) (by omega))
    ⟨w - shifts board start inputs n, inside⟩ (by simp only; omega)
  rw [right_eq_cellId board _ covers, whole]
  exact full _

theorem short_succ (full : FullColumn board w)
    (running : ∀ k, k < n + 1 → (sinceReset board start inputs k).game.resetH = false)
    (short : ∀ k, k ≤ n → marioPlace board start inputs k ≤ 40 * w + 101) :
    marioPlace board start inputs (n + 1) ≤ 40 * w + 101 := by
  have now := running n (Nat.lt_succ_self n)
  have here := short n (Nat.le_refl n)
  by_cases pulse : FramePulse board start inputs n
  · have band := run_inBand board start inputs reset n
    have frame : (sinceReset board start inputs (n + 1)).game.mario = _ :=
      step_mario_frame board _ (inputs (n + 1)) pulse now
    cases shift : (sinceReset board start inputs n).shift with
    | true =>
        have past := ((Mario.shift_eq_true _ _).mp shift).2
        have back := (Mario.frameStep_xPos ((inputs (n + 1)).keycode.setWidth 16)
          ((sinceReset board start inputs n).game.marioPolls board) _ band).2.2.1 past
        rw [marioPlace] at here ⊢
        rw [shifts_succ_of_shift board start inputs n shift, frame, back]
        omega
    | false =>
        have near := Mario.near_of_still _ pulse shift
        rw [marioPlace] at here ⊢
        rw [shifts_succ_of_still board start inputs n shift, frame]
        rcases Mario.frameStep_xPos_cases ((inputs (n + 1)).keycode.setWidth 16)
          ((sinceReset board start inputs n).game.marioPolls board) near
          with ⟨key, side⟩ | ⟨key, side, inside⟩ | same
        · have free : ¬ 40 * w + 100 ≤ marioPlace board start inputs n := fun close =>
            blocked_right reset late full (fun k below => running k (Nat.lt_succ_of_lt below)) short
              close side
          have stride := Mario.stride_toNat (m := (sinceReset board start inputs n).game.mario)
          rw [marioPlace] at free
          rw [Mario.frameStep_xPos_right band near key side]
          omega
        · rw [Mario.frameStep_xPos_left near key side inside]
          omega
        · rw [same]
          exact here
  · rw [marioPlace_quiet now pulse]
    exact here

theorem run_short (full : FullColumn board w)
    (running : ∀ k, k < n → (sinceReset board start inputs k).game.resetH = false) :
    marioPlace board start inputs n ≤ 40 * w + 101 := by
  induction n using Nat.strong_induction_on with
  | _ n ih =>
      cases n with
      | zero =>
          have band := run_inBand board start inputs reset 0
          have right := band.right
          have none : shifts board start inputs 0 = 0 := rfl
          rw [marioPlace, none]
          omega
      | succ n =>
          apply short_succ reset late full running
          intro k below
          exact ih k (Nat.lt_succ_of_le below) fun j earlier => running j (by omega)

theorem run_shifts (full : FullColumn board w)
    (running : ∀ k, k < n → (sinceReset board start inputs k).game.resetH = false) :
    shifts board start inputs n + 4 ≤ w := by
  induction n with
  | zero =>
      have none : shifts board start inputs 0 = 0 := rfl
      omega
  | succ n ih =>
      have earlier (k : Nat) (below : k < n) := running k (Nat.lt_succ_of_lt below)
      cases shift : (sinceReset board start inputs n).shift with
      | true =>
          have past := ((Mario.shift_eq_true _ _).mp shift).2
          have short := run_short reset late full earlier
          rw [marioPlace] at short
          rw [shifts_succ_of_shift board start inputs n shift]
          omega
      | false =>
          rw [shifts_succ_of_still board start inputs n shift]
          exact ih earlier

end Barrier

/-- There is no way past a full column: from a Reset on, whatever is typed, Mario gets one pixel into
it at most, none of its bricks breaks, and the level scrolls no further than four columns before
it. -/
theorem full_column_stops (board : Board) (start : Toplevel) (inputs : Nat → Input)
    (reset : start.game.resetH = true) (w : Nat) (late : 10 ≤ w) (full : FullColumn board w) (n : Nat)
    (running : ∀ k, k < n → (sinceReset board start inputs k).game.resetH = false) :
    marioPlace board start inputs n ≤ 40 * w + 101 ∧ shifts board start inputs n + 4 ≤ w ∧
      ∀ c : Fin 10, c.val + shifts board start inputs n = w → ∀ r,
        cellId (sinceReset board start inputs n).game.blocks.blockCols c r = levelCell board w r := by
  refine ⟨run_short reset late full running, run_shifts reset late full running, ?_⟩
  intro c place r
  apply column_whole reset late running _ c place
  intro k earlier
  have short := run_short reset late full fun j before => running j (before.trans earlier)
  omega

def wallBoard : Board where
  levelMem a := if a = 12#8 then 0b010_010_010_010_010_010_010_010_010_010#36 else 0#36
  outside _ _ _ := 0#3

def wallKeys : List (BitVec 8) := List.replicate 235 0x07#8

set_option maxRecDepth 100000 in
theorem wall_played : playHeld wallBoard (fun g => decide (g.mario.marioXPos = 260#10 ∧
    g.blocks.currentBlockCol = 18#8)) wallKeys = true := by
  decide +kernel

/-- Mario stands at the wall, which is in slot 4 then. -/
theorem full_column_stops_wall :
    let start := Toplevel.held wallBoard
    let inputs := scriptInputs wallKeys
    let n := scriptEnd wallKeys
    (marioPlace wallBoard start inputs n = 580 ∧
        (4 : Fin 10).val + shifts wallBoard start inputs n = 12) ∧
      marioPlace wallBoard start inputs n ≤ 40 * 12 + 101 ∧
        shifts wallBoard start inputs n + 4 ≤ 12 ∧
          ∀ c : Fin 10, c.val + shifts wallBoard start inputs n = 12 → ∀ r,
            cellId (sinceReset wallBoard start inputs n).game.blocks.blockCols c r =
              levelCell wallBoard 12 r := by
  intro start inputs n
  have full : FullColumn wallBoard 12 := by
    intro r
    revert r
    decide
  have running (k : Nat) (bound : k < n) : (sinceReset wallBoard start inputs k).game.resetH = false :=
    playHeld_running wallBoard _ wallKeys wall_played k bound.le
  have stops := full_column_stops wallBoard start inputs rfl 12 (by decide) full n running
  refine ⟨?_, stops⟩
  rcases of_decide_eq_true (playHeld_sound wallBoard _ wallKeys wall_played).2.2 with
    ⟨position, pending⟩
  have address : (sinceReset wallBoard start inputs n).game.blocks.currentBlockCol = _ :=
    run_currentBlockCol rfl running
  have scrolls := congrArg BitVec.toNat (address.symm.trans pending)
  have place : (sinceReset wallBoard start inputs n).game.mario.marioXPos.toNat = 260 :=
    congrArg BitVec.toNat position
  have four : (4 : Fin 10).val = 4 := rfl
  simp only [BitVec.toNat_ofNat] at scrolls
  rw [marioPlace, place]
  have last := stops.2.1
  omega

end FPGAMario
