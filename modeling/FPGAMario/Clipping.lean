import FPGAMario.Probes

/-! Mario's centre and the solid cells of the window. -/

namespace FPGAMario

open Hdl Game BlockArray

section Picture

def InColumn (c : Fin 10) (px : Nat) : Prop := 120 + 40 * c.val ≤ px ∧ px < 160 + 40 * c.val

def InRow (r : Fin 10) (py : Nat) : Prop := 40 + 40 * r.val ≤ py ∧ py < 80 + 40 * r.val

theorem covers_iff (c r : Fin 10) (px py : Nat) : Covers c r px py ↔ InColumn c px ∧ InRow r py := by
  simp only [Covers, InColumn, InRow]
  omega

/-- The cell at the pixel is empty, or there is none. -/
def Clear (cols : BlockCols) (px py : Int) : Prop :=
  ∀ c r, Covers c r px py → cellId cols c r = 0#3

variable {cols : BlockCols} {px py : Int}

theorem clear_between_rows {low high : Int} (above : low ≤ py) (below : py ≤ high)
    (near : high ≤ low + 40) (clearLow : Clear cols px low) (clearHigh : Clear cols px high) :
    Clear cols px py := by
  intro c r covers
  simp only [Covers] at covers
  by_cases inside : 40 + 40 * (r.val : Int) ≤ low
  · apply clearLow c r
    simp only [Covers]
    omega
  · apply clearHigh c r
    simp only [Covers]
    omega

theorem clear_between_columns {low high : Int} (above : low ≤ px) (below : px ≤ high)
    (near : high ≤ low + 40) (clearLow : Clear cols low py) (clearHigh : Clear cols high py) :
    Clear cols px py := by
  intro c r covers
  simp only [Covers] at covers
  by_cases inside : 120 + 40 * (c.val : Int) ≤ low
  · apply clearLow c r
    simp only [Covers]
    omega
  · apply clearHigh c r
    simp only [Covers]
    omega

theorem cellId_zero_of_included {before after : BlockCols} {c r : Fin 10}
    (included : BitsIncluded (after c) (before c)) (zero : cellId before c r = 0#3) :
    cellId after c r = 0#3 := by
  apply BitVec.eq_of_getLsbD_eq
  intro i bound
  have bit := congrArg (fun v => v.getLsbD i) zero
  simp only [cellId, part_getLsbD, BitVec.getLsbD_zero, decide_eq_true bound, Bool.true_and]
    at bit ⊢
  rw [← Bool.not_eq_true] at bit ⊢
  exact fun set => bit (included _ set)

theorem Clear.of_included {before after : BlockCols}
    (included : ∀ c, BitsIncluded (after c) (before c)) (clear : Clear before px py) :
    Clear after px py := by
  intro c r covers
  exact cellId_zero_of_included (included c) (clear c r covers)

theorem Clear.push (word : BitVec 30) (left : 160 ≤ px) (right : px < 520)
    (clear : Clear cols px py) : Clear (BlockArray.push word cols) (px - 40) py := by
  intro c r covers
  simp only [Covers] at covers
  have inside : c.val < 9 := by omega
  rw [cellId, BlockArray.push, dif_pos inside]
  apply clear ⟨c.val + 1, by omega⟩ r
  simp only [Covers]
  omega

theorem select_eq_cellId (board : Board) {column : BitVec 10} {low : BitVec 5} {c r : Fin 10}
    (tracks : TracksColumn column px) (covers : Covers c r px py)
    (row : (low.toNat : Int) = 3 * ((py - 40) / 40)) :
    select board cols column low = cellId cols c r := by
  simp only [Covers] at covers
  have position := tracks.1 (by omega) (by omega)
  have inside : InRange column low := ⟨by omega, by omega⟩
  have sameColumn : (⟨column.toNat, inside.1⟩ : Fin 10) = c := Fin.ext (by simp only; omega)
  have offset : low.toNat = 3 * r.val := by omega
  rw [select_of_inRange board cols inside, sameColumn, offset, cellId]

end Picture

section Around

variable (board : Board) (g : Game) {c r : Fin 10}

theorem up_eq_cellId
    (covers : Covers c r g.mario.marioXPos.toNat (g.mario.marioYPos.toNat - 20)) :
    (g.marioPolls board).up = cellId g.blocks.blockCols c r := by
  have rows := covers.2.2
  exact select_eq_cellId board (marioBlockX_tracks _) covers
    (marioBlockUp_row _ (by omega) (by omega))

theorem down_eq_cellId (band : g.mario.InBand)
    (covers : Covers c r g.mario.marioXPos.toNat (g.mario.marioYPos.toNat + 19)) :
    (g.marioPolls board).down = cellId g.blocks.blockCols c r := by
  have rows := covers.2.2
  have top := band.top
  exact select_eq_cellId board (marioBlockX_tracks _) covers
    (marioBlockDown_row _ (by omega) (by omega))

theorem left_eq_cellId
    (covers : Covers c r (g.mario.marioXPos.toNat - 20) g.mario.marioYPos.toNat) :
    (g.marioPolls board).left = cellId g.blocks.blockCols c r := by
  have rows := covers.2.2
  exact select_eq_cellId board (marioBlockLeft_tracks _) covers
    (marioBlockY_row _ (by omega) (by omega))

theorem right_eq_cellId
    (covers : Covers c r (g.mario.marioXPos.toNat + 20) g.mario.marioYPos.toNat) :
    (g.marioPolls board).right = cellId g.blocks.blockCols c r := by
  have rows := covers.2.2
  exact select_eq_cellId board (marioBlockRight_tracks _) covers
    (marioBlockY_row _ (by omega) (by omega))

end Around

namespace Mario

variable (keycode : BitVec 16) (polls : MarioPolls) (m : Mario)

def WalksOut (c c' : Fin 10) : Prop :=
  (keycode = keyD ∧ polls.right = 0#3 ∧ c'.val = c.val + 1 ∧
      160 + 40 * c.val ≤ m.marioXPos.toNat + m.stride.toNat) ∨
    (keycode = keyA ∧ polls.left = 0#3 ∧ 140 ≤ m.marioXPos.toNat ∧ c.val = c'.val + 1 ∧
      m.marioXPos.toNat < 120 + 40 * c.val + m.stride.toNat)

/-- Mario's centre is on the first line of row `r` and rises into row `r'`, or it is on the last
line and falls; at the top of a jump it falls without a look below. -/
def LeavesRow (r r' : Fin 10) : Prop :=
  (m.jumpCounter ≠ 0#7 ∧ m.jumpCounter ≠ 95#7 ∧ polls.up = 0#3 ∧ r.val = r'.val + 1 ∧
      m.marioYPos.toNat = 41 + 40 * r.val) ∨
    ((m.jumpCounter = 95#7 ∨ m.jumpCounter = 0#7 ∧ polls.down = 0#3) ∧ r'.val = r.val + 1 ∧
      m.marioYPos.toNat = 79 + 40 * r.val)

variable {keycode polls m} (band : m.InBand)

theorem WalksOut.other {c c' : Fin 10} (walks : WalksOut keycode polls m c c') :
    keycode ≠ keyW := by
  rcases walks with ⟨key, -⟩ | ⟨key, -⟩
  · rw [key]
    decide
  · rw [key]
    decide

theorem stride_toNat : m.stride.toNat = 1 ∨ m.stride.toNat = 2 := by
  rcases stride_cases m with stride | stride
  · exact Or.inl (congrArg BitVec.toNat stride)
  · exact Or.inr (congrArg BitVec.toNat stride)

theorem near_of_still (m : Mario) {pulse : Bool} (frame : pulse = true)
    (still : m.shift pulse = false) : m.marioXPos.toNat < 299 := by
  by_contra far
  have shift := (shift_eq_true pulse m).mpr ⟨frame, Nat.le_of_not_lt far⟩
  rw [still] at shift
  exact Bool.noConfusion shift

theorem frameStep_xPos_left (near : m.marioXPos.toNat < 299) (key : keycode = keyA)
    (side : polls.left = 0#3) (inside : 140 ≤ m.marioXPos.toNat) :
    (frameStep keycode polls m).marioXPos.toNat = m.marioXPos.toNat - m.stride.toNat := by
  have stride := stride_toNat (m := m)
  have bound : marioXMin + marioXSize ≤ m.marioXPos := inside
  simp only [frameStep, pastMiddle_iff, horizontalIn]
  rw [if_neg (Nat.not_le_of_lt near), if_pos ⟨key, side, bound⟩, walkIn_motion]
  bv_omega

theorem frameStep_xPos_cases (keycode : BitVec 16) (polls : MarioPolls)
    (near : m.marioXPos.toNat < 299) :
    (keycode = keyD ∧ polls.right = 0#3) ∨
      (keycode = keyA ∧ polls.left = 0#3 ∧ 140 ≤ m.marioXPos.toNat) ∨
      (frameStep keycode polls m).marioXPos = m.marioXPos := by
  by_cases left : keycode = keyA ∧ polls.left = 0#3 ∧ marioXMin + marioXSize ≤ m.marioXPos
  · exact Or.inr (Or.inl left)
  by_cases right : keycode = keyD ∧ polls.right = 0#3 ∧ m.marioXPos + marioXSize ≤ marioXMax
  · exact Or.inl ⟨right.1, right.2.1⟩
  right
  right
  simp only [frameStep, pastMiddle_iff, horizontalIn]
  rw [if_neg (Nat.not_le_of_lt near), if_neg left, if_neg right]
  exact BitVec.add_zero _

include band

theorem frameStep_xPos_right (near : m.marioXPos.toNat < 299) (key : keycode = keyD)
    (side : polls.right = 0#3) :
    (frameStep keycode polls m).marioXPos.toNat = m.marioXPos.toNat + m.stride.toNat := by
  have low := band.left
  have stride := stride_toNat (m := m)
  have inside : m.marioXPos + marioXSize ≤ marioXMax := by bv_omega
  have other : ¬ (keycode = keyA ∧ polls.left = 0#3 ∧ marioXMin + marioXSize ≤ m.marioXPos) := by
    rw [key]
    exact fun again => absurd again.1 (by decide)
  simp only [frameStep, pastMiddle_iff, horizontalIn]
  rw [if_neg (Nat.not_le_of_lt near), if_neg other, if_pos ⟨key, side, inside⟩, walkIn_motion]
  bv_omega

theorem walksOut_iff (near : m.marioXPos.toNat < 299) {c c' : Fin 10}
    (inside : InColumn c m.marioXPos.toNat) :
    InColumn c' (frameStep keycode polls m).marioXPos.toNat ∧ c' ≠ c ↔
      WalksOut keycode polls m c c' := by
  have stride := stride_toNat (m := m)
  rcases inside with ⟨low, high⟩
  constructor
  · intro moved
    rcases moved with ⟨⟨lowAfter, highAfter⟩, other⟩
    have different : c'.val ≠ c.val := fun same => other (Fin.ext same)
    rcases frameStep_xPos_cases keycode polls near with ⟨key, side⟩ | ⟨key, side, bound⟩ | still
    · rw [frameStep_xPos_right band near key side] at lowAfter highAfter
      exact Or.inl ⟨key, side, by omega, by omega⟩
    · rw [frameStep_xPos_left near key side bound] at lowAfter highAfter
      exact Or.inr ⟨key, side, bound, by omega, by omega⟩
    · rw [still] at lowAfter highAfter
      omega
  · intro walks
    have apart (columns : c'.val ≠ c.val) : c' ≠ c := fun same => columns (congrArg Fin.val same)
    rcases walks with ⟨key, side, next, border⟩ | ⟨key, side, bound, next, border⟩
    · rw [frameStep_xPos_right band near key side]
      exact ⟨⟨by omega, by omega⟩, apart (by omega)⟩
    · rw [frameStep_xPos_left near key side bound]
      exact ⟨⟨by omega, by omega⟩, apart (by omega)⟩

theorem frameStep_yPos (polls : MarioPolls) (other : keycode ≠ keyW) :
    ((frameStep keycode polls m).marioYPos.toNat : Int) = m.marioYPos.toNat +
      if m.jumpCounter ≠ 0#7 then
        if m.jumpCounter = 95#7 ∨ m.marioYPos.toNat ≤ 60 ∨ polls.up ≠ 0#3 then 2 else -2
      else if 420 ≤ m.marioYPos.toNat ∨ polls.down ≠ 0#3 then 0 else 2 := by
  have top := band.top
  have bottom := band.bottom
  have unpressed : ¬ (keycode = keyW ∧ m.falling = false ∧ m.jumpCounter = 0#7 ∧
      polls.up = 0#3) := fun pressed => other pressed.1
  have edge : m.marioYPos - marioYSize ≤ marioYMin ↔ m.marioYPos.toNat ≤ 60 := by bv_omega
  have ground : marioYMax ≤ m.marioYPos + marioYSize - 1#10 ↔ 420 ≤ m.marioYPos.toNat := by
    bv_omega
  simp only [frameStep, verticalIn, edge, ground]
  rw [if_neg unpressed]
  by_cases up : m.jumpCounter = 0#7
  · have still : ¬ 1#7 ≤ m.jumpCounter := by bv_omega
    rw [if_neg still, if_neg (not_not.mpr up)]
    by_cases support : 420 ≤ m.marioYPos.toNat ∨ polls.down ≠ 0#3
    · rw [if_pos support, if_pos support]
      bv_omega
    · rw [if_neg support, if_neg support]
      simp only [not_or, not_not] at support
      rw [if_pos (Or.inr support.2)]
      bv_omega
  · have rising : 1#7 ≤ m.jumpCounter := by bv_omega
    rw [if_pos rising, if_pos up]
    by_cases stop : m.jumpCounter = 95#7 ∨ m.marioYPos.toNat ≤ 60 ∨ polls.up ≠ 0#3
    · rw [if_pos stop, if_pos stop]
      bv_omega
    · rw [if_neg stop, if_neg stop]
      bv_omega

theorem leavesRow_iff (other : keycode ≠ keyW) {r r' : Fin 10}
    (inside : InRow r m.marioYPos.toNat)
    (head : m.marioYPos.toNat = 79 + 40 * r.val → polls.up = 0#3) :
    InRow r' (frameStep keycode polls m).marioYPos.toNat ∧ r' ≠ r ↔ LeavesRow polls m r r' := by
  rcases inside with ⟨low, high⟩
  have top := band.top
  have odd := band.odd
  have moved := frameStep_yPos band polls other
  constructor
  · intro leaves
    rcases leaves with ⟨⟨lowAfter, highAfter⟩, different⟩
    have rows : r'.val ≠ r.val := fun same => different (Fin.ext same)
    by_cases up : m.jumpCounter = 0#7
    · rw [if_neg (not_not.mpr up)] at moved
      split at moved
      · omega
      · next room =>
          simp only [not_or, not_not] at room
          exact Or.inr ⟨Or.inr ⟨up, room.2⟩, by omega, by omega⟩
    · rw [if_pos up] at moved
      split at moved
      · next stop =>
          have last : m.marioYPos.toNat = 79 + 40 * r.val := by omega
          have full : m.jumpCounter = 95#7 := by
            rcases stop with full | edge | hit
            · exact full
            · omega
            · exact absurd (head last) hit
          exact Or.inr ⟨Or.inl full, by omega, last⟩
      · next room =>
          simp only [not_or, not_not] at room
          exact Or.inl ⟨up, room.1, room.2.2, by omega, by omega⟩
  · intro leaves
    have different (rows : r'.val ≠ r.val) : r' ≠ r := fun same => rows (congrArg Fin.val same)
    rcases leaves with ⟨up, short, above, next, line⟩ | ⟨cause, next, line⟩
    · have room : ¬ (m.jumpCounter = 95#7 ∨ m.marioYPos.toNat ≤ 60 ∨ polls.up ≠ 0#3) := by
        simp only [not_or, not_not]
        exact ⟨short, by omega, above⟩
      rw [if_pos up, if_neg room] at moved
      exact ⟨⟨by omega, by omega⟩, different (by omega)⟩
    · rcases cause with full | ⟨up, below⟩
      · have up : m.jumpCounter ≠ 0#7 := by
          rw [full]
          decide
        rw [if_pos up, if_pos (Or.inl full)] at moved
        exact ⟨⟨by omega, by omega⟩, different (by omega)⟩
      · have room : ¬ (420 ≤ m.marioYPos.toNat ∨ polls.down ≠ 0#3) := by
          simp only [not_or, not_not]
          exact ⟨by omega, below⟩
        rw [if_neg (not_not.mpr up), if_neg room] at moved
        exact ⟨⟨by omega, by omega⟩, different (by omega)⟩

theorem frameStep_rose (keycode : BitVec 16) (polls : MarioPolls)
    (up : (frameStep keycode polls m).jumpCounter ≠ 0#7) :
    ((frameStep keycode polls m).marioYPos.toNat : Int) + 2 = m.marioYPos.toNat := by
  have top := band.top
  have vertical := verticalIn_step keycode polls m
  have height := frameStep_marioYPos keycode polls m
  have counter := frameStep_jumpCounter keycode polls m
  rw [counter] at up
  rw [height]
  clear height counter
  generalize verticalIn keycode polls m = step at *
  cases vertical with
  | jump | rise => bv_omega
  | ceiling | support => exact absurd rfl up
  | fall counter => exact absurd rfl up

end Mario

namespace Game

def CentreClear (g : Game) : Prop :=
  Clear g.blocks.blockCols g.mario.marioXPos.toNat g.mario.marioYPos.toNat

/-- At this pulse Mario's centre leaves its column and its row at once, towards a cell that is
not empty. -/
def ClipsCorner (board : Board) (keycode : BitVec 16) (g : Game) : Prop :=
  g.mario.marioXPos.toNat < 299 ∧ ∃ c c' r r',
    Covers c r g.mario.marioXPos.toNat g.mario.marioYPos.toNat ∧
      Mario.WalksOut keycode (g.marioPolls board) g.mario c c' ∧
      Mario.LeavesRow (g.marioPolls board) g.mario r r' ∧ cellId g.blocks.blockCols c' r' ≠ 0#3

/-- The centre is clear, and while Mario rises so is the line he has just left. -/
structure Unburied (g : Game) : Prop where
  centre : g.CentreClear
  behind : g.mario.jumpCounter ≠ 0#7 →
    Clear g.blocks.blockCols g.mario.marioXPos.toNat (g.mario.marioYPos.toNat + 2)

theorem exists_centre (g : Game) (band : g.mario.InBand) :
    ∃ c r, InColumn c g.mario.marioXPos.toNat ∧ InRow r g.mario.marioYPos.toNat := by
  have left := band.left
  have right := band.right
  have top := band.top
  have bottom := band.bottom
  refine ⟨⟨(g.mario.marioXPos.toNat - 120) / 40, by omega⟩,
    ⟨(g.mario.marioYPos.toNat - 40) / 40, by omega⟩, ?_⟩
  simp only [InColumn, InRow]
  omega

section Frame

variable (board : Board) (keycode : BitVec 16) {g : Game} (band : g.mario.InBand)

/-- From the last line of a row the upper probe looks at the row itself. -/
theorem Unburied.up_of_lastLine (unburied : g.Unburied) {c r : Fin 10}
    (covers : Covers c r g.mario.marioXPos.toNat g.mario.marioYPos.toNat)
    (last : g.mario.marioYPos.toNat = 79 + 40 * r.val) : (g.marioPolls board).up = 0#3 := by
  rw [← unburied.centre c r covers]
  apply up_eq_cellId
  simp only [Covers] at covers ⊢
  omega

theorem clear_up (above : (g.marioPolls board).up = 0#3) :
    Clear g.blocks.blockCols g.mario.marioXPos.toNat (g.mario.marioYPos.toNat - 20) :=
  fun _ _ covers => (up_eq_cellId board g covers).symm.trans above

theorem clear_left (side : (g.marioPolls board).left = 0#3) :
    Clear g.blocks.blockCols (g.mario.marioXPos.toNat - 20) g.mario.marioYPos.toNat :=
  fun _ _ covers => (left_eq_cellId board g covers).symm.trans side

theorem clear_right (side : (g.marioPolls board).right = 0#3) :
    Clear g.blocks.blockCols (g.mario.marioXPos.toNat + 20) g.mario.marioYPos.toNat :=
  fun _ _ covers => (right_eq_cellId board g covers).symm.trans side

include band

theorem clear_down (below : (g.marioPolls board).down = 0#3) :
    Clear g.blocks.blockCols g.mario.marioXPos.toNat (g.mario.marioYPos.toNat + 19) :=
  fun _ _ covers => (down_eq_cellId board g band covers).symm.trans below

theorem Unburied.clear_column (unburied : g.Unburied) : Clear g.blocks.blockCols
    g.mario.marioXPos.toNat (g.mario.frameStep keycode (g.marioPolls board)).marioYPos.toNat := by
  have top := band.top
  have bottom := band.bottom
  have centre : Clear _ _ _ := unburied.centre
  have vertical := Mario.verticalIn_step keycode (g.marioPolls board) g.mario
  have height : (g.mario.frameStep keycode (g.marioPolls board)).marioYPos =
      g.mario.marioYPos + (Mario.verticalIn keycode (g.marioPolls board) g.mario).motion := rfl
  generalize Mario.verticalIn keycode (g.marioPolls board) g.mario = step at *
  rw [height]
  cases vertical with
  | jump grounded counter above =>
      have low := band.notRising counter
      have line : ((g.mario.marioYPos + 1022#10).toNat : Int) = g.mario.marioYPos.toNat - 2 := by
        bv_omega
      rw [line]
      exact clear_between_rows (by omega) (by omega) (by omega) (clear_up board above) centre
  | ceiling counter =>
      have line : ((g.mario.marioYPos + 2#10).toNat : Int) = g.mario.marioYPos.toNat + 2 := by
        bv_omega
      rw [line]
      exact unburied.behind counter
  | rise counter short room above =>
      have line : ((g.mario.marioYPos + 1022#10).toNat : Int) = g.mario.marioYPos.toNat - 2 := by
        bv_omega
      rw [line]
      exact clear_between_rows (by omega) (by omega) (by omega) (clear_up board above) centre
  | support counter below =>
      rw [BitVec.add_zero]
      exact centre
  | fall counter room below =>
      have line : ((g.mario.marioYPos + 2#10).toNat : Int) = g.mario.marioYPos.toNat + 2 := by
        bv_omega
      rw [line]
      exact clear_between_rows (by omega) (by omega) (by omega) centre (clear_down board band below)

theorem Unburied.clear_row (unburied : g.Unburied) (near : g.mario.marioXPos.toNat < 299) :
    Clear g.blocks.blockCols
      (g.mario.frameStep keycode (g.marioPolls board)).marioXPos.toNat
      g.mario.marioYPos.toNat := by
  have centre : Clear _ _ _ := unburied.centre
  have stride := Mario.stride_toNat (m := g.mario)
  rcases Mario.frameStep_xPos_cases keycode (g.marioPolls board) near
    with ⟨key, side⟩ | ⟨key, side, bound⟩ | still
  · rw [Mario.frameStep_xPos_right band near key side]
    exact clear_between_columns (by omega) (by omega) (by omega) centre (clear_right board side)
  · rw [Mario.frameStep_xPos_left near key side bound]
    exact clear_between_columns (by omega) (by omega) (by omega) (clear_left board side) centre
  · rw [still]
    exact centre

/-- Without a scroll a frame takes Mario into an empty cell exactly if it clips no corner. -/
theorem Unburied.frame_iff (unburied : g.Unburied) (near : g.mario.marioXPos.toNat < 299) :
    Clear g.blocks.blockCols
        (g.mario.frameStep keycode (g.marioPolls board)).marioXPos.toNat
        (g.mario.frameStep keycode (g.marioPolls board)).marioYPos.toNat ↔
      ¬ g.ClipsCorner board keycode := by
  constructor
  · intro clear clips
    rcases clips with ⟨-, c, c', r, r', covers, walks, leaves, solid⟩
    have head := unburied.up_of_lastLine board covers
    rw [covers_iff] at covers
    have column := (Mario.walksOut_iff band near covers.1).mpr walks
    have row := (Mario.leavesRow_iff band walks.other covers.2 head).mpr leaves
    exact solid (clear c' r' ((covers_iff _ _ _ _).mpr ⟨column.1, row.1⟩))
  · intro unclipped c' r' after
    rcases g.exists_centre band with ⟨c, r, column, row⟩
    have covers := (covers_iff c r _ _).mpr ⟨column, row⟩
    rw [covers_iff] at after
    by_contra solid
    have columns : c' ≠ c := by
      intro same
      rw [same] at solid
      exact solid (unburied.clear_column board keycode band c r'
        ((covers_iff _ _ _ _).mpr ⟨column, after.2⟩))
    have rows : r' ≠ r := by
      intro same
      rw [same] at solid
      exact solid (unburied.clear_row board keycode band near c' r
        ((covers_iff _ _ _ _).mpr ⟨after.1, row⟩))
    have walks : Mario.WalksOut keycode (g.marioPolls board) g.mario c c' :=
      (Mario.walksOut_iff band near column).mp ⟨after.1, columns⟩
    have leaves : Mario.LeavesRow (g.marioPolls board) g.mario r r' :=
      (Mario.leavesRow_iff band walks.other row (unburied.up_of_lastLine board covers)).mp
        ⟨after.2, rows⟩
    exact unclipped ⟨near, c, c', r, r', covers, walks, leaves, solid⟩

end Frame

section Step

variable (board : Board) (pulses : Pulses) (input : Input) {g : Game} (band : g.mario.InBand)
  (running : g.resetH = false)

theorem step_clear (still : g.mario.shift pulses.mario = false) (running : g.resetH = false)
    {px py : Int} (clear : Clear g.blocks.blockCols px py) :
    Clear (g.step board pulses input).blocks.blockCols px py :=
  clear.of_included fun c => (step_keptSlot board pulses input g running still c).1

theorem step_mario_quiet (quiet : pulses.mario = false) (running : g.resetH = false) :
    (g.step board pulses input).mario =
      { g.mario with marioXMotion := 0#10, marioYMotion := 0#10 } := by
  rw [step_mario, running, quiet]
  rfl

theorem step_mario_frame (pulse : pulses.mario = true) (running : g.resetH = false) :
    (g.step board pulses input).mario =
      g.mario.frameStep (input.keycode.setWidth 16) (g.marioPolls board) := by
  rw [step_mario, running, pulse]
  rfl

include band running

theorem step_clear_scroll {py : Int} (shift : g.mario.shift pulses.mario = true)
    (clear : Clear g.blocks.blockCols g.mario.marioXPos.toNat py) :
    Clear (g.step board pulses input).blocks.blockCols
      (g.step board pulses input).mario.marioXPos.toNat py := by
  have far := ((Mario.shift_eq_true _ _).mp shift).2
  have right := band.right
  have back := (step_xPos board pulses input g band).2.1 running shift
  have position : ((g.step board pulses input).mario.marioXPos.toNat : Int) =
      (g.mario.marioXPos.toNat : Int) - 40 := by omega
  rw [step_shiftBlocks board pulses input g running shift, position]
  exact clear.push _ (by omega) (by omega)

theorem Unburied.step_behind (unburied : g.Unburied)
    (up : (g.step board pulses input).mario.jumpCounter ≠ 0#7) :
    Clear (g.step board pulses input).blocks.blockCols
      (g.step board pulses input).mario.marioXPos.toNat
      ((g.step board pulses input).mario.marioYPos.toNat + 2) := by
  cases pulse : pulses.mario with
  | false =>
      have still : g.mario.shift pulses.mario = false := by rw [pulse]; rfl
      rw [step_mario_quiet board pulses input pulse running] at up ⊢
      exact step_clear board pulses input still running (unburied.behind up)
  | true =>
      have frame := step_mario_frame board pulses input pulse running
      rw [frame] at up
      have line := Mario.frameStep_rose band _ _ up
      rw [← frame] at line
      rw [line]
      cases shift : g.mario.shift pulses.mario with
      | true =>
          exact step_clear_scroll board pulses input band running shift unburied.centre
      | false =>
          have near := g.mario.near_of_still pulse shift
          rw [frame]
          exact step_clear board pulses input shift running
            (unburied.clear_row board (input.keycode.setWidth 16) band near)

theorem Unburied.step_iff (unburied : g.Unburied) :
    (g.step board pulses input).CentreClear ↔
      ¬ (pulses.mario = true ∧ g.ClipsCorner board (input.keycode.setWidth 16)) := by
  cases pulse : pulses.mario with
  | false =>
      have still : g.mario.shift pulses.mario = false := by rw [pulse]; rfl
      refine iff_of_true ?_ (fun clips => Bool.noConfusion clips.1)
      rw [CentreClear, step_mario_quiet board pulses input pulse running]
      exact step_clear board pulses input still running unburied.centre
  | true =>
      have frame := step_mario_frame board pulses input pulse running
      cases shift : g.mario.shift pulses.mario with
      | true =>
          have far := ((Mario.shift_eq_true _ _).mp shift).2
          refine iff_of_true ?_ (fun clips => Nat.not_lt.mpr far clips.2.1)
          apply step_clear_scroll board pulses input band running shift
          rw [frame]
          exact unburied.clear_column board _ band
      | false =>
          have near := g.mario.near_of_still pulse shift
          have moved := unburied.frame_iff board (input.keycode.setWidth 16) band near
          rw [← frame] at moved
          simp only [true_and]
          rw [← moved, CentreClear]
          constructor
          · intro clear c r covers
            rcases step_keptSlot board pulses input g running shift c with ⟨-, kept⟩
            by_cases removed : g.RemovesAt board c
            · have left := band.left
              have right := band.right
              have column := removed.2
              have tracks := (marioBlockX_tracks g.mario.marioXPos).1 (by omega) (by omega)
              rw [frame] at covers
              apply unburied.clear_column board (input.keycode.setWidth 16) band c r
              simp only [Covers] at covers ⊢
              omega
            · have zero := clear c r covers
              rwa [cellId, kept removed] at zero
          · exact step_clear board pulses input shift running

end Step

end Game

section Runs

variable (board : Board) (start : Toplevel) (inputs : Nat → Input)

def Clips (k : Nat) : Prop :=
  FramePulse board start inputs k ∧ (sinceReset board start inputs k).game.ClipsCorner board
    ((inputs (k + 1)).keycode.setWidth 16)

variable (reset : start.game.resetH = true) (n : Nat)
  (unreset : ∀ k, k < n → (sinceReset board start inputs k).game.resetH = false)

include reset unreset

/-- A centre that has been clear from Reset on is not buried. -/
theorem run_unburied
    (clear : ∀ k, k ≤ n → (sinceReset board start inputs k).game.CentreClear) :
    (sinceReset board start inputs n).game.Unburied := by
  refine ⟨clear n (Nat.le_refl n), ?_⟩
  induction n with
  | zero =>
      intro up
      rw [Toplevel.run_game, step_mario, Toplevel.run_start, reset] at up
      exact absurd rfl up
  | succ n ih =>
      have before := ih (fun k bound => unreset k (Nat.lt_succ_of_lt bound))
        (fun k bound => clear k (Nat.le_succ_of_le bound))
      have unburied : (sinceReset board start inputs n).game.Unburied :=
        ⟨clear n (Nat.le_succ n), before⟩
      exact unburied.step_behind board _ (inputs (n + 1)) (run_inBand board start inputs reset n)
        (unreset n (Nat.lt_succ_self n))

/-- From a Reset that leaves Mario's centre in an empty cell, his centre stays in empty cells
exactly as long as it clips no corner. -/
theorem centre_clear_iff (empty : (sinceReset board start inputs 0).game.CentreClear) :
    (∀ k, k ≤ n → (sinceReset board start inputs k).game.CentreClear) ↔
      ∀ k, k < n → ¬ Clips board start inputs k := by
  induction n with
  | zero =>
      constructor
      · intro _ k bound
        exact absurd bound (Nat.not_lt_zero k)
      · intro _ k bound
        obtain rfl := Nat.le_zero.mp bound
        exact empty
  | succ n ih =>
      have earlier := ih (fun k bound => unreset k (Nat.lt_succ_of_lt bound))
      have next (clear : ∀ k, k ≤ n → (sinceReset board start inputs k).game.CentreClear) :
          (sinceReset board start inputs (n + 1)).game.CentreClear ↔
            ¬ Clips board start inputs n :=
        (run_unburied board start inputs reset n
          (fun k bound => unreset k (Nat.lt_succ_of_lt bound)) clear).step_iff board _
          (inputs (n + 1)) (run_inBand board start inputs reset n) (unreset n (Nat.lt_succ_self n))
      constructor
      · intro clear k bound
        have before := fun k bound => clear k (Nat.le_succ_of_le bound)
        rcases Nat.lt_succ_iff_lt_or_eq.mp bound with inside | rfl
        · exact earlier.mp before k inside
        · exact (next before).mp (clear (k + 1) (Nat.le_refl _))
      · intro unclipped
        have before := earlier.mpr (fun k bound => unclipped k (Nat.lt_succ_of_lt bound))
        intro k bound
        rcases Nat.le_succ_iff.mp bound with inside | rfl
        · exact before k inside
        · exact (next before).mpr (unclipped n (Nat.lt_succ_self n))

end Runs

section Corner

def atticColumn : BitVec 30 := 0b000_010_000_001_000_000_000_000_000_000#30

def atticBoard : Board where
  levelMem _ := 0#6 ++ atticColumn
  outside _ _ _ := 0#3

/-- Jump through the brick that broke at Reset, turn back at the blocks and walk right until
Mario's feet pass the top of the bricks. -/
def atticKeys : List (BitVec 8) :=
  [0#8, 0#8, 0x1A#8] ++ List.replicate 31 0#8 ++ List.replicate 19 0x07#8

def InBrick (c r : Fin 10) (g : Game) : Prop :=
  g.mario.marioXPos = 160#10 ∧ g.mario.marioYPos = 361#10 ∧
    cellId g.blocks.blockCols c r = 0b010#3

instance (c r : Fin 10) (g : Game) : Decidable (InBrick c r g) :=
  inferInstanceAs (Decidable (_ ∧ _ ∧ _))

theorem InBrick.not_clear {g : Game} (buried : InBrick 1 8 g) : ¬ g.CentreClear := by
  rcases buried with ⟨column, row, brick⟩
  intro clear
  have empty := clear 1 8 (by simp only [Covers, column, row]; decide)
  rw [brick] at empty
  exact absurd empty (by decide)

set_option maxRecDepth 100000 in
theorem attic_played :
    playHeld atticBoard (fun g => true && g.play atticBoard (fun g => decide (InBrick 1 8 g)) [0x07#8])
      atticKeys = true := by
  decide +kernel

theorem attic_unmarked : atticBoard.Unmarked := by
  intro a
  change (control (0#6 ++ atticColumn)).getLsbD 0 = false
  decide

theorem attic_unreset (keys : List (BitVec 8)) (k : Nat) :
    (sinceReset atticBoard (Toplevel.held atticBoard) (scriptInputs keys) k).game.resetH =
      false :=
  unmarked_running attic_unmarked (scriptInputs keys) (fun _ => rfl) k

theorem attic_empty (keys : List (BitVec 8)) :
    (sinceReset atticBoard (Toplevel.held atticBoard) (scriptInputs keys) 0).game.CentreClear := by
  have mario : (sinceReset atticBoard (Toplevel.held atticBoard) (scriptInputs keys) 0).game.mario =
      Mario.resetValue := rfl
  have blocks : (sinceReset atticBoard (Toplevel.held atticBoard)
      (scriptInputs keys) 0).game.blocks.blockCols =
        fun _ => atticColumn := rfl
  intro c r covers
  rw [mario] at covers
  have row : r = 9 := by
    simp only [Covers, Mario.resetValue] at covers
    apply Fin.ext
    bv_omega
  have ground : part 3 27 atticColumn = 0#3 := by decide
  rw [blocks, row]
  exact ground

theorem centre_clear_iff_attic :
    (∀ k, k ≤ scriptEnd atticKeys + frameCycles →
      (sinceReset atticBoard (Toplevel.held atticBoard) (scriptInputs (atticKeys ++ [0x07#8]))
        k).game.CentreClear) ↔
      ∀ k, k < scriptEnd atticKeys + frameCycles → ¬ Clips atticBoard (Toplevel.held atticBoard)
        (scriptInputs (atticKeys ++ [0x07#8])) k :=
  centre_clear_iff atticBoard (Toplevel.held atticBoard) (scriptInputs (atticKeys ++ [0x07#8])) rfl
    (scriptEnd atticKeys + frameCycles) (fun k _ => attic_unreset _ k) (attic_empty _)

/-- One frame later Mario's centre is in the brick. -/
theorem attic_buried : ¬ ∀ (board : Board) (start : Toplevel) (inputs : Nat → Input),
    start.game.resetH = true → (sinceReset board start inputs 0).game.CentreClear →
      ∀ n, (∀ k, k < n → (sinceReset board start inputs k).game.resetH = false) →
        (sinceReset board start inputs n).game.CentreClear := by
  intro stays
  obtain ⟨first, atFirst⟩ : ∃ first, first = scriptEnd atticKeys := ⟨_, rfl⟩
  obtain ⟨last, atLast⟩ : ∃ last, last = first + frameCycles := ⟨_, rfl⟩
  have frame := script_frame atticBoard _ _ atticKeys 0x07#8 attic_played first last atFirst atLast
  have buried : InBrick 1 8 (sinceReset atticBoard (Toplevel.held atticBoard)
      (scriptInputs (atticKeys ++ [0x07#8])) last).game := of_decide_eq_true frame.2.1
  exact buried.not_clear (stays atticBoard (Toplevel.held atticBoard) _ rfl (attic_empty _) last
    (fun k _ => attic_unreset _ k))

end Corner

end FPGAMario
