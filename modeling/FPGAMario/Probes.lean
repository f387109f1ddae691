import FPGAMario.GoombaBand
import FPGAMario.Scrolling
import FPGAMario.Script

/-! The probes of `block_array` against the window as a picture of 40 by 40 cells, and the
removal of bricks. -/

namespace FPGAMario

open Hdl Game BlockArray

section Cells

def cellId (cols : BlockCols) (c r : Fin 10) : BitVec 3 := part 3 (3 * r.val) (cols c)

def Covers (c r : Fin 10) (px py : Int) : Prop :=
  120 + 40 * c.val ≤ px ∧ px < 160 + 40 * c.val ∧ 40 + 40 * r.val ≤ py ∧ py < 80 + 40 * r.val

/-- A probe of the pixel tells the truth: it is the id of the cell that covers the pixel, and
empty where there is no such cell. -/
def Truthful (cols : BlockCols) (px py : Int) (probe : BitVec 3) : Prop :=
  (∀ c r, Covers c r px py → probe = cellId cols c r) ∧
    ((¬ ∃ c r, Covers c r px py) → probe = 0#3)

theorem covers_unique {c c' r r' : Fin 10} {px py : Int} (first : Covers c r px py)
    (second : Covers c' r' px py) : c' = c ∧ r' = r := by
  simp only [Covers] at first second
  exact ⟨Fin.ext (by omega), Fin.ext (by omega)⟩

theorem truthful_of_covers {cols : BlockCols} {px py : Int} {probe : BitVec 3} {c r : Fin 10}
    (covers : Covers c r px py) : Truthful cols px py probe ↔ probe = cellId cols c r := by
  constructor
  · intro truthful
    exact truthful.1 c r covers
  · intro equal
    constructor
    · intro c' r' other
      rcases covers_unique covers other with ⟨rfl, rfl⟩
      exact equal
    · intro none
      exact absurd ⟨c, r, covers⟩ none

theorem truthful_of_outside {cols : BlockCols} {px py : Int} {probe : BitVec 3}
    (outside : ¬ ∃ c r, Covers c r px py) : Truthful cols px py probe ↔ probe = 0#3 :=
  ⟨fun truthful => truthful.2 outside,
    fun zero => ⟨fun c r covers => absurd ⟨c, r, covers⟩ outside, fun _ => zero⟩⟩

def TracksColumn (column : BitVec 10) (px : Int) : Prop :=
  (120 ≤ px → px < 520 → (column.toNat : Int) = (px - 120) / 40) ∧
    (px < 120 ∨ 520 ≤ px → 10 ≤ column.toNat)

/-- Where the select leaves the declared ranges, it reads as empty. -/
def OutsideClear (board : Board) (cols : BlockCols) (column : BitVec 10) (low : BitVec 5) : Prop :=
  ¬ InRange column low → board.outside cols column low = 0#3

theorem select_of_inRange (board : Board) (cols : BlockCols) {column : BitVec 10} {low : BitVec 5}
    (inside : InRange column low) :
    select board cols column low = part 3 low.toNat (cols ⟨column.toNat, inside.1⟩) :=
  dif_pos inside

theorem select_of_outside (board : Board) (cols : BlockCols) {column : BitVec 10}
    {low : BitVec 5} (outside : ¬ InRange column low) :
    select board cols column low = board.outside cols column low :=
  dif_neg outside

theorem select_truthful_iff (board : Board) (cols : BlockCols) (column : BitVec 10)
    (low : BitVec 5) (px py : Int) (tracks : TracksColumn column px) (top : 40 ≤ py)
    (bottom : py < 440) (row : (low.toNat : Int) = 3 * ((py - 40) / 40)) :
    Truthful cols px py (select board cols column low) ↔
      OutsideClear board cols column low := by
  by_cases inGrid : 120 ≤ px ∧ px < 520
  · have position := tracks.1 inGrid.1 inGrid.2
    have inside : InRange column low := ⟨by omega, by omega⟩
    have covers : Covers ⟨column.toNat, inside.1⟩ ⟨((py - 40) / 40).toNat, by omega⟩ px py := by
      simp only [Covers]
      omega
    have offset : low.toNat = 3 * ((py - 40) / 40).toNat := by omega
    rw [truthful_of_covers covers, select_of_inRange board cols inside, cellId, ← offset]
    exact ⟨fun _ outside => absurd inside outside, fun _ => rfl⟩
  · have far := tracks.2 (by omega)
    have outside : ¬ InRange column low := by
      intro inside
      have bound := inside.1
      omega
    have nothing : ¬ ∃ c r, Covers c r px py := by
      intro cell
      rcases cell with ⟨c, r, covers⟩
      simp only [Covers] at covers
      omega
    rw [truthful_of_outside nothing, select_of_outside board cols outside]
    exact ⟨fun zero _ => zero, fun clear => clear outside⟩

end Cells

section Offsets

theorem lower_toNat (row : BitVec 10) : (lower row).toNat = 3 * row.toNat % 32 := by
  simp only [lower, BitVec.toNat_setWidth, BitVec.toNat_mul, BitVec.toNat_ofNat]
  omega

theorem marioBlockX_tracks (x : BitVec 10) : TracksColumn (marioBlockX x) x.toNat := by
  simp only [TracksColumn, marioBlockX, gridIndex, BitVec.toNat_udiv, BitVec.toNat_sub,
    BitVec.toNat_ofNat, Nat.reducePow, Nat.reduceMod]
  omega

theorem marioBlockLeft_tracks (x : BitVec 10) :
    TracksColumn (marioBlockLeft x) (x.toNat - 20) := by
  simp only [TracksColumn, marioBlockLeft, gridIndex, BitVec.toNat_udiv, BitVec.toNat_sub,
    BitVec.toNat_ofNat, Nat.reducePow, Nat.reduceMod]
  omega

theorem marioBlockRight_tracks (x : BitVec 10) :
    TracksColumn (marioBlockRight x) (x.toNat + 20) := by
  simp only [TracksColumn, marioBlockRight, gridIndex, BitVec.toNat_udiv, BitVec.toNat_sub,
    BitVec.toNat_add, BitVec.toNat_ofNat, Nat.reducePow, Nat.reduceMod]
  omega

theorem goombaBlockLeft_tracks (x : BitVec 10) :
    TracksColumn (goombaBlockLeft x) (x.toNat - 19) := by
  simp only [TracksColumn, goombaBlockLeft, BitVec.toNat_udiv, BitVec.toNat_sub,
    BitVec.toNat_ofNat, Nat.reducePow, Nat.reduceMod]
  omega

theorem goombaBlockRight_tracks (x : BitVec 10) :
    TracksColumn (goombaBlockRight x) (x.toNat + 18) := by
  simp only [TracksColumn, goombaBlockRight, gridIndex, BitVec.toNat_udiv, BitVec.toNat_sub,
    BitVec.toNat_add, BitVec.toNat_ofNat, Nat.reducePow, Nat.reduceMod]
  omega

theorem marioBlockY_row (y : BitVec 10) (top : 40 ≤ y.toNat) (bottom : y.toNat < 440) :
    ((lower (marioBlockY y)).toNat : Int) = 3 * (((y.toNat : Int) - 40) / 40) := by
  simp only [lower_toNat, marioBlockY, gridIndex, BitVec.toNat_udiv, BitVec.toNat_sub,
    BitVec.toNat_ofNat, Nat.reducePow, Nat.reduceMod]
  omega

theorem marioBlockUp_row (y : BitVec 10) (top : 60 ≤ y.toNat) (bottom : y.toNat < 460) :
    ((lower (marioBlockUp y)).toNat : Int) = 3 * (((y.toNat : Int) - 20 - 40) / 40) := by
  simp only [lower_toNat, marioBlockUp, gridIndex, BitVec.toNat_udiv, BitVec.toNat_sub,
    BitVec.toNat_ofNat, Nat.reducePow, Nat.reduceMod]
  omega

theorem marioBlockDown_row (y : BitVec 10) (top : 40 ≤ y.toNat) (bottom : y.toNat < 421) :
    ((lower (marioBlockDown y)).toNat : Int) = 3 * (((y.toNat : Int) + 19 - 40) / 40) := by
  simp only [lower_toNat, marioBlockDown, BitVec.toNat_udiv, BitVec.toNat_sub, BitVec.toNat_add,
    BitVec.toNat_ofNat, Nat.reducePow, Nat.reduceMod]
  omega

/-- Right below the top of the screen the row index wraps to 25 and its offset to 11. -/
theorem marioBlockUp_wrapped : lower (marioBlockUp 59#10) = 11#5 := rfl

/-- On the ground the probe looks at row 10, behind the last bit of the column. -/
theorem marioBlockDown_ground : lower (marioBlockDown 421#10) = 30#5 := rfl

end Offsets

section Truth

/-- Bits 13:11 of the column under Mario, which is what his upper probe reads from row 25. -/
def HeadField (g : Game) (field : BitVec 3) : Prop :=
  ∃ c : Fin 10, c.val = (marioBlockX g.mario.marioXPos).toNat ∧
    part 3 11 (g.blocks.blockCols c) = field

structure ProbesTruthful (board : Board) (g : Game) : Prop where
  up : Truthful g.blocks.blockCols g.mario.marioXPos.toNat (g.mario.marioYPos.toNat - 20)
    (g.marioPolls board).up
  down : Truthful g.blocks.blockCols g.mario.marioXPos.toNat (g.mario.marioYPos.toNat + 19)
    (g.marioPolls board).down
  left : Truthful g.blocks.blockCols (g.mario.marioXPos.toNat - 20) g.mario.marioYPos.toNat
    (g.marioPolls board).left
  right : Truthful g.blocks.blockCols (g.mario.marioXPos.toNat + 20) g.mario.marioYPos.toNat
    (g.marioPolls board).right
  goombaLeft : g.goomba.isAlive = true →
    Truthful g.blocks.blockCols (g.goomba.goombaXPos.toNat - 19) g.goomba.goombaYPos.toNat
      (g.goombaPolls board).left
  goombaRight : g.goomba.isAlive = true →
    Truthful g.blocks.blockCols (g.goomba.goombaXPos.toNat + 18) g.goomba.goombaYPos.toNat
      (g.goombaPolls board).right

/-- Mario is not at the one height where a row index wraps, or the bits it selects there
are clear; and the selects that leave `blockCols` read as empty. -/
structure ProbesClear (board : Board) (g : Game) : Prop where
  head : g.mario.marioYPos = 59#10 → HeadField g 0#3
  down : OutsideClear board g.blocks.blockCols (marioBlockX g.mario.marioXPos)
    (lower (marioBlockDown g.mario.marioYPos))
  left : OutsideClear board g.blocks.blockCols (marioBlockLeft g.mario.marioXPos)
    (lower (marioBlockY g.mario.marioYPos))
  goombaLeft : g.goomba.isAlive = true → OutsideClear board g.blocks.blockCols
    (goombaBlockLeft g.goomba.goombaXPos) (lower (goombaBlockY g.goomba.goombaYPos))
  goombaRight : g.goomba.isAlive = true → OutsideClear board g.blocks.blockCols
    (goombaBlockRight g.goomba.goombaXPos) (lower (goombaBlockY g.goomba.goombaYPos))

variable (board : Board) (g : Game)

theorem marioBlockX_lt (band : g.mario.InBand) :
    (marioBlockX g.mario.marioXPos).toNat < 10 := by
  have low := band.left
  have high := band.right
  have position := (marioBlockX_tracks g.mario.marioXPos).1 (by omega) (by omega)
  omega

theorem up_wrapped (band : g.mario.InBand) (height : g.mario.marioYPos = 59#10) :
    HeadField g (g.marioPolls board).up := by
  have column := marioBlockX_lt g band
  have inside : InRange (marioBlockX g.mario.marioXPos) 11#5 := ⟨column, by decide⟩
  refine ⟨⟨_, column⟩, rfl, ?_⟩
  rw [Game.marioPolls, BlockArray.marioPolls, height, marioBlockUp_wrapped,
    select_of_inRange board _ inside]
  rfl

theorem headField_unique {first second : BitVec 3} (left : HeadField g first)
    (right : HeadField g second) : first = second := by
  rcases left with ⟨c, hc, rfl⟩
  rcases right with ⟨c', hc', rfl⟩
  obtain rfl : c = c' := Fin.ext (hc.trans hc'.symm)
  rfl

theorem up_truthful_iff (band : g.mario.InBand) :
    Truthful g.blocks.blockCols g.mario.marioXPos.toNat (g.mario.marioYPos.toNat - 20)
        (g.marioPolls board).up ↔
      (g.mario.marioYPos = 59#10 → HeadField g 0#3) := by
  have top := band.top
  have bottom := band.bottom
  by_cases height : g.mario.marioYPos = 59#10
  · have outside : ¬ ∃ c r, Covers c r g.mario.marioXPos.toNat
        ((g.mario.marioYPos.toNat : Int) - 20) := by
      intro cell
      rcases cell with ⟨c, r, covers⟩
      simp only [Covers, height, BitVec.toNat_ofNat] at covers
      omega
    have field := up_wrapped board g band height
    rw [truthful_of_outside outside]
    constructor
    · intro zero _
      rwa [zero] at field
    · intro clear
      exact headField_unique g field (clear height)
  · have low := band.low_of_ne height
    have column := marioBlockX_lt g band
    have row := marioBlockUp_row g.mario.marioYPos (by omega) (by omega)
    rw [Game.marioPolls, BlockArray.marioPolls, select_truthful_iff board _ _ _ _ _
      (marioBlockX_tracks _) (by omega) (by omega) row]
    have inside : InRange (marioBlockX g.mario.marioXPos)
        (lower (marioBlockUp g.mario.marioYPos)) := ⟨column, by omega⟩
    exact ⟨fun _ absurd => (height absurd).elim, fun _ outside => absurd inside outside⟩

theorem down_truthful_iff (band : g.mario.InBand) :
    Truthful g.blocks.blockCols g.mario.marioXPos.toNat (g.mario.marioYPos.toNat + 19)
        (g.marioPolls board).down ↔
      OutsideClear board g.blocks.blockCols (marioBlockX g.mario.marioXPos)
        (lower (marioBlockDown g.mario.marioYPos)) := by
  have top := band.top
  have bottom := band.bottom
  by_cases ground : g.mario.marioYPos = 421#10
  · have nothing : ¬ ∃ c r, Covers c r g.mario.marioXPos.toNat
        ((g.mario.marioYPos.toNat : Int) + 19) := by
      intro cell
      rcases cell with ⟨c, r, covers⟩
      simp only [Covers, ground, BitVec.toNat_ofNat] at covers
      omega
    have outside : ¬ InRange (marioBlockX g.mario.marioXPos)
        (lower (marioBlockDown g.mario.marioYPos)) := by
      rw [ground, marioBlockDown_ground]
      intro inside
      apply absurd inside.2
      decide
    rw [truthful_of_outside nothing, Game.marioPolls, BlockArray.marioPolls,
      select_of_outside board _ outside]
    exact ⟨fun zero _ => zero, fun clear => clear outside⟩
  · have high : g.mario.marioYPos.toNat < 421 := by
      have other : g.mario.marioYPos.toNat ≠ 421 := by
        intro equal
        exact ground (BitVec.eq_of_toNat_eq equal)
      omega
    apply select_truthful_iff
    · exact marioBlockX_tracks _
    · omega
    · omega
    · exact marioBlockDown_row g.mario.marioYPos (by omega) high

theorem left_truthful_iff (band : g.mario.InBand) :
    Truthful g.blocks.blockCols (g.mario.marioXPos.toNat - 20) g.mario.marioYPos.toNat
        (g.marioPolls board).left ↔
      OutsideClear board g.blocks.blockCols (marioBlockLeft g.mario.marioXPos)
        (lower (marioBlockY g.mario.marioYPos)) := by
  have top := band.top
  have bottom := band.bottom
  apply select_truthful_iff
  · exact marioBlockLeft_tracks _
  · omega
  · omega
  · exact marioBlockY_row g.mario.marioYPos (by omega) (by omega)

theorem right_truthful (band : g.mario.InBand) :
    Truthful g.blocks.blockCols (g.mario.marioXPos.toNat + 20) g.mario.marioYPos.toNat
        (g.marioPolls board).right := by
  have top := band.top
  have bottom := band.bottom
  have near := band.left
  have far := band.right
  have tracks := marioBlockRight_tracks g.mario.marioXPos
  have row := marioBlockY_row g.mario.marioYPos (by omega) (by omega)
  have inside : InRange (marioBlockRight g.mario.marioXPos)
      (lower (marioBlockY g.mario.marioYPos)) := by
    have position := tracks.1 (by omega) (by omega)
    exact ⟨by omega, by omega⟩
  apply (select_truthful_iff board _ _ _ _ _ tracks (by omega) (by omega) row).mpr
  intro outside
  exact absurd inside outside

theorem goomba_row (band : g.goomba.InBand) (alive : g.goomba.isAlive = true) :
    (g.goomba.goombaYPos.toNat : Int) = 420 ∧
      ((lower (goombaBlockY g.goomba.goombaYPos)).toNat : Int) =
        3 * (((g.goomba.goombaYPos.toNat : Int) - 40) / 40) := by
  rw [band.yPos alive]
  exact ⟨rfl, rfl⟩

theorem goombaLeft_truthful_iff (band : g.goomba.InBand) (alive : g.goomba.isAlive = true) :
    Truthful g.blocks.blockCols (g.goomba.goombaXPos.toNat - 19) g.goomba.goombaYPos.toNat
        (g.goombaPolls board).left ↔
      OutsideClear board g.blocks.blockCols (goombaBlockLeft g.goomba.goombaXPos)
        (lower (goombaBlockY g.goomba.goombaYPos)) := by
  rcases goomba_row g band alive with ⟨height, row⟩
  apply select_truthful_iff
  · exact goombaBlockLeft_tracks _
  · omega
  · omega
  · exact row

theorem goombaRight_truthful_iff (band : g.goomba.InBand) (alive : g.goomba.isAlive = true) :
    Truthful g.blocks.blockCols (g.goomba.goombaXPos.toNat + 18) g.goomba.goombaYPos.toNat
        (g.goombaPolls board).right ↔
      OutsideClear board g.blocks.blockCols (goombaBlockRight g.goomba.goombaXPos)
        (lower (goombaBlockY g.goomba.goombaYPos)) := by
  rcases goomba_row g band alive with ⟨height, row⟩
  apply select_truthful_iff
  · exact goombaBlockRight_tracks _
  · omega
  · omega
  · exact row

theorem probesTruthful_iff (mario : g.mario.InBand) (goomba : g.goomba.InBand) :
    ProbesTruthful board g ↔ ProbesClear board g := by
  constructor
  · intro truthful
    exact ⟨(up_truthful_iff board g mario).mp truthful.up,
      (down_truthful_iff board g mario).mp truthful.down,
      (left_truthful_iff board g mario).mp truthful.left,
      fun alive => (goombaLeft_truthful_iff board g goomba alive).mp (truthful.goombaLeft alive),
      fun alive => (goombaRight_truthful_iff board g goomba alive).mp (truthful.goombaRight alive)⟩
  · intro clear
    exact ⟨(up_truthful_iff board g mario).mpr clear.head,
      (down_truthful_iff board g mario).mpr clear.down,
      (left_truthful_iff board g mario).mpr clear.left, right_truthful board g mario,
      fun alive => (goombaLeft_truthful_iff board g goomba alive).mpr (clear.goombaLeft alive),
      fun alive => (goombaRight_truthful_iff board g goomba alive).mpr (clear.goombaRight alive)⟩

end Truth

section Removal

/-- The window changes in at most the cell at Mario's head, from a breakable brick to air. -/
def RemovesHeadBrick (before after : Game) : Prop :=
  ∀ c r, cellId after.blocks.blockCols c r = cellId before.blocks.blockCols c r ∨
    (Covers c r before.mario.marioXPos.toNat (before.mario.marioYPos.toNat - 20) ∧
      cellId before.blocks.blockCols c r = 0b010#3 ∧ cellId after.blocks.blockCols c r = 0b000#3)

variable (board : Board) (pulses : Pulses) (input : Input) (g : Game)

theorem removesHeadBrick_of_kept (after : Game)
    (kept : after.blocks.blockCols = g.blocks.blockCols) : RemovesHeadBrick g after := by
  intro c r
  left
  rw [kept]

theorem step_blockCols_still (reset : g.resetH = false)
    (still : g.mario.shift pulses.mario = false) :
    (g.step board pulses input).blocks.blockCols =
      if (g.marioPolls board).up = 0b010#3 then
        remove g.blocks.blockCols (marioBlockX g.mario.marioXPos)
          (lower (marioBlockUp g.mario.marioYPos))
      else g.blocks.blockCols := by
  rw [step_blocks, reset, still]
  by_cases brick : (g.marioPolls board).up = 0b010#3
  · rw [if_pos brick]
    exact congrArg BlockArray.blockCols (if_pos brick)
  · rw [if_neg brick]
    exact congrArg BlockArray.blockCols (if_neg brick)

theorem removesHeadBrick_aligned (band : g.mario.InBand) (reset : g.resetH = false)
    (still : g.mario.shift pulses.mario = false) (low : 61 ≤ g.mario.marioYPos.toNat) :
    RemovesHeadBrick g (g.step board pulses input) := by
  have bottom := band.bottom
  have near := band.left
  have far := band.right
  have columns := step_blockCols_still board pulses input g reset still
  by_cases brick : (g.marioPolls board).up = 0b010#3
  swap
  · rw [if_neg brick] at columns
    exact removesHeadBrick_of_kept g _ columns
  rw [if_pos brick] at columns
  have column := marioBlockX_lt g band
  have position := (marioBlockX_tracks g.mario.marioXPos).1 (by omega) (by omega)
  have row := marioBlockUp_row g.mario.marioYPos (by omega) (by omega)
  have inside : InRange (marioBlockX g.mario.marioXPos)
      (lower (marioBlockUp g.mario.marioYPos)) := ⟨column, by omega⟩
  have probed : part 3 (lower (marioBlockUp g.mario.marioYPos)).toNat
      (g.blocks.blockCols ⟨_, column⟩) = 0b010#3 := by
    rw [← brick, Game.marioPolls, BlockArray.marioPolls, select_of_inRange board _ inside]
  intro c r
  simp only [cellId, columns, remove]
  by_cases sameColumn : c.val = (marioBlockX g.mario.marioXPos).toNat
  swap
  · rw [if_neg sameColumn]
    exact Or.inl rfl
  rw [if_pos sameColumn]
  obtain rfl : c = ⟨_, column⟩ := Fin.ext sameColumn
  by_cases sameRow : 3 * r.val = (lower (marioBlockUp g.mario.marioYPos)).toNat
  · rw [sameRow]
    refine Or.inr ⟨?_, probed, part_clearPart_same _ _ _⟩
    simp only [Covers]
    omega
  · left
    apply part_clearPart_disjoint
    omega

/-- At height 59 a match of 010 is not aligned to a cell: it breaks row 4. -/
theorem not_removesHeadBrick_wrapped (band : g.mario.InBand) (reset : g.resetH = false)
    (still : g.mario.shift pulses.mario = false) (height : g.mario.marioYPos = 59#10)
    (field : HeadField g 0b010#3) : ¬ RemovesHeadBrick g (g.step board pulses input) := by
  intro removes
  have brick := headField_unique g (up_wrapped board g band height) field
  have columns := step_blockCols_still board pulses input g reset still
  rw [if_pos brick, height, marioBlockUp_wrapped] at columns
  rcases field with ⟨c, hc, bits⟩
  have set : (g.blocks.blockCols c).getLsbD 12 = true := by
    have bit := congrArg (fun v => v.getLsbD 1) bits
    simp only [part_getLsbD] at bit
    exact bit
  rcases removes c 4 with same | ⟨covers, -⟩
  · have bit := congrArg (fun v => v.getLsbD 0) same
    simp only [cellId, columns, remove, if_pos hc, part_getLsbD, clearPart_getLsbD] at bit
    have offset : 3 * (4 : Fin 10).val + 0 = 12 := rfl
    rw [offset, set] at bit
    simp at bit
  · simp only [Covers, height, BitVec.toNat_ofNat] at covers
    have four : (4 : Fin 10).val = 4 := rfl
    omega

theorem removesHeadBrick_iff (band : g.mario.InBand) (reset : g.resetH = false)
    (still : g.mario.shift pulses.mario = false) :
    RemovesHeadBrick g (g.step board pulses input) ↔
      ¬ (g.mario.marioYPos = 59#10 ∧ HeadField g 0b010#3) := by
  constructor
  · intro removes wrapped
    rcases wrapped with ⟨height, field⟩
    exact not_removesHeadBrick_wrapped board pulses input g band reset still height field removes
  · intro clear
    by_cases height : g.mario.marioYPos = 59#10
    · have columns := step_blockCols_still board pulses input g reset still
      have other : ¬ (g.marioPolls board).up = 0b010#3 := by
        intro brick
        have field := up_wrapped board g band height
        rw [brick] at field
        exact clear ⟨height, field⟩
      rw [if_neg other] at columns
      exact removesHeadBrick_of_kept g _ columns
    · have low := band.low_of_ne height
      exact removesHeadBrick_aligned board pulses input g band reset still low

end Removal

section Climb

/-- Column 11 holds two boxes to climb on, column 12 the bits 010 across rows 3 and 4. -/
def climbBoard : Board where
  levelMem address :=
    if address = 11#8 then 0x40040#36 else if address = 12#8 then 0x1000#36 else 0#36
  outside _ _ _ := 0#3

def climbKeys : List (BitVec 8) :=
  List.replicate 216 0x07#8 ++ 0x1A#8 :: List.replicate 70 0#8 ++ List.replicate 6 0x07#8 ++
    List.replicate 33 0#8 ++ List.replicate 18 0x07#8 ++ 0x1A#8 :: List.replicate 40 0#8 ++
    List.replicate 3 0x07#8 ++ 0#8 :: 0x1A#8 :: List.replicate 61 0#8

def AtWrappedHead (g : Game) : Prop :=
  g.mario.marioYPos = 59#10 ∧ HeadField g 0b010#3

instance (g : Game) : Decidable (AtWrappedHead g) :=
  inferInstanceAs (Decidable (_ ∧ ∃ _ : Fin 10, _ ∧ _))

set_option maxRecDepth 100000 in
theorem climb_played : playHeld climbBoard (fun g =>
    decide (AtWrappedHead (g.step climbBoard (Pulses.all true) ⟨true, 0#8⟩))) climbKeys =
      true := by
  decide +kernel

def climbed : Toplevel := afterScript climbBoard climbKeys 1

theorem climbed_head : climbed.game.mario.marioYPos = 59#10 ∧ HeadField climbed.game 0b010#3 ∧
    climbed.game.resetH = false ∧ climbed.shift = false := by
  rcases playHeld_sound climbBoard _ climbKeys climb_played with ⟨-, -, passed⟩
  rcases afterScript_one climbBoard _ climbKeys climb_played with ⟨game, reset, shift⟩
  have wrapped := of_decide_eq_true passed
  rw [← game] at wrapped
  exact ⟨wrapped.1, wrapped.2, reset, shift⟩

end Climb

section Runs

variable (board : Board) (start : Toplevel) (inputs : Nat → Input)

/-- In every state of every run from Reset the probes tell the truth exactly when the state
is clear. -/
theorem probes_truthful_iff (reset : start.game.resetH = true) (n : Nat) :
    ProbesTruthful board (sinceReset board start inputs n).game ↔
      ProbesClear board (sinceReset board start inputs n).game :=
  probesTruthful_iff board _ (run_inBand board start inputs reset n)
    (run_goomba_inBand board start inputs reset n)

theorem probes_truthful_iff_climbed :
    ProbesTruthful climbBoard climbed.game ↔ ProbesClear climbBoard climbed.game :=
  probes_truthful_iff climbBoard (Toplevel.held climbBoard) (scriptInputs climbKeys) rfl _

/-- The upper probe reports a brick where there is no cell. -/
theorem climbed_not_truthful : ¬ ProbesTruthful climbBoard climbed.game := by
  intro truthful
  rcases climbed_head with ⟨height, field, -, -⟩
  have band := run_inBand climbBoard (Toplevel.held climbBoard) (scriptInputs climbKeys) rfl
    (scriptEnd climbKeys + 1)
  have clear := (up_truthful_iff climbBoard climbed.game band).mp truthful.up height
  have same := headField_unique climbed.game field clear
  apply absurd same
  decide

/-- In every run from Reset, a cycle without Reset and scroll removes the brick at Mario's
head and nothing else, unless he is at height 59 under bits 010. -/
theorem brick_removal_iff (reset : start.game.resetH = true) (n : Nat)
    (running : (sinceReset board start inputs n).game.resetH = false)
    (still : (sinceReset board start inputs n).shift = false) :
    RemovesHeadBrick (sinceReset board start inputs n).game
        (sinceReset board start inputs (n + 1)).game ↔
      ¬ ((sinceReset board start inputs n).game.mario.marioYPos = 59#10 ∧
        HeadField (sinceReset board start inputs n).game 0b010#3) :=
  removesHeadBrick_iff board _ _ _ (run_inBand board start inputs reset n) running still

theorem brick_removal_iff_climbed :
    RemovesHeadBrick climbed.game
        (climbed.step climbBoard (scriptInputs climbKeys (scriptEnd climbKeys + 2))).game ↔
      ¬ (climbed.game.mario.marioYPos = 59#10 ∧ HeadField climbed.game 0b010#3) :=
  brick_removal_iff climbBoard (Toplevel.held climbBoard) (scriptInputs climbKeys) rfl
    (scriptEnd climbKeys + 1) climbed_head.2.2.1 climbed_head.2.2.2

/-- The write breaks a field of row 4, three rows below Mario's head. -/
theorem climbed_breaks_row : climbed.game.resetH = false ∧ climbed.shift = false ∧
    ¬ RemovesHeadBrick climbed.game
      (climbed.step climbBoard (scriptInputs climbKeys (scriptEnd climbKeys + 2))).game := by
  rcases climbed_head with ⟨height, field, reset, shift⟩
  have band := run_inBand climbBoard (Toplevel.held climbBoard) (scriptInputs climbKeys) rfl
    (scriptEnd climbKeys + 1)
  exact ⟨reset, shift, not_removesHeadBrick_wrapped climbBoard _ _ climbed.game band reset shift
    height field⟩

end Runs

end FPGAMario
