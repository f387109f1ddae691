import FPGAMario.Clipping
import FPGAMario.ColorMapper
import Mathlib.Algebra.Order.Ring.Int
import Mathlib.Tactic.Linarith

/-! The picture on the screen: which object every pixel belongs to, and that the address
computed for it is the pixel of that object's tile. -/

namespace FPGAMario

open Hdl Game BlockArray

section Addresses

def Tile.OnSheet (t : Tile) : Prop := t.ssXPos.toNat < 5 ∧ t.ssYPos.toNat < 5

instance (t : Tile) : Decidable t.OnSheet := inferInstanceAs (Decidable (_ ∧ _))

namespace ColorMapper

theorem marioTile_onSheet (isJumping direction : Bool) (runCounter : BitVec 2) :
    (marioTile isJumping direction runCounter).OnSheet := by
  revert isJumping direction runCounter
  decide

theorem goombaTile_onSheet (goombaSprite : Bool) : (goombaTile goombaSprite).OnSheet := by
  revert goombaSprite
  decide

theorem blockTile_onSheet (blockID : BitVec 3) : (blockTile blockID).OnSheet := by
  revert blockID
  decide

theorem Sprite.address_toNat (s : Sprite) : s.address.toNat =
    8000 * s.tile.ssYPos.toNat + 40 * s.tile.ssXPos.toNat + s.pixelX.toNat % 40 +
      200 * (s.pixelY.toNat % 40) := by
  have row := s.tile.ssYPos.isLt
  have column := s.tile.ssXPos.isLt
  have right := s.pixelX.isLt
  have below := s.pixelY.isLt
  have x := Nat.mod_lt s.pixelX.toNat (show 0 < 40 by decide)
  have y := Nat.mod_lt s.pixelY.toNat (show 0 < 40 by decide)
  simp only [address, ssWidth, spriteLength, BitVec.toNat_add, BitVec.toNat_mul,
    BitVec.toNat_umod, BitVec.toNat_setWidth, BitVec.toNat_ofNat, Nat.reducePow, Nat.reduceMul,
    Nat.reduceMod] at *
  rw [Nat.mod_eq_of_lt (show s.pixelX.toNat < 65536 by omega),
    Nat.mod_eq_of_lt (show s.pixelY.toNat < 65536 by omega)]
  omega

end ColorMapper

structure Tile.Holds (t : Tile) (lx ly : Nat) (address : BitVec 16) : Prop where
  left : lx < 40
  top : ly < 40
  value : address.toNat = 8000 * t.ssYPos.toNat + 40 * t.ssXPos.toNat + lx + 200 * ly

theorem Tile.Holds.inTile {t : Tile} {lx ly : Nat} {address : BitVec 16}
    (holds : t.Holds lx ly address) (sheet : t.OnSheet) :
    address.toNat < 40000 ∧ address.toNat % 200 / 40 = t.ssXPos.toNat ∧
      address.toNat / 200 / 40 = t.ssYPos.toNat := by
  have left := holds.left
  have top := holds.top
  have column := sheet.1
  have row := sheet.2
  rw [holds.value]
  omega

end Addresses

section Objects

def InBox (centreX centreY px py : Int) : Prop :=
  centreX - 20 ≤ px ∧ px < centreX + 20 ∧ centreY - 20 ≤ py ∧ py < centreY + 20

def OffsetIn (centreX centreY px py : Int) (lx ly : Nat) : Prop :=
  (lx : Int) = px - (centreX - 20) ∧ (ly : Int) = py - (centreY - 20)

theorem InBox.exists_offset {centreX centreY px py : Int} (box : InBox centreX centreY px py) :
    ∃ lx ly : Nat, lx < 40 ∧ ly < 40 ∧ OffsetIn centreX centreY px py lx ly := by
  rcases box with ⟨left, right, top, bottom⟩
  refine ⟨(px - (centreX - 20)).toNat, (py - (centreY - 20)).toNat, ?_, ?_, ?_, ?_⟩ <;> omega

structure InField (px py : Int) : Prop where
  left : 120 ≤ px
  right : px < 520
  top : 40 ≤ py
  bottom : py < 440

namespace Game

def OnMario (g : Game) (px py : Int) : Prop :=
  InBox g.mario.marioXPos.toNat g.mario.marioYPos.toNat px py

def OnGoomba (g : Game) (px py : Int) : Prop :=
  g.goomba.isAlive = true ∧ InBox g.goomba.goombaXPos.toNat g.goomba.goombaYPos.toNat px py

def OnCoin (g : Game) (i : Fin 4) (px py : Int) : Prop :=
  (g.coins i).isRunning = true ∧
    (px - (g.coins i).coinXPos.toNat) * (px - (g.coins i).coinXPos.toNat) +
      (py - (g.coins i).coinYPos.toNat) * (py - (g.coins i).coinYPos.toNat) ≤ 19 * 19

/-- What the state shows at a pixel: a tile, and a pixel of it. The rule says in which order the
objects cover each other. -/
inductive Shows (g : Game) (px py : Int) : Tile → Nat → Nat → Prop
  | border {lx ly : Nat} (outside : px < 120 ∨ 520 ≤ px ∨ py < 40) :
      Shows g px py ⟨0#3, 4#3⟩ lx ly
  | floor {lx ly : Nat} (across : 120 ≤ px ∧ px < 520) (below : 440 ≤ py) :
      Shows g px py ⟨2#3, 3#3⟩ lx ly
  | mario {lx ly : Nat} (field : InField px py) (on : g.OnMario px py)
      (offset : OffsetIn g.mario.marioXPos.toNat g.mario.marioYPos.toNat px py lx ly) :
      Shows g px py
        (ColorMapper.marioTile g.mario.isJumping g.mario.direction g.mario.runCounter) lx ly
  | goomba {lx ly : Nat} (field : InField px py) (noMario : ¬ g.OnMario px py)
      (on : g.OnGoomba px py)
      (offset : OffsetIn g.goomba.goombaXPos.toNat g.goomba.goombaYPos.toNat px py lx ly) :
      Shows g px py (ColorMapper.goombaTile g.goomba.goombaSprite) lx ly
  | coin {lx ly : Nat} (field : InField px py) (noMario : ¬ g.OnMario px py)
      (noGoomba : ¬ g.OnGoomba px py) (on : ∃ i, g.OnCoin i px py)
      (offset : ∀ i, g.OnCoin i px py →
        OffsetIn (g.coins i).coinXPos.toNat (g.coins i).coinYPos.toNat px py lx ly) :
      Shows g px py ⟨0#3, 3#3⟩ lx ly
  | block {lx ly : Nat} {c r : Fin 10} (noMario : ¬ g.OnMario px py)
      (noGoomba : ¬ g.OnGoomba px py) (noCoin : ¬ ∃ i, g.OnCoin i px py)
      (covers : Covers c r px py)
      (offset : (lx : Int) = px - (120 + 40 * c.val) ∧ (ly : Int) = py - (40 + 40 * r.val)) :
      Shows g px py (ColorMapper.blockTile (cellId g.blocks.blockCols c r)) lx ly

theorem Shows.onSheet {g : Game} {px py : Int} {t : Tile} {lx ly : Nat}
    (shown : g.Shows px py t lx ly) : t.OnSheet := by
  cases shown with
  | border outside => decide
  | floor across below => decide
  | mario field on offset => exact ColorMapper.marioTile_onSheet ..
  | goomba field noMario on offset => exact ColorMapper.goombaTile_onSheet ..
  | coin field noMario noGoomba on offset => decide
  | block noMario noGoomba noCoin covers offset => exact ColorMapper.blockTile_onSheet ..

end Game

end Objects

section Code

/-- The extra `4` makes up for the wrap of the subtraction: `880` and `960` are multiples of
forty. -/
theorem boxOffset_x {draw centre : BitVec 10} {l : Nat} (inside : l < 40)
    (offset : (l : Int) = draw.toNat - ((centre.toNat : Int) - 20)) :
    (draw - 120#10 - centre - 4#10).toNat % 40 = l := by
  have position : (draw - 120#10 - centre - 4#10).toNat = 880 + l := by bv_omega
  omega

theorem boxOffset_y {draw centre : BitVec 10} {l : Nat} (inside : l < 40)
    (offset : (l : Int) = draw.toNat - ((centre.toNat : Int) - 20)) :
    (draw - 40#10 - centre - 4#10).toNat % 40 = l := by
  have position : (draw - 40#10 - centre - 4#10).toNat = 960 + l := by bv_omega
  omega

variable {board : Board} {g : Game} {x y : BitVec 10}

theorem isMario_iff (band : g.mario.InBand) :
    g.mario.IsMario x y ↔ g.OnMario x.toNat y.toNat := by
  have left := band.left
  have right := band.right
  have top := band.top
  have bottom := band.bottom
  simp only [Mario.IsMario, Game.OnMario, InBox]
  bv_omega

/-- At the right edge of its band the goomba's box wraps, but behind the border. -/
theorem drawIsGoomba_iff (band : g.goomba.InBand) (field : x.toNat < 520) :
    g.goomba.DrawIsGoomba x y ↔ g.OnGoomba x.toNat y.toNat := by
  simp only [Goomba.DrawIsGoomba, Game.OnGoomba, InBox]
  apply and_congr_right
  intro alive
  have left := band.left alive
  have right := band.right alive
  rw [band.yPos alive]
  bv_omega

theorem isCoin_iff (i : Fin 4) : (g.coins i).IsCoin x y ↔ g.OnCoin i x.toNat y.toNat := by
  rw [Coin.IsCoin, Game.OnCoin, and_comm]
  rfl

/-- While it runs, the box around the coin is a cell of the grid or the one left of it. -/
structure Coin.OnGrid (c : Coin) : Prop where
  column : c.isRunning = true → c.coinXPos.toNat % 40 = 20
  left : c.isRunning = true → 100 ≤ c.coinXPos.toNat
  row : c.isRunning = true → c.coinYPos.toNat % 40 = 20
  top : c.isRunning = true → 140 ≤ c.coinYPos.toNat

theorem Coin.onGrid_of_stopped {c : Coin} (stopped : c.isRunning = false) : c.OnGrid := by
  constructor <;> intro runs
  all_goals
    rw [stopped] at runs
    cases runs

theorem Coin.startValue_onGrid (block : BitVec 2) : (startValue block).OnGrid := by
  constructor <;> intro _
  case row =>
    revert block
    decide
  case top =>
    revert block
    decide
  case column =>
    change 500 % 40 = 20
    rfl
  case left =>
    change 100 ≤ 500
    omega

theorem Coin.step_onGrid (reset start pulse shift : Bool) (marioX marioY : BitVec 10)
    (block : BitVec 2) (c : Coin) (grid : c.OnGrid) :
    (c.step reset start pulse shift marioX marioY block).OnGrid := by
  unfold step
  split
  · exact onGrid_of_stopped rfl
  split
  · exact startValue_onGrid block
  split
  · exact onGrid_of_stopped rfl
  by_cases runs : c.isRunning = true
  swap
  · apply onGrid_of_stopped
    simp [runs]
  have column := grid.column runs
  have left := grid.left runs
  have moved : (if pulse = true ∧ coinXMin ≤ c.coinXPos ∧ shift = true then c.coinXPos - 40#10
      else c.coinXPos).toNat % 40 = 20 ∧
      100 ≤ (if pulse = true ∧ coinXMin ≤ c.coinXPos ∧ shift = true then c.coinXPos - 40#10
        else c.coinXPos).toNat := by
    split
    · next scrolls =>
        have inside : 120 ≤ c.coinXPos.toNat := scrolls.2.1
        have position : (c.coinXPos - 40#10).toNat = c.coinXPos.toNat - 40 := by bv_omega
        rw [position]
        omega
    · exact ⟨column, left⟩
  exact ⟨fun _ => moved.1, fun _ => moved.2, fun _ => grid.row runs, fun _ => grid.top runs⟩

theorem disc_in_box {dx dy : Int} (disc : dx * dx + dy * dy ≤ 19 * 19) :
    -19 ≤ dx ∧ dx ≤ 19 ∧ -19 ≤ dy ∧ dy ≤ 19 := by
  have width := mul_self_nonneg dx
  have height := mul_self_nonneg dy
  refine ⟨?_, ?_, ?_, ?_⟩ <;> nlinarith

/-- The coins reuse the offset of the blocks, and so they may: their boxes are cells of the
grid. -/
theorem coin_offset (i : Fin 4) (grid : (g.coins i).OnGrid) (field : InField x.toNat y.toNat)
    (on : g.OnCoin i x.toNat y.toNat) :
    OffsetIn (g.coins i).coinXPos.toNat (g.coins i).coinYPos.toNat x.toNat y.toNat
      ((x - 120#10).toNat % 40) ((y - 40#10).toNat % 40) := by
  rcases on with ⟨runs, disc⟩
  have box := disc_in_box disc
  have column := grid.column runs
  have row := grid.row runs
  have left := grid.left runs
  have top := grid.top runs
  have xField := field.left
  have yField := field.top
  have across : (x - 120#10).toNat = x.toNat - 120 := by bv_omega
  have down : (y - 40#10).toNat = y.toNat - 40 := by bv_omega
  rw [OffsetIn, across, down]
  omega

/-- Inside the play field the drawn block is the cell at the pixel, for every board. -/
theorem blockIdOut_eq {c r : Fin 10} (covers : Covers c r x.toNat y.toNat) :
    g.blocks.blockIdOut board x y = cellId g.blocks.blockCols c r := by
  have rows := covers.2.2
  exact select_eq_cellId board (marioBlockX_tracks x) covers
    (marioBlockY_row y (by omega) (by omega))

theorem cell_offset {c r : Fin 10} (covers : Covers c r x.toNat y.toNat) :
    (((x - 120#10).toNat % 40 : Nat) : Int) = x.toNat - (120 + 40 * c.val) ∧
      (((y - 40#10).toNat % 40 : Nat) : Int) = y.toNat - (40 + 40 * r.val) := by
  rcases covers with ⟨left, right, top, bottom⟩
  have across : (x - 120#10).toNat = x.toNat - 120 := by bv_omega
  have down : (y - 40#10).toNat = y.toNat - 40 := by bv_omega
  rw [across, down]
  omega

theorem exists_covers (field : InField x.toNat y.toNat) :
    ∃ c r : Fin 10, Covers c r x.toNat y.toNat := by
  have left := field.left
  have right := field.right
  have top := field.top
  have bottom := field.bottom
  refine ⟨⟨(x.toNat - 120) / 40, by omega⟩, ⟨(y.toNat - 40) / 40, by omega⟩, ?_⟩
  simp only [Covers]
  omega

end Code

section Address

variable (board : Board) (g : Game) (x y : BitVec 10)

theorem Game.holds_of_sprite {t : Tile} {pixelX pixelY : BitVec 10} {lx ly : Nat}
    (shown : (g.colorMapper board x y).sprite = ⟨t, pixelX, pixelY⟩)
    (left : pixelX.toNat % 40 = lx) (top : pixelY.toNat % 40 = ly) :
    t.Holds lx ly (g.pixelAddress board x y) := by
  constructor
  · rw [← left]
    exact Nat.mod_lt _ (by decide)
  · rw [← top]
    exact Nat.mod_lt _ (by decide)
  · rw [Game.pixelAddress, ColorMapper.pixelAddress, shown, ColorMapper.Sprite.address_toNat, left, top]

theorem inField_iff : InField x.toNat y.toNat ↔
    ¬ (g.colorMapper board x y).Bordered ∧ ¬ 440#10 ≤ (g.colorMapper board x y).drawY := by
  change _ ↔ ¬ (x < 120#10 ∨ 520#10 ≤ x ∨ y < 40#10) ∧ ¬ 440#10 ≤ y
  constructor
  · intro field
    have left := field.left
    have right := field.right
    have top := field.top
    have bottom := field.bottom
    bv_omega
  · intro inside
    constructor <;> bv_omega

theorem Game.shows_field (mario : g.mario.InBand) (goomba : g.goomba.InBand)
    (coins : ∀ i, (g.coins i).OnGrid) (field : InField x.toNat y.toNat) :
    ∃ t lx ly, g.Shows x.toNat y.toNat t lx ly ∧ t.Holds lx ly (g.pixelAddress board x y) := by
  rcases (inField_iff board g x y).mp field with ⟨inside, above⟩
  have right := field.right
  have marioBit : (g.colorMapper board x y).isMario = true ↔ g.OnMario x.toNat y.toNat :=
    decide_eq_true_iff.trans (isMario_iff mario)
  have goombaBit : (g.colorMapper board x y).drawIsGoomba = true ↔ g.OnGoomba x.toNat y.toNat :=
    decide_eq_true_iff.trans (drawIsGoomba_iff goomba (by omega))
  have coinBits : (∃ i, (g.colorMapper board x y).isCoin i = true) ↔
      ∃ i, g.OnCoin i x.toNat y.toNat :=
    exists_congr fun i => decide_eq_true_iff.trans (isCoin_iff i)
  by_cases onMario : g.OnMario x.toNat y.toNat
  · rcases onMario.exists_offset with ⟨lx, ly, width, height, offset⟩
    refine ⟨_, lx, ly, .mario field onMario offset, ?_⟩
    apply holds_of_sprite board g x y
    · rw [ColorMapper.sprite, if_neg inside, if_neg above, if_pos (marioBit.mpr onMario)]
      rfl
    · exact boxOffset_x width offset.1
    · exact boxOffset_y height offset.2
  by_cases onGoomba : g.OnGoomba x.toNat y.toNat
  · rcases onGoomba.2.exists_offset with ⟨lx, ly, width, height, offset⟩
    refine ⟨_, lx, ly, .goomba field onMario onGoomba offset, ?_⟩
    apply holds_of_sprite board g x y
    · rw [ColorMapper.sprite, if_neg inside, if_neg above, if_neg (mt marioBit.mp onMario),
        if_pos (goombaBit.mpr onGoomba)]
      rfl
    · exact boxOffset_x width offset.1
    · exact boxOffset_y height offset.2
  by_cases onCoin : ∃ i, g.OnCoin i x.toNat y.toNat
  · refine ⟨_, _, _, .coin field onMario onGoomba onCoin
      (fun i on => coin_offset i (coins i) field on), ?_⟩
    apply holds_of_sprite board g x y
    · rw [ColorMapper.sprite, if_neg inside, if_neg above, if_neg (mt marioBit.mp onMario),
        if_neg (mt goombaBit.mp onGoomba), if_pos (coinBits.mpr onCoin)]
    · rfl
    · rfl
  · rcases exists_covers field with ⟨c, r, covers⟩
    refine ⟨_, _, _, .block onMario onGoomba onCoin covers (cell_offset covers), ?_⟩
    apply holds_of_sprite board g x y
    · rw [ColorMapper.sprite, if_neg inside, if_neg above, if_neg (mt marioBit.mp onMario),
        if_neg (mt goombaBit.mp onGoomba), if_neg (mt coinBits.mp onCoin)]
      rw [Game.colorMapper, blockIdOut_eq covers]
    · rfl
    · rfl

theorem Game.shows_address (mario : g.mario.InBand) (goomba : g.goomba.InBand)
    (coins : ∀ i, (g.coins i).OnGrid) :
    ∃ t lx ly, g.Shows x.toNat y.toNat t lx ly ∧ t.Holds lx ly (g.pixelAddress board x y) := by
  by_cases field : InField x.toNat y.toNat
  · exact shows_field board g x y mario goomba coins field
  have outside := field
  rw [inField_iff board g, not_and_or, not_not, not_not] at outside
  by_cases bordered : (g.colorMapper board x y).Bordered
  · have edges : x < 120#10 ∨ 520#10 ≤ x ∨ y < 40#10 := bordered
    refine ⟨_, (x - 120#10).toNat % 40, (y - 40#10).toNat % 40, .border (by bv_omega), ?_⟩
    apply holds_of_sprite board g x y
    · exact if_pos bordered
    · rfl
    · rfl
  · have edges : ¬ (x < 120#10 ∨ 520#10 ≤ x ∨ y < 40#10) := bordered
    have floor := outside.resolve_left bordered
    have below : 440#10 ≤ y := floor
    refine ⟨_, (x - 120#10).toNat % 40, (y - 40#10).toNat % 40,
      .floor (by bv_omega) (by bv_omega), ?_⟩
    apply holds_of_sprite board g x y
    · rw [ColorMapper.sprite, if_neg bordered, if_pos floor]
    · rfl
    · rfl

/-- No part select outside `blockCols` reaches the screen: the board that would supply its value
does not matter. -/
theorem Game.pixelAddress_board (other : Board) :
    g.pixelAddress other x y = g.pixelAddress board x y := by
  by_cases field : InField x.toNat y.toNat
  · rcases exists_covers field with ⟨c, r, covers⟩
    have same : g.colorMapper other x y = g.colorMapper board x y := by
      rw [Game.colorMapper, Game.colorMapper, blockIdOut_eq covers, blockIdOut_eq covers]
    rw [Game.pixelAddress, Game.pixelAddress, same]
  · have outside := mt (inField_iff board g x y).mpr field
    rw [not_and_or, not_not, not_not] at outside
    rw [Game.pixelAddress, Game.pixelAddress, ColorMapper.pixelAddress, ColorMapper.pixelAddress,
      ColorMapper.sprite, ColorMapper.sprite]
    by_cases bordered : (g.colorMapper board x y).Bordered
    · have again : (g.colorMapper other x y).Bordered := bordered
      rw [if_pos again, if_pos bordered]
      rfl
    · have again : ¬ (g.colorMapper other x y).Bordered := bordered
      have floor := outside.resolve_left bordered
      have below : 440#10 ≤ (g.colorMapper other x y).drawY := floor
      rw [if_neg again, if_pos below, if_neg bordered, if_pos floor]
      rfl

end Address

/-- The address of the pixel is on the sheet and is that of what the state shows there, inside the
tile it belongs to; the selects outside `blockCols` have no part in it. -/
structure Game.PixelDrawn (board : Board) (x y : BitVec 10) (g : Game) : Prop where
  sheet : (g.pixelAddress board x y).toNat < 40000
  shown : ∃ t lx ly, g.Shows x.toNat y.toNat t lx ly ∧ t.Holds lx ly (g.pixelAddress board x y) ∧
    (g.pixelAddress board x y).toNat % 200 / 40 = t.ssXPos.toNat ∧
    (g.pixelAddress board x y).toNat / 200 / 40 = t.ssYPos.toNat
  inside : ∀ other : Board, g.pixelAddress other x y = g.pixelAddress board x y

section Runs

variable (board : Board) (start : Toplevel) (inputs : Nat → Input)

theorem run_onGrid (reset : start.game.resetH = true) (n : Nat) (i : Fin 4) :
    ((sinceReset board start inputs n).game.coins i).OnGrid := by
  apply run_invariant (Toplevel.step board) start inputs (fun s => (s.game.coins i).OnGrid)
  · intro input
    simp only [Toplevel.step, step_coins, reset]
    exact Coin.onGrid_of_stopped rfl
  · intro input s grid
    apply Coin.step_onGrid
    exact grid

theorem picture_drawn (reset : start.game.resetH = true) (n : Nat) (x y : BitVec 10) :
    (sinceReset board start inputs n).game.PixelDrawn board x y := by
  rcases Game.shows_address board (sinceReset board start inputs n).game x y
    (run_inBand board start inputs reset n) (run_goomba_inBand board start inputs reset n)
    (run_onGrid board start inputs reset n) with ⟨t, lx, ly, shown, holds⟩
  rcases holds.inTile shown.onSheet with ⟨sheet, column, row⟩
  exact ⟨sheet, ⟨t, lx, ly, shown, holds, column, row⟩, Game.pixelAddress_board board _ x y⟩

theorem picture_drawn_climbed : climbed.game.PixelDrawn climbBoard 320#10 240#10 :=
  picture_drawn climbBoard (Toplevel.held climbBoard) (scriptInputs climbKeys) rfl
    (scriptEnd climbKeys + 1) 320#10 240#10

end Runs

end FPGAMario
