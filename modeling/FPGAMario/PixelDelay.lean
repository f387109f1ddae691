import FPGAMario.ColorMapper
import FPGAMario.ScanTiming
import FPGAMario.VideoTiming

/-! The colour on the pins against the scan position: the sprite RAM and the palette take two
cycles, which is one pixel. -/

namespace FPGAMario

open Hdl

namespace Screen

variable (board : Board) (spriteSheet : SpriteSheet) (start : Screen) (inputs : Nat → Input)

abbrev run : Nat → Screen := Hdl.run (step board spriteSheet) start inputs

theorem run_toplevel (n : Nat) : (run board spriteSheet start inputs n).toplevel =
    Toplevel.run board start.toplevel inputs n := by
  induction n with
  | zero => rfl
  | succ n ih =>
      rw [run, run_succ, ← run, Toplevel.run, run_succ, ← Toplevel.run, ← ih]
      rfl

/-- The colour that a pixel with this address should have. -/
def colorAt (n : Nat) : Color :=
  palette (spriteSheet ((run board spriteSheet start inputs n).pixelAddress board))

theorem color_lags (n : Nat) : (run board spriteSheet start inputs (n + 2)).registers.color =
    colorAt board spriteSheet start inputs n := rfl

/-- Cycle `n` is the last one of the pixel `(x, y)` of the scan: the edge at its end is one of
`VGA_CLK`, and the sync and blanking outputs are those of the pixel. -/
structure EndsPixel (n : Nat) (x y : Nat) : Prop where
  edge : (run board spriteSheet start inputs n).toplevel.clock.vgaClk = false
  drawX : (run board spriteSheet start inputs n).drawX.toNat = x
  drawY : (run board spriteSheet start inputs n).drawY.toNat = y
  outputs : (run board spriteSheet start inputs n).toplevel.clock.vga.OutputsInPlace

def pixelBefore (x y : Nat) : Nat × Nat :=
  if x = 0 then (799, if y = 0 then 524 else y - 1) else (x - 1, y)

theorem pixelBefore_of_step (v : VgaController) (inside : v.InFrame) :
    (v.hCounter.toNat, v.vCounter.toNat) =
      pixelBefore (v.step false).hCounter.toNat (v.step false).vCounter.toNat := by
  have horizontal := VgaController.hCounterIn_toNat v inside
  have vertical := VgaController.vCounterIn_toNat v inside
  rcases inside with ⟨low, high⟩
  change _ = pixelBefore v.hCounterIn.toNat v.vCounterIn.toNat
  rw [horizontal, vertical, pixelBefore]
  by_cases last : v.hCounter.toNat = 799
  · rw [if_pos last, if_pos last, if_pos rfl]
    by_cases bottom : v.vCounter.toNat = 524
    · rw [if_pos bottom, if_pos rfl, last, bottom]
    · rw [if_neg bottom, if_neg (Nat.succ_ne_zero _), last, Nat.add_sub_cancel]
  · rw [if_neg last, if_neg last, if_neg (Nat.succ_ne_zero _), Nat.add_sub_cancel]

theorem video_two (n : Nat)
    (edge : (run board spriteSheet start inputs n).toplevel.clock.vgaClk = false)
    (running : (run board spriteSheet start inputs n).toplevel.game.resetH = false) :
    (run board spriteSheet start inputs (n + 2)).toplevel.video =
      (run board spriteSheet start inputs n).toplevel.video.step false := by
  rw [run_toplevel] at edge running
  rw [run_toplevel, run_toplevel, Toplevel.run_video, Toplevel.run_vgaClk, edge, Bool.not_false,
    if_pos rfl, Toplevel.run_video, edge, running]
  rfl

/-- At the end of a pixel the pins have the colour of the pixel before, so the pixel is shown
right exactly if the two are of one colour. -/
theorem color_in_step_iff (n x y : Nat)
    (running : (run board spriteSheet start inputs n).toplevel.game.resetH = false)
    (ends : EndsPixel board spriteSheet start inputs (n + 2) x y) :
    (run board spriteSheet start inputs n).toplevel.clock.vgaClk = false ∧
    ((run board spriteSheet start inputs n).toplevel.video.InFrame →
      ((run board spriteSheet start inputs n).drawX.toNat,
        (run board spriteSheet start inputs n).drawY.toNat) = pixelBefore x y) ∧
    ((run board spriteSheet start inputs (n + 2)).registers.color =
        colorAt board spriteSheet start inputs (n + 2) ↔
      colorAt board spriteSheet start inputs n = colorAt board spriteSheet start inputs (n + 2)) := by
  have edge : (run board spriteSheet start inputs n).toplevel.clock.vgaClk = false := by
    have twice := ends.edge
    rw [run_toplevel, Toplevel.run_vgaClk, Toplevel.run_vgaClk, Bool.not_not,
      ← run_toplevel board spriteSheet] at twice
    exact twice
  refine ⟨edge, ?_, ?_⟩
  · intro inside
    have tick := video_two board spriteSheet start inputs n edge running
    have before := pixelBefore_of_step _ inside
    rw [← tick] at before
    calc
      _ = pixelBefore (run board spriteSheet start inputs (n + 2)).drawX.toNat
          (run board spriteSheet start inputs (n + 2)).drawY.toNat := before
      _ = pixelBefore x y := by rw [ends.drawX, ends.drawY]
  · rw [color_lags]

theorem endsPixel_since_reset (first n : Nat)
    (edge : (run board spriteSheet start inputs first).toplevel.clock.vgaClk = false)
    (reset : (run board spriteSheet start inputs first).toplevel.game.resetH = true)
    (quiet : ∀ j, first < j → j ≤ first + 2 * n →
      (run board spriteSheet start inputs j).toplevel.game.resetH = false)
    (positive : 1 ≤ n) :
    EndsPixel board spriteSheet start inputs (first + 2 * (1 + n)) (n % 800) (n / 800 % 525) := by
  rw [run_toplevel] at edge reset
  obtain ⟨low, ticks⟩ := run_ticks board start.toplevel inputs first edge (1 + n)
  have sampled : ∀ j, 0 < j → j ≤ 0 + n → tickResets board start.toplevel inputs first j = false := by
    intro j above below
    rw [tickResets, ← run_toplevel board spriteSheet]
    exact quiet (first + 2 * j) (by omega) (by omega)
  rw [← Nat.zero_add (1 + n), ← Nat.add_assoc] at ticks
  have counts : (run board spriteSheet start inputs
      (first + 2 * (1 + n))).toplevel.clock.vga.Counts n := by
    rw [run_toplevel, ticks]
    exact VgaController.ticks_counts reset n sampled
  have outputs : (run board spriteSheet start inputs
      (first + 2 * (1 + n))).toplevel.clock.vga.OutputsInPlace := by
    rw [run_toplevel, ticks]
    exact VgaController.ticks_outputsInPlace n positive (sampled (0 + n) (by omega) (Nat.le_refl _))
  rw [← run_toplevel board spriteSheet] at low
  exact ⟨low, counts.drawX, counts.drawY, outputs⟩

section Edge

def borderSheet : SpriteSheet := fun a => if 36802#16 ≤ a ∧ a ≤ 36836#16 then 0x3#4 else 0xC#4

def borderStart : Screen := ⟨Toplevel.held emptyBoard, ⟨0#4, palette 0#4⟩⟩

def released (n : Nat) : Input := ⟨decide (n ≠ 0), 0#8⟩

abbrev borderRun : Nat → Screen := run emptyBoard borderSheet borderStart released

theorem borderRun_low : (borderRun 1).toplevel.clock.vgaClk = false := rfl

theorem borderRun_reset : (borderRun 1).toplevel.game.resetH = true := rfl

theorem borderRun_resetH (j : Nat) (above : 1 < j) :
    (borderRun j).toplevel.game.resetH = false := by
  obtain ⟨n, rfl⟩ : ∃ n, j = n + 2 := ⟨j - 2, by omega⟩
  rw [borderRun, run_toplevel]
  exact unmarked_resetH emptyBoard_unmarked (Toplevel.held emptyBoard) released rfl n

theorem borderRun_ends (n : Nat) (positive : 1 ≤ n) : EndsPixel emptyBoard borderSheet borderStart
    released (1 + 2 * (1 + n)) (n % 800) (n / 800 % 525) :=
  endsPixel_since_reset emptyBoard borderSheet borderStart released 1 n borderRun_low
    borderRun_reset (fun j above _ => borderRun_resetH j above) positive

theorem colorAt_border (n : Nat) (x y : BitVec 10) (left : x < 120#10)
    (ends : EndsPixel emptyBoard borderSheet borderStart released n x.toNat y.toNat) :
    colorAt emptyBoard borderSheet borderStart released n =
      palette (borderSheet (ColorMapper.Sprite.address
        ⟨⟨0#3, 4#3⟩, x - 120#10, y - 40#10⟩)) := by
  have atX : (borderRun n).drawX = x := BitVec.eq_of_toNat_eq ends.drawX
  have atY : (borderRun n).drawY = y := BitVec.eq_of_toNat_eq ends.drawY
  have bordered : ((borderRun n).toplevel.game.colorMapper emptyBoard x y).Bordered := Or.inl left
  rw [colorAt, pixelAddress, atX, atY, Game.pixelAddress, ColorMapper.pixelAddress,
    ColorMapper.sprite, if_pos bordered]
  rfl

theorem color_in_step_iff_border :
    (borderRun 27).toplevel.clock.vgaClk = false ∧
    ((borderRun 27).toplevel.video.InFrame →
      ((borderRun 27).drawX.toNat, (borderRun 27).drawY.toNat) = pixelBefore 13 0) ∧
    ((borderRun (27 + 2)).registers.color =
        colorAt emptyBoard borderSheet borderStart released (27 + 2) ↔
      colorAt emptyBoard borderSheet borderStart released 27 =
        colorAt emptyBoard borderSheet borderStart released (27 + 2)) :=
  color_in_step_iff emptyBoard borderSheet borderStart released 27 13 0
    (borderRun_resetH 27 (by decide)) (borderRun_ends 13 (by decide))

/-- The first black pixel of the border still shows the brown of the pixel to its left. -/
theorem black_pixel_brown : ¬ ∀ (board : Board) (spriteSheet : SpriteSheet) (start : Screen)
    (inputs : Nat → Input) (first n x y : Nat),
    (run board spriteSheet start inputs first).toplevel.clock.vgaClk = false →
    (run board spriteSheet start inputs first).toplevel.game.resetH = true →
    (∀ j, first < j → j ≤ n + 2 →
      (run board spriteSheet start inputs j).toplevel.game.resetH = false) →
    first ≤ n → EndsPixel board spriteSheet start inputs (n + 2) x y →
    (run board spriteSheet start inputs (n + 2)).registers.color =
      colorAt board spriteSheet start inputs (n + 2) := by
  intro inStep
  have same := inStep emptyBoard borderSheet borderStart released 1 27 13 0 borderRun_low
    borderRun_reset (fun j above _ => borderRun_resetH j above) (by decide)
    (borderRun_ends 13 (by decide))
  rw [color_lags, colorAt_border 27 12#10 0#10 (by decide) (borderRun_ends 12 (by decide)),
    colorAt_border (27 + 2) 13#10 0#10 (by decide) (borderRun_ends 13 (by decide))] at same
  revert same
  decide

end Edge

end Screen

end FPGAMario
