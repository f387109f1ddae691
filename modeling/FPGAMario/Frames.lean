import FPGAMario.FramePulses
import FPGAMario.PixelDelay
import FPGAMario.Settling

/-! The game frame by frame: a machine that takes one keycode for a frame, what the game at
50 MHz has to do with it, and the pictures on the pins. -/

namespace FPGAMario

open Hdl Game BlockArray

namespace Game

/-- A frame pulse and the cycles in which the game comes to rest after it. -/
def frame (board : Board) (keycode : BitVec 8) (g : Game) : Game :=
  (idle board)^[5] (g.step board (Pulses.all true) ⟨true, keycode⟩)

abbrev frames (board : Board) (g : Game) (keycodes : Nat → BitVec 8) : Nat → Game :=
  Hdl.run (frame board) g keycodes

/-- The colour of the pixel `(x, y)` in the picture of a state. -/
def picture (board : Board) (spriteSheet : SpriteSheet) (x y : Nat) (g : Game) : Color :=
  palette (spriteSheet (g.pixelAddress board (BitVec.ofNat 10 x) (BitVec.ofNat 10 y)))

theorem picture_of_left (board : Board) (spriteSheet : SpriteSheet) (g h : Game) (x y : Nat)
    (left : x < 120) : g.picture board spriteSheet x y = h.picture board spriteSheet x y := by
  have outside : BitVec.ofNat 10 x < 120#10 := by
    rw [BitVec.lt_def, BitVec.toNat_ofNat, Nat.mod_eq_of_lt (by omega)]
    exact left
  have bordered (g : Game) :
      (g.colorMapper board (BitVec.ofNat 10 x) (BitVec.ofNat 10 y)).Bordered := Or.inl outside
  rw [picture, picture, pixelAddress, pixelAddress, ColorMapper.pixelAddress,
    ColorMapper.pixelAddress, ColorMapper.sprite, ColorMapper.sprite, if_pos (bordered g),
    if_pos (bordered h)]
  rfl

end Game

namespace Resting

variable {board : Board} {game : Nat → Game} {inputs : Nat → Input} {n : Nat}
  (resting : Resting board game inputs n)

include resting

theorem goomba_still {k : Nat} (later : 4 ≤ k) (bound : k < n) :
    (game (k + 1)).goomba = (game k).goomba ∧ (game k).goomba.goombaKilled = false := by
  obtain ⟨j, rfl⟩ : ∃ j, k = j + 1 := ⟨k - 1, by omega⟩
  have step {j : Nat} (after : 2 ≤ j) (before : j < n) : (game (j + 1)).goomba =
      if (control (board.levelMem (game 0).blocks.currentBlockCol)).getLsbD 0
        then Goomba.startValue 500#10 440#10
        else { (game j).goomba with goombaYMotion := 0#10, goombaKilled := false } := by
    rw [resting.step j before, step_goomba, resting.running j before, newColControl,
      resting.word after before.le]
    rfl
  rw [step (by omega) bound, step (by omega) (by omega)]
  split
  · exact ⟨rfl, rfl⟩
  · exact ⟨rfl, rfl⟩

theorem coin_step {k : Nat} (later : 3 ≤ k) (bound : k < n) (i : Fin 4) :
    (game (k + 1)).coins i =
      if (startCoinIn (control (board.levelMem (game 0).blocks.currentBlockCol))).getLsbD i.val
        then Coin.startValue (startBlock (control (board.levelMem (game 0).blocks.currentBlockCol)))
        else ((game k).coins i).rest (game 0).mario.marioXPos (game 0).mario.marioYPos := by
  rcases resting.marioPos bound.le with ⟨x, y⟩
  rw [resting.step k bound, step_coins, resting.running k bound, resting.startCoin later bound.le,
    newColControl, resting.word (by omega) bound.le, x, y]
  split
  case isTrue started => rw [started]; rfl
  case isFalse unstarted => rw [Bool.not_eq_true] at unstarted; rw [unstarted]; rfl

theorem coin_untaken {k : Nat} (later : 5 ≤ k) (bound : k ≤ n) (i : Fin 4) :
    ((game k).coins i).coinTaken = false := by
  obtain ⟨j, rfl⟩ : ∃ j, k = j + 2 := ⟨k - 2, by omega⟩
  rw [resting.coin_step (k := j + 1) (by omega) (by omega), resting.coin_step (by omega) (by omega)]
  split
  · rfl
  · exact Coin.rest_twice_untaken _ _ _

theorem coin_still {k : Nat} (later : 5 ≤ k) (bound : k < n) (i : Fin 4) :
    (game (k + 1)).coins i = (game k).coins i := by
  rcases resting.coin later bound i with ⟨x, y, running⟩
  have before := resting.coin_untaken later bound.le i
  have after := resting.coin_untaken (Nat.le_succ_of_le later) bound i
  cases now : (game k).coins i
  cases next : (game (k + 1)).coins i
  simp_all

theorem still {k : Nat} (later : 5 ≤ k) (bound : k < n)
    (running : (game (k + 1)).resetH = false) : game (k + 1) = game k := by
  have column := resting.column bound.le
  have killed := (resting.goomba_still (by omega) bound).2
  have untaken := resting.coin_untaken later bound.le
  obtain ⟨j, rfl⟩ : ∃ j, k = j + 1 := ⟨k - 1, by omega⟩
  have earlier : j < n := Nat.lt_of_succ_lt bound
  apply Game.ext
  case resetH => rw [running, resting.running _ bound]
  case score => rw [resting.step _ bound, step_score, scoreIn_idle _ untaken killed]
  case startCoin => rw [resting.startCoin (by omega) bound, resting.startCoin (by omega) bound.le]
  case mario => rw [resting.mario bound, resting.mario earlier]
  case goomba => exact (resting.goomba_still (by omega) bound).1
  case blocks => rw [resting.blocks bound, resting.blocks earlier, rest_rest]
  case level =>
    have settled : (game (j + 1)).level.Settled board.levelMem
        (game (j + 1)).blocks.currentBlockCol := by
      refine ⟨?_, ?_⟩
      · rw [resting.step j earlier, step_level, SyncRom.step_address, resting.column earlier.le,
          ← resting.step j earlier, column]
      · rw [resting.word (by omega) bound.le, column]
    rw [resting.step _ bound, step_level, settled.step_self]
  case coins => exact funext (resting.coin_still later bound)

end Resting

section Frame

variable (board : Board) (start : Toplevel) (inputs : Nat → Input)

variable {start} in
theorem pulses_after (origin : start.clock.AtOrigin true) {j : Nat} (bound : j < 840000)
    (quiet : ∀ k, k < j → (Toplevel.run board start inputs k).game.resetH = false) :
    (Toplevel.run board start inputs j).clock.pulses = Pulses.all (decide (j = 0)) := by
  have after := run_afterOrigin board start inputs origin j quiet
  rw [FrameClock.pulses_of_synced _ after.synced]
  congr 1
  cases j with
  | zero => simp [origin.marioEdge]
  | succ j =>
      rw [run_rising board start inputs origin j quiet, decide_eq_decide]
      omega

theorem key_of_running {n : Nat}
    (running : (Toplevel.run board start inputs (n + 1)).game.resetH = false) :
    (inputs n).key0 = true := by
  rw [Toplevel.run_resetH] at running
  simp only [Bool.or_eq_false_iff, Bool.not_eq_false'] at running
  exact running.1

theorem input_eta (input : Input) (key : input.key0 = true) : input = ⟨true, input.keycode⟩ := by
  cases input
  cases key
  rfl

variable {board start inputs} {n : Nat}

theorem step_after_pulse (origin : start.clock.AtOrigin true) {k : Nat} (below : k < 840000)
    (quiet : ∀ j, j ≤ k + 1 → (Toplevel.run board start inputs j).game.resetH = false) :
    (Toplevel.run board start inputs (k + 1)).game =
      (Toplevel.run board start inputs k).game.step board (Pulses.all (decide (k = 0)))
        ⟨true, (inputs k).keycode⟩ := by
  have key := key_of_running board start inputs (quiet (k + 1) (Nat.le_refl _))
  rw [Toplevel.run_game, pulses_after board inputs origin below (fun i less => quiet i (by omega)),
    ← input_eta (inputs k) key]

theorem resting_after_pulse (origin : start.clock.AtOrigin true) {n : Nat} (few : n ≤ 839999)
    (quiet : ∀ k, k ≤ n + 1 → (Toplevel.run board start inputs k).game.resetH = false) :
    Resting board (fun k => (Toplevel.run board start inputs (1 + k)).game)
      (fun k => ⟨true, (inputs (1 + k)).keycode⟩) n := by
  refine ⟨fun k below => quiet (1 + k) (by omega), ?_⟩
  intro k below
  have next : _ = (Toplevel.run board start inputs (1 + k)).game.step board
      (Pulses.all (decide (1 + k = 0))) _ :=
    step_after_pulse origin (show 1 + k < 840000 by omega) (fun j less => quiet j (by omega))
  rw [decide_eq_false (by omega)] at next
  exact next

/-- From the sixth cycle after a pulse to the next one the game is one frame further. -/
theorem game_after_pulse (origin : start.clock.AtOrigin true)
    (quiet : ∀ k, k ≤ 840000 → (Toplevel.run board start inputs k).game.resetH = false) {j : Nat}
    (later : 6 ≤ j) (bound : j ≤ 840000) :
    (Toplevel.run board start inputs j).game = start.game.frame board (inputs 0).keycode := by
  have resting := resting_after_pulse origin (Nat.le_refl 839999) quiet
  induction j, later using Nat.le_induction with
  | base =>
      have rest (k : Nat) (few : k < 5) : (Toplevel.run board start inputs (1 + k + 1)).game =
          (Toplevel.run board start inputs (1 + k)).game.idle board :=
        (resting.step k (by omega)).trans (step_idle board _ _ rfl)
      have first : (Toplevel.run board start inputs 1).game =
          start.game.step board (Pulses.all true) ⟨true, (inputs 0).keycode⟩ :=
        step_after_pulse origin (by decide) (fun j less => quiet j (by omega))
      calc
        (Toplevel.run board start inputs 6).game =
            (idle board)^[5] (Toplevel.run board start inputs 1).game := by
          rw [rest 4 (by decide), rest 3 (by decide), rest 2 (by decide), rest 1 (by decide),
            rest 0 (by decide)]
          rfl
        _ = start.game.frame board (inputs 0).keycode := by
          rw [first]
          rfl
  | succ j later ih =>
      obtain ⟨k, rfl⟩ : ∃ k, j = 1 + k := ⟨j - 1, by omega⟩
      rw [← ih (by omega)]
      exact resting.still (by omega) (by omega) (quiet (1 + k + 1) bound)

theorem atOrigin_next (origin : start.clock.AtOrigin true)
    (quiet : ∀ k, k < 840000 → (Toplevel.run board start inputs k).game.resetH = false) :
    (Toplevel.run board start inputs 840000).clock.AtOrigin true := by
  have after := run_afterOrigin board start inputs origin 840000 quiet
  have rising := run_rising board start inputs origin 839999 quiet
  exact after.atOrigin rfl true rising

theorem run_from (p k : Nat) : Toplevel.run board start inputs (p + k) =
    Toplevel.run board (Toplevel.run board start inputs p) (fun k => inputs (p + k)) k :=
  run_add _ _ _ _ _

theorem frames_at {p : Nat} (origin : (Toplevel.run board start inputs p).clock.AtOrigin true)
    (N : Nat) (quiet : ∀ k, k ≤ 840000 * N →
      (Toplevel.run board start inputs (p + k)).game.resetH = false) :
    (Toplevel.run board start inputs (p + 840000 * N)).clock.AtOrigin true ∧
      (Toplevel.run board start inputs (p + 840000 * N)).game =
        Game.frames board (Toplevel.run board start inputs p).game
          (fun i => (inputs (p + 840000 * i)).keycode) N := by
  induction N with
  | zero => exact ⟨origin, rfl⟩
  | succ N ih =>
      rcases ih (fun k below => quiet k (by omega)) with ⟨pulse, state⟩
      have running (k : Nat) (below : k ≤ 840000) :
          (Toplevel.run board (Toplevel.run board start inputs (p + 840000 * N))
            (fun k => inputs (p + 840000 * N + k)) k).game.resetH = false := by
        rw [← run_from, Nat.add_assoc]
        exact quiet _ (by omega)
      rw [Nat.mul_succ, ← Nat.add_assoc, run_from]
      constructor
      · exact atOrigin_next pulse (fun k below => running k below.le)
      · rw [game_after_pulse pulse running (by omega) (Nat.le_refl _), state]
        rfl

theorem game_in_frame {p : Nat} (origin : (Toplevel.run board start inputs p).clock.AtOrigin true)
    {i : Nat} (quiet : ∀ k, k ≤ 840000 * (i + 1) →
      (Toplevel.run board start inputs (p + k)).game.resetH = false) {j : Nat} (later : 6 ≤ j)
    (bound : j ≤ 840000) :
    (Toplevel.run board start inputs (p + 840000 * i + j)).game =
      Game.frames board (Toplevel.run board start inputs p).game
        (fun i => (inputs (p + 840000 * i)).keycode) (i + 1) := by
  rcases frames_at origin i (fun k below => quiet k (by omega)) with ⟨now, state⟩
  have running (k : Nat) (below : k ≤ 840000) :
      (Toplevel.run board (Toplevel.run board start inputs (p + 840000 * i))
        (fun k => inputs (p + 840000 * i + k)) k).game.resetH = false := by
    rw [← run_from, Nat.add_assoc]
    exact quiet _ (by omega)
  rw [run_from, game_after_pulse now running later bound, state]
  rfl

end Frame

theorem Screen.pulse_of_ends {board : Board} {spriteSheet : SpriteSheet} {start : Screen}
    {inputs : Nat → Input} {n : Nat}
    (last : EndsPixel board spriteSheet start inputs n 799 524)
    (first : EndsPixel board spriteSheet start inputs (n + 2) 0 0) :
    (Toplevel.run board start.toplevel inputs (n + 2)).clock.marioEdge.rising = true := by
  apply (pulse_iff_returns board start.toplevel inputs n).mpr
  have high : (Toplevel.run board start.toplevel inputs (n + 1)).clock.vgaClk = true := by
    have low := first.edge
    rw [run_toplevel, Toplevel.run_vgaClk, Bool.not_eq_false'] at low
    exact low
  have same : (Toplevel.run board start.toplevel inputs (n + 2)).video =
      (Toplevel.run board start.toplevel inputs (n + 1)).video := by
    rw [Toplevel.run_video, high, if_pos rfl]
  rw [Returns, ← same]
  have x := first.drawX
  have y := first.drawY
  have before := last.drawX
  rw [drawX, run_toplevel] at x before
  rw [drawY, run_toplevel] at y
  constructor
  · rw [← Bool.not_eq_true, VgaController.frameClk_iff, VgaController.pixel, Toplevel.video]
    omega
  · rw [VgaController.frameClk_iff, VgaController.pixel, Toplevel.video]
    omega

/-- Between two Resets the game is the frame machine: the state six cycles after the pulse of a frame
stays up to the next pulse, and is the next state of that machine. -/
theorem runs_frames (board : Board) (start : Toplevel) (inputs : Nat → Input) (m N : Nat)
    (pulse : (Toplevel.run board start inputs (m + 2)).clock.marioEdge.rising = true)
    (quiet : ∀ k, k ≤ 840000 * N →
      (Toplevel.run board start inputs (m + 2 + k)).game.resetH = false)
    (i j : Nat) (frame : i < N) (later : 6 ≤ j) (bound : j ≤ 840000) :
    (Toplevel.run board start inputs (m + 2 + 840000 * i + j)).game =
      Game.frames board (Toplevel.run board start inputs (m + 2)).game
        (fun i => (inputs (m + 2 + 840000 * i)).keycode) (i + 1) :=
  game_in_frame (pulse_atOrigin board start inputs m pulse)
    (fun k below => quiet k (by omega)) later bound

section Border

open Screen

theorem border_pulse : (Toplevel.run emptyBoard borderStart.toplevel Screen.released
    (840001 + 2)).clock.marioEdge.rising = true := by
  have last := borderRun_ends 419999 (by decide)
  have first := borderRun_ends 420000 (by decide)
  norm_num at last first
  exact pulse_of_ends last first

theorem border_running (n : Nat) : (Toplevel.run emptyBoard borderStart.toplevel Screen.released
    (n + 2)).game.resetH = false :=
  unmarked_resetH emptyBoard_unmarked borderStart.toplevel Screen.released rfl n

theorem runs_frames_empty :
    (Toplevel.run emptyBoard borderStart.toplevel Screen.released
      (840001 + 2 + 840000 * 1 + 6)).game =
        Game.frames emptyBoard (Toplevel.run emptyBoard borderStart.toplevel Screen.released
          (840001 + 2)).game (fun i => (Screen.released (840001 + 2 + 840000 * i)).keycode) (1 + 1) := by
  apply runs_frames emptyBoard borderStart.toplevel Screen.released 840001 2 border_pulse
  · intro k _
    rw [Nat.add_right_comm]
    exact border_running (840001 + k)
  · decide
  · decide
  · decide

end Border

namespace Screen

variable {board : Board} {spriteSheet : SpriteSheet} {start : Screen} {inputs : Nat → Input}

theorem outputs_of_edge {m : Nat}
    (edge : (run board spriteSheet start inputs (m + 2)).toplevel.clock.vgaClk = false)
    (running : (run board spriteSheet start inputs m).toplevel.game.resetH = false) :
    (run board spriteSheet start inputs (m + 2)).toplevel.clock.vga.OutputsInPlace := by
  have before : (run board spriteSheet start inputs m).toplevel.clock.vgaClk = false := by
    rw [run_toplevel, Toplevel.run_vgaClk, Toplevel.run_vgaClk, Bool.not_not,
      ← run_toplevel board spriteSheet] at edge
    exact edge
  have tick := video_two board spriteSheet start inputs m before running
  change (run board spriteSheet start inputs (m + 2)).toplevel.video.OutputsInPlace
  rw [tick]
  exact VgaController.step_outputsInPlace _

theorem afterOrigin_of_pulse {m : Nat}
    (origin : (run board spriteSheet start inputs (m + 2)).toplevel.clock.AtOrigin true)
    {j : Nat} (quiet : ∀ k, k < 2 + j →
      (run board spriteSheet start inputs (m + k)).toplevel.game.resetH = false) :
    (run board spriteSheet start inputs (m + 2 + j)).toplevel.clock.AfterOrigin j := by
  have shifted (j : Nat) : (run board spriteSheet start inputs (m + 2 + j)).toplevel =
      Toplevel.run board (run board spriteSheet start inputs (m + 2)).toplevel
        (fun k => inputs (m + 2 + k)) j := by
    rw [run_toplevel, run_from, ← run_toplevel board spriteSheet]
  rw [shifted]
  apply run_afterOrigin board _ _ origin
  intro k below
  rw [← shifted, Nat.add_assoc]
  exact quiet (2 + k) (by omega)

theorem endsPixel_iff {m : Nat}
    (origin : (run board spriteSheet start inputs (m + 2)).toplevel.clock.AtOrigin true)
    (quiet : ∀ k, k < 840002 →
      (run board spriteSheet start inputs (m + k)).toplevel.game.resetH = false)
    {j x y : Nat} (inside : j < 840000) (column : x < 800) :
    EndsPixel board spriteSheet start inputs (m + 2 + j) x y ↔ j = 2 * (800 * y + x) := by
  have after := afterOrigin_of_pulse origin (fun k below => quiet k (by omega)) (j := j)
  have pixel := after.pixel
  rw [VgaController.pixel] at pixel
  constructor
  · intro ends
    have low := after.vgaClk
    have atX := ends.drawX
    have atY := ends.drawY
    rw [ends.edge] at low
    have even := of_decide_eq_false low.symm
    rw [drawX] at atX
    rw [drawY] at atY
    omega
  · rintro rfl
    have edge : (run board spriteSheet start inputs
        (m + 2 + 2 * (800 * y + x))).toplevel.clock.vgaClk = false := by
      rw [after.vgaClk]
      exact decide_eq_false (by omega)
    have outputs : (run board spriteSheet start inputs
        (m + 2 * (800 * y + x) + 2)).toplevel.clock.vga.OutputsInPlace :=
      outputs_of_edge (by rw [Nat.add_right_comm]; exact edge) (quiet _ (by omega))
    rcases after.inFrame with ⟨low, high⟩
    rw [Nat.add_right_comm] at outputs
    refine ⟨edge, ?_, ?_, outputs⟩
    · rw [drawX]
      omega
    · rw [drawY]
      omega

theorem color_of_pixel {n x y : Nat} (ends : EndsPixel board spriteSheet start inputs n x y) :
    (run board spriteSheet start inputs (n + 2)).registers.color =
      (run board spriteSheet start inputs n).toplevel.game.picture board spriteSheet x y := by
  have atX : (run board spriteSheet start inputs n).drawX = BitVec.ofNat 10 x := by
    rw [← ends.drawX, BitVec.ofNat_toNat, BitVec.setWidth_eq]
  have atY : (run board spriteSheet start inputs n).drawY = BitVec.ofNat 10 y := by
    rw [← ends.drawY, BitVec.ofNat_toNat, BitVec.setWidth_eq]
  rw [color_lags, colorAt, pixelAddress, atX, atY, Game.picture]

/-- Every pixel of a frame is shown exactly once, and all of them show one state, the one of the frame
machine, with the colour a pixel late. -/
theorem frames_on_pins (board : Board) (spriteSheet : SpriteSheet) (start : Screen)
    (inputs : Nat → Input) (m N : Nat)
    (pulse : (run board spriteSheet start inputs (m + 2)).toplevel.clock.marioEdge.rising = true)
    (quiet : ∀ k, k ≤ 840000 * N + 2 →
      (run board spriteSheet start inputs (m + k)).toplevel.game.resetH = false)
    (i x y : Nat) (frame : i < N) (column : x < 800) (row : y < 525) :
    (∀ j, j < 840000 →
      (EndsPixel board spriteSheet start inputs (m + 2 + 840000 * i + j) x y ↔
        j = 2 * (800 * y + x))) ∧
      (run board spriteSheet start inputs
        (m + 2 + 840000 * i + 2 * (800 * y + x) + 2)).registers.color =
        (Game.frames board (run board spriteSheet start inputs (m + 2)).toplevel.game
          (fun i => (inputs (m + 2 + 840000 * i)).keycode) (i + 1)).picture board spriteSheet
            x y := by
  have running (j : Nat) (below : j ≤ 840000 * N) : (Toplevel.run board start.toplevel inputs
      (m + 2 + j)).game.resetH = false := by
    rw [← run_toplevel board spriteSheet, Nat.add_assoc]
    exact quiet (2 + j) (by omega)
  rw [run_toplevel] at pulse
  have origin := pulse_atOrigin board start.toplevel inputs m pulse
  have now := (frames_at origin i (fun k below => running k (by omega))).1
  rw [Nat.add_right_comm, ← run_toplevel board spriteSheet] at now
  have ends {j : Nat} (inside : j < 840000) :
      EndsPixel board spriteSheet start inputs (m + 2 + 840000 * i + j) x y ↔
        j = 2 * (800 * y + x) := by
    rw [Nat.add_right_comm m]
    apply endsPixel_iff now _ inside column
    intro k below
    rw [Nat.add_assoc]
    exact quiet _ (by omega)
  refine ⟨fun j inside => ends inside, ?_⟩
  rw [color_of_pixel ((ends (j := 2 * (800 * y + x)) (by omega)).mpr rfl)]
  rcases Nat.lt_or_ge (2 * (800 * y + x)) 6 with early | late
  · exact Game.picture_of_left board spriteSheet _ _ _ _ (by omega)
  · rw [run_toplevel, game_in_frame origin (fun j below => running j (by omega)) late (by omega),
      run_toplevel]

theorem frames_on_pins_empty :
    (∀ j, j < 840000 →
      (EndsPixel emptyBoard borderSheet borderStart released (840001 + 2 + 840000 * 1 + j) 300
        200 ↔ j = 2 * (800 * 200 + 300))) ∧
      (borderRun (840001 + 2 + 840000 * 1 + 2 * (800 * 200 + 300) + 2)).registers.color =
        (Game.frames emptyBoard (borderRun (840001 + 2)).toplevel.game
          (fun i => (released (840001 + 2 + 840000 * i)).keycode) (1 + 1)).picture emptyBoard
            borderSheet 300 200 := by
  apply frames_on_pins emptyBoard borderSheet borderStart released 840001 2
  · rw [run_toplevel]
    exact border_pulse
  · intro k _
    exact borderRun_resetH (840001 + k) (by omega)
  · decide
  · decide
  · decide

/-- Between the pulses nobody looks at the keycode. -/
theorem step_sampled (board : Board) (spriteSheet : SpriteSheet) (s : Screen) {first second : Input}
    (key : first.key0 = second.key0)
    (sampled : s.toplevel.clock.marioEdge.rising = true → first.keycode = second.keycode) :
    s.step board spriteSheet first = s.step board spriteSheet second := by
  rcases first with ⟨key0, keycode⟩
  rcases second with ⟨_, other⟩
  obtain rfl : key0 = _ := key
  cases rising : s.toplevel.clock.marioEdge.rising with
  | true =>
      obtain rfl : keycode = other := sampled rising
      rfl
  | false =>
      have mario : s.toplevel.clock.pulses.mario = false := rising
      have game : s.toplevel.game.step board s.toplevel.clock.pulses ⟨key0, keycode⟩ =
          s.toplevel.game.step board s.toplevel.clock.pulses ⟨key0, other⟩ := by
        apply Game.ext
        case mario =>
          rw [step_mario, step_mario, mario]
          rfl
        all_goals rfl
      rw [step, step, Toplevel.step, Toplevel.step, game]

/-- The keycode counts in the cycles of the frame pulses only: two runs that differ between them are
the same run, with Resets or without, down to the colours on the pins. -/
theorem keycodes_at_pulses (board : Board) (spriteSheet : SpriteSheet) (start : Screen)
    (first second : Nat → Input) (sameKeys : ∀ n, (first n).key0 = (second n).key0)
    (sampled : ∀ n,
      (run board spriteSheet start first n).toplevel.clock.marioEdge.rising = true →
        (first n).keycode = (second n).keycode) (n : Nat) :
    run board spriteSheet start first n = run board spriteSheet start second n := by
  induction n with
  | zero => rfl
  | succ n ih =>
      calc
        run board spriteSheet start first (n + 1) =
            (run board spriteSheet start first n).step board spriteSheet (first n) := rfl
        _ = (run board spriteSheet start first n).step board spriteSheet (second n) :=
          step_sampled board spriteSheet _ (sameKeys n) (sampled n)
        _ = (run board spriteSheet start second n).step board spriteSheet (second n) := by rw [ih]
        _ = run board spriteSheet start second (n + 1) := rfl

/-- A key that is typed right after power-up and let go before the first pulse. -/
theorem keycodes_at_pulses_early : run emptyBoard borderSheet borderStart
      (fun n => ⟨true, if n = 0 then 0x1A#8 else 0#8⟩) 1000 =
    run emptyBoard borderSheet borderStart (fun _ => ⟨true, 0#8⟩) 1000 := by
  apply keycodes_at_pulses
  · exact fun _ => rfl
  · intro n rising
    cases n with
    | zero => exact absurd rising (by decide)
    | succ n => rfl

end Screen

end FPGAMario
