import FPGAMario.Frames
import FPGAMario.Scrolling
import Mathlib.Data.Nat.Dist

/-! How fast Mario gets through the level: his place counts what has been scrolled. -/

namespace FPGAMario

open Hdl Game

section Place

variable (board : Board) (start : Toplevel) (inputs : Nat → Input)

/-- Mario's place in the level: forty pixels for every scroll, and his place on the screen. -/
def marioPlace (n : Nat) : Nat :=
  (sinceReset board start inputs n).game.mario.marioXPos.toNat + 40 * shifts board start inputs n

variable {board start inputs} {n : Nat}

theorem marioPlace_quiet (running : (sinceReset board start inputs n).game.resetH = false)
    (quiet : ¬ FramePulse board start inputs n) :
    marioPlace board start inputs (n + 1) = marioPlace board start inputs n := by
  have silent : (sinceReset board start inputs n).clock.marioEdge.rising = false :=
    Bool.eq_false_iff.mpr quiet
  have still : (sinceReset board start inputs n).shift = false := by
    rw [Toplevel.shift, silent]
    rfl
  have mario : (sinceReset board start inputs (n + 1)).game.mario.marioXPos =
      (sinceReset board start inputs n).game.mario.marioXPos := by
    have mute : (sinceReset board start inputs n).clock.pulses.mario = false := silent
    rw [Toplevel.run_game, step_mario, running, mute]
    rfl
  rw [marioPlace, marioPlace, mario, shifts_succ_of_still board start inputs n still]

/-- A frame moves Mario by two pixels at most, a scroll does not move him at all. -/
theorem marioPlace_frame (reset : start.game.resetH = true)
    (running : (sinceReset board start inputs n).game.resetH = false)
    (pulse : FramePulse board start inputs n) :
    Nat.dist (marioPlace board start inputs (n + 1)) (marioPlace board start inputs n) ≤ 2 := by
  have band := run_inBand board start inputs reset n
  have frame : (sinceReset board start inputs (n + 1)).game.mario =
      (sinceReset board start inputs n).game.mario.frameStep
        ((inputs (n + 1)).keycode.setWidth 16)
        ((sinceReset board start inputs n).game.marioPolls board) := by
    have rising : (sinceReset board start inputs n).clock.pulses.mario = true := pulse
    rw [Toplevel.run_game, step_mario, running, rising]
    rfl
  have moved := Mario.frameStep_xPos ((inputs (n + 1)).keycode.setWidth 16)
    ((sinceReset board start inputs n).game.marioPolls board) _ band
  rw [← frame] at moved
  have count : shifts board start inputs (n + 1) = shifts board start inputs n +
      if 299 ≤ (sinceReset board start inputs n).game.mario.marioXPos.toNat then 1 else 0 := by
    have scrolls := Mario.shift_eq_true (sinceReset board start inputs n).clock.marioEdge.rising
      (sinceReset board start inputs n).game.mario
    have far : (sinceReset board start inputs n).shift = true ↔
        299 ≤ (sinceReset board start inputs n).game.mario.marioXPos.toNat :=
      scrolls.trans (and_iff_right pulse)
    rw [shifts, Nat.count_succ, ← shifts]
    simp only [far]
  rw [marioPlace, marioPlace, count, Nat.dist]
  split
  · omega
  · omega

theorem pulses_apart {p k : Nat} (late : 1 ≤ p) (pulse : FramePulse board start inputs p)
    (positive : 0 < k) (near : k < 840000)
    (running : ∀ j, j < k → (sinceReset board start inputs (p + j)).game.resetH = false) :
    ¬ FramePulse board start inputs (p + k) := by
  obtain ⟨m, rfl⟩ : ∃ m, p = m + 1 := ⟨p - 1, by omega⟩
  have origin := pulse_atOrigin board start inputs m pulse
  have quiet (j : Nat) (below : j < k) : (Toplevel.run board (sinceReset board start inputs (m + 1))
      (fun k => inputs (m + 1 + 1 + k)) j).game.resetH = false := by
    rw [← sinceReset_add]
    exact running j below
  have silent := pulses_after board (fun k => inputs (m + 1 + 1 + k)) origin near quiet
  rw [← sinceReset_add, decide_eq_false positive.ne'] at silent
  have mario : (sinceReset board start inputs (m + 1 + k)).clock.marioEdge.rising = false :=
    congrArg Pulses.mario silent
  rw [FramePulse, mario]
  exact Bool.false_ne_true

theorem marioPlace_within (reset : start.game.resetH = true) {a j : Nat} (late : 1 ≤ a)
    (near : j ≤ 840000)
    (running : ∀ k, k < j → (sinceReset board start inputs (a + k)).game.resetH = false) :
    ((∀ i, i < j → ¬ FramePulse board start inputs (a + i)) ∧
        marioPlace board start inputs (a + j) = marioPlace board start inputs a) ∨
      (∃ i, i < j ∧ FramePulse board start inputs (a + i)) ∧
        Nat.dist (marioPlace board start inputs (a + j)) (marioPlace board start inputs a) ≤ 2 := by
  induction j with
  | zero => exact Or.inl ⟨fun i below => absurd below (Nat.not_lt_zero i), rfl⟩
  | succ j ih =>
      have now := running j (Nat.lt_succ_self j)
      by_cases pulse : FramePulse board start inputs (a + j)
      · right
        refine ⟨⟨j, Nat.lt_succ_self j, pulse⟩, ?_⟩
        rcases ih (Nat.le_of_succ_le near) (fun k below => running k (Nat.lt_succ_of_lt below)) with
          ⟨_, same⟩ | ⟨⟨i, before, first⟩, _⟩
        · rw [← same]
          exact marioPlace_frame reset now pulse
        · obtain ⟨d, rfl⟩ := Nat.exists_eq_add_of_lt before
          have alone := pulses_apart (k := d + 1) (Nat.le_add_right_of_le late) first
            (Nat.succ_pos d) (by omega) (fun k below => by
              rw [Nat.add_assoc]
              exact running (i + k) (by omega))
          rw [Nat.add_assoc, ← Nat.add_assoc i] at alone
          exact absurd pulse alone
      · have step := marioPlace_quiet now pulse
        rw [← Nat.add_assoc, step]
        rcases ih (Nat.le_of_succ_le near) (fun k below => running k (Nat.lt_succ_of_lt below)) with
          ⟨quiet, same⟩ | ⟨⟨i, before, first⟩, close⟩
        · left
          refine ⟨?_, same⟩
          intro i below
          rcases Nat.lt_succ_iff_lt_or_eq.mp below with earlier | rfl
          · exact quiet i earlier
          · exact pulse
        · exact Or.inr ⟨⟨i, Nat.lt_succ_of_lt before, first⟩, close⟩

end Place

/-- Mario's speed limit: in so many frames' time his place in the level changes by two pixels a frame at
most, walking, in the air or scrolling, whatever is typed. -/
theorem speed_limit (board : Board) (start : Toplevel) (inputs : Nat → Input)
    (reset : start.game.resetH = true) (a N : Nat) (late : 1 ≤ a)
    (running : ∀ k, k < 840000 * N →
      (sinceReset board start inputs (a + k)).game.resetH = false) :
    Nat.dist (marioPlace board start inputs (a + 840000 * N)) (marioPlace board start inputs a) ≤
        2 * N ∧
      40 * shifts board start inputs (a + 840000 * N) ≤
        40 * shifts board start inputs a + 162 + 2 * N := by
  have far : Nat.dist (marioPlace board start inputs (a + 840000 * N))
      (marioPlace board start inputs a) ≤ 2 * N := by
    induction N with
    | zero => exact (Nat.dist_self _).le
    | succ N ih =>
        have before := ih (fun k below => running k (by omega))
        have frame := marioPlace_within reset (a := a + 840000 * N) (j := 840000)
          (Nat.le_add_right_of_le late) (Nat.le_refl _)
          (fun k below => by
            rw [Nat.add_assoc]
            exact running (840000 * N + k) (by omega))
        have close : Nat.dist (marioPlace board start inputs (a + 840000 * N + 840000))
            (marioPlace board start inputs (a + 840000 * N)) ≤ 2 := by
          rcases frame with ⟨_, same⟩ | ⟨_, close⟩
          · rw [same, Nat.dist_self]
            exact Nat.zero_le 2
          · exact close
        rw [Nat.mul_succ, ← Nat.add_assoc]
        calc
          Nat.dist (marioPlace board start inputs (a + 840000 * N + 840000))
              (marioPlace board start inputs a) ≤
            Nat.dist (marioPlace board start inputs (a + 840000 * N + 840000))
                (marioPlace board start inputs (a + 840000 * N)) +
              Nat.dist (marioPlace board start inputs (a + 840000 * N))
                (marioPlace board start inputs a) := Nat.dist.triangle_inequality _ _ _
          _ ≤ 2 + 2 * N := Nat.add_le_add close before
          _ = 2 * (N + 1) := by omega
  refine ⟨far, ?_⟩
  have left := (run_inBand board start inputs reset (a + 840000 * N)).left
  have right := (run_inBand board start inputs reset a).right
  rw [marioPlace, marioPlace, Nat.dist] at far
  omega

theorem speed_limit_empty :
    Nat.dist (marioPlace emptyBoard (Toplevel.held graveBoard) (fun _ => ⟨true, 0x07#8⟩)
          (1 + 840000 * 100))
        (marioPlace emptyBoard (Toplevel.held graveBoard) (fun _ => ⟨true, 0x07#8⟩) 1) ≤
      2 * 100 ∧
      40 * shifts emptyBoard (Toplevel.held graveBoard) (fun _ => ⟨true, 0x07#8⟩)
          (1 + 840000 * 100) ≤
        40 * shifts emptyBoard (Toplevel.held graveBoard) (fun _ => ⟨true, 0x07#8⟩) 1 + 162 +
          2 * 100 := by
  apply speed_limit emptyBoard (Toplevel.held graveBoard) (fun _ => ⟨true, 0x07#8⟩) rfl 1 100
    (Nat.le_refl 1)
  intro k _
  rw [Nat.add_comm 1 k]
  exact unmarked_resetH emptyBoard_unmarked (Toplevel.held graveBoard) _ rfl k

end FPGAMario
