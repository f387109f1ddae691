import FPGAMario.Toplevel

/-! When the frame pulse comes: the scan position as one number, and the cycles between
two pulses. -/

namespace FPGAMario

open Hdl

namespace VgaController

/-- Pixels scanned since the last return to `(0, 0)`. -/
def pixel (v : VgaController) : Nat := 800 * v.vCounter.toNat + v.hCounter.toNat

def InFrame (v : VgaController) : Prop := v.hCounter.toNat < 800 ∧ v.vCounter.toNat < 525

theorem frameClk_iff (v : VgaController) : v.frameClk = true ↔ v.pixel = 0 := by
  simp only [frameClk, pixel, decide_eq_true_eq]
  constructor
  · intro origin
    rcases origin with ⟨horizontal, vertical⟩
    simp [horizontal, vertical]
  · intro zero
    constructor <;> bv_omega

theorem hCounterIn_toNat (v : VgaController) (inside : v.InFrame) :
    v.hCounterIn.toNat = if v.hCounter.toNat = 799 then 0 else v.hCounter.toNat + 1 := by
  have bound := inside.1
  simp only [hCounterIn]
  split <;> split <;> bv_omega

theorem vCounterIn_toNat (v : VgaController) (inside : v.InFrame) :
    v.vCounterIn.toNat = if v.hCounter.toNat = 799 then
      (if v.vCounter.toNat = 524 then 0 else v.vCounter.toNat + 1) else v.vCounter.toNat := by
  rcases inside with ⟨horizontal, vertical⟩
  simp only [vCounterIn]
  split <;> split <;> (try split) <;> (try split) <;> bv_omega

theorem inFrame_step (v : VgaController) (inside : v.InFrame) : (v.step false).InFrame := by
  have horizontal := hCounterIn_toNat v inside
  have vertical := vCounterIn_toNat v inside
  rcases inside with ⟨low, high⟩
  simp only [InFrame, step, Bool.false_eq_true, if_false, horizontal, vertical]
  constructor
  · split <;> omega
  · split
    · split <;> omega
    · exact high

theorem pixel_step (v : VgaController) (inside : v.InFrame) :
    (v.step false).pixel = (v.pixel + 1) % 420000 := by
  have horizontal := hCounterIn_toNat v inside
  have vertical := vCounterIn_toNat v inside
  rcases inside with ⟨low, high⟩
  simp only [pixel, step, Bool.false_eq_true, if_false, horizontal, vertical]
  split
  · split <;> omega
  · omega

end VgaController

def Pulses.all (pulse : Bool) : Pulses := ⟨pulse, pulse, fun _ => pulse⟩

namespace FrameClock

theorem synced_step (reset : Bool) (c : FrameClock) (synced : c.Synced) :
    (c.step reset).Synced := by
  rcases synced with ⟨goomba, coins⟩
  exact ⟨by simp [step, goomba], fun i => by simp [step, coins i]⟩

theorem synced_of_two (first second : Bool) (c : FrameClock) :
    ((c.step first).step second).Synced :=
  ⟨rfl, fun _ => rfl⟩

theorem pulses_of_synced (c : FrameClock) (synced : c.Synced) :
    c.pulses = Pulses.all c.marioEdge.rising := by
  rcases synced with ⟨goomba, coins⟩
  simp [pulses, Pulses.all, goomba, coins]

/-- The second of the two cycles in which the scan shows `(0, 0)`. -/
structure AtOrigin (rising : Bool) (c : FrameClock) : Prop where
  synced : c.Synced
  vgaClk : c.vgaClk = false
  horizontal : c.vga.hCounter = 0#10
  vertical : c.vga.vCounter = 0#10
  marioEdge : c.marioEdge = ⟨true, rising⟩

theorem AtOrigin.away {rising : Bool} {c : FrameClock} (origin : c.AtOrigin rising) :
    (c.vga.step false).frameClk = false := by
  have moved : (c.vga.step false).hCounter = 1#10 := by
    simp [VgaController.step, VgaController.hCounterIn, VgaController.hTotal, origin.horizontal]
  simp [VgaController.frameClk, moved]

/-- What holds `n` Clk cycles after the origin when no Reset comes in between. -/
structure AfterOrigin (n : Nat) (c : FrameClock) : Prop where
  synced : c.Synced
  vgaClk : c.vgaClk = decide (n % 2 = 1)
  inFrame : c.vga.InFrame
  pixel : c.vga.pixel = (n + 1) / 2 % 420000
  delayed : c.marioEdge.delayed = decide (n / 2 % 420000 = 0)

theorem AtOrigin.afterOrigin {rising : Bool} {c : FrameClock} (origin : c.AtOrigin rising) :
    c.AfterOrigin 0 where
  synced := origin.synced
  vgaClk := by simp [origin.vgaClk]
  inFrame := by simp [VgaController.InFrame, origin.horizontal, origin.vertical]
  pixel := by simp [VgaController.pixel, origin.horizontal, origin.vertical]
  delayed := by simp [origin.marioEdge]

theorem AfterOrigin.step {n : Nat} {c : FrameClock} (after : c.AfterOrigin n) :
    (c.step false).AfterOrigin (n + 1) where
  synced := synced_step false c after.synced
  vgaClk := by
    simp only [FrameClock.step, after.vgaClk, ← decide_not]
    apply decide_eq_decide.mpr
    omega
  inFrame := by
    simp only [FrameClock.step]
    split
    · exact after.inFrame
    · exact VgaController.inFrame_step _ after.inFrame
  pixel := by
    simp only [FrameClock.step, after.vgaClk, decide_eq_true_eq]
    split
    · rw [after.pixel]
      omega
    · rw [VgaController.pixel_step _ after.inFrame, after.pixel]
      omega
  delayed := by
    simp only [FrameClock.step, EdgeDetector.step_delayed]
    rw [Bool.eq_iff_iff, VgaController.frameClk_iff, after.pixel, decide_eq_true_eq]

theorem AfterOrigin.rising_step {n : Nat} {c : FrameClock} (after : c.AfterOrigin n) :
    (c.step false).marioEdge.rising =
      decide ((n + 1) / 2 % 420000 = 0 ∧ n / 2 % 420000 ≠ 0) := by
  simp only [FrameClock.step, EdgeDetector.step_rising, after.delayed]
  rw [Bool.eq_iff_iff, Bool.and_eq_true, VgaController.frameClk_iff, after.pixel]
  simp

theorem AfterOrigin.atOrigin {n : Nat} {c : FrameClock} (after : c.AfterOrigin n)
    (aligned : n % 840000 = 0) (rising : Bool) (edge : c.marioEdge.rising = rising) :
    c.AtOrigin rising where
  synced := after.synced
  vgaClk := by
    rw [after.vgaClk]
    apply decide_eq_false
    omega
  horizontal := by
    have zero : c.vga.pixel = 0 := by rw [after.pixel]; omega
    simp only [VgaController.pixel] at zero
    bv_omega
  vertical := by
    have zero : c.vga.pixel = 0 := by rw [after.pixel]; omega
    simp only [VgaController.pixel] at zero
    bv_omega
  marioEdge := by
    have delayed : c.marioEdge.delayed = true := by
      rw [after.delayed]
      apply decide_eq_true
      omega
    rcases hedge : c.marioEdge with ⟨first, second⟩
    simp only [hedge] at delayed edge
    rw [delayed, edge]

end FrameClock

section Runs

variable (board : Board) (start : Toplevel) (inputs : Nat → Input)

theorem run_synced (n : Nat) : (Toplevel.run board start inputs (n + 2)).clock.Synced :=
  FrameClock.synced_of_two _ _ _

theorem run_afterOrigin {rising : Bool} (origin : start.clock.AtOrigin rising) (n : Nat)
    (quiet : ∀ k, k < n → (Toplevel.run board start inputs k).game.resetH = false) :
    (Toplevel.run board start inputs n).clock.AfterOrigin n := by
  induction n with
  | zero => exact origin.afterOrigin
  | succ n ih =>
      rw [Toplevel.run_clock, quiet n (Nat.lt_succ_self n)]
      exact (ih (fun k bound => quiet k (Nat.lt_succ_of_lt bound))).step

theorem run_rising {rising : Bool} (origin : start.clock.AtOrigin rising) (n : Nat)
    (quiet : ∀ k, k < n + 1 → (Toplevel.run board start inputs k).game.resetH = false) :
    (Toplevel.run board start inputs (n + 1)).clock.marioEdge.rising =
      decide ((n + 1) / 2 % 420000 = 0 ∧ n / 2 % 420000 ≠ 0) := by
  have after := run_afterOrigin board start inputs origin n
    (fun k bound => quiet k (Nat.lt_succ_of_lt bound))
  rw [Toplevel.run_clock, quiet n (Nat.lt_succ_self n)]
  exact after.rising_step

theorem pulse_atOrigin (n : Nat)
    (pulse : (Toplevel.run board start inputs (n + 2)).clock.marioEdge.rising = true) :
    (Toplevel.run board start inputs (n + 2)).clock.AtOrigin true := by
  have later := run_synced board start inputs n
  generalize hfirst : Toplevel.run board start inputs n = first at *
  have second : (Toplevel.run board start inputs (n + 1)).clock =
      first.clock.step first.game.resetH := by rw [Toplevel.run_clock, hfirst]
  rw [Toplevel.run_clock, second] at pulse later ⊢
  generalize (Toplevel.run board start inputs (n + 1)).game.resetH = reset at *
  simp only [FrameClock.step, EdgeDetector.step_rising, EdgeDetector.step_delayed,
    Bool.and_eq_true, Bool.not_eq_true'] at pulse
  rcases pulse with ⟨now, before⟩
  -- The scan moved to the origin at the earlier edge, so `VGA_CLK` rose there.
  have moved : first.clock.vgaClk = false := by
    by_contra high
    rw [Bool.not_eq_false] at high
    rw [high, if_pos rfl, before] at now
    cases now
  refine ⟨later, ?_, ?_, ?_, ?_⟩
  · simp [FrameClock.step, moved]
  all_goals
    simp only [moved, VgaController.frameClk, decide_eq_true_eq, Bool.false_eq_true, if_false]
      at now before
    simp [FrameClock.step, moved, now, before, EdgeDetector.step, VgaController.frameClk]

end Runs

end FPGAMario
