import FPGAMario.FrameTiming

/-! The video timing in closed form: counters and sync outputs any number of `VGA_CLK` ticks after
a Reset. -/

namespace FPGAMario

open Hdl

namespace VgaController

/-- The counters show the pixel that comes `n` ticks after `(0, 0)`. -/
structure Counts (n : Nat) (v : VgaController) : Prop where
  drawX : v.hCounter.toNat = n % 800
  drawY : v.vCounter.toNat = n / 800 % 525

/-- The sync and blanking outputs belong to the pixel that the counters show. -/
structure OutputsInPlace (v : VgaController) : Prop where
  vgaHs : v.vgaHs = false ↔ 656 ≤ v.hCounter.toNat ∧ v.hCounter.toNat < 752
  vgaVs : v.vgaVs = false ↔ 490 ≤ v.vCounter.toNat ∧ v.vCounter.toNat < 492
  vgaBlankN : v.vgaBlankN = true ↔ v.hCounter.toNat < 640 ∧ v.vCounter.toNat < 480

theorem Counts.inFrame {n : Nat} {v : VgaController} (counts : v.Counts n) : v.InFrame := by
  have horizontal := counts.drawX
  have vertical := counts.drawY
  constructor <;> omega

theorem counts_reset (v : VgaController) : (v.step true).Counts 0 := ⟨rfl, rfl⟩

theorem Counts.step {n : Nat} {v : VgaController} (counts : v.Counts n) :
    (v.step false).Counts (n + 1) := by
  have horizontal := hCounterIn_toNat v counts.inFrame
  have vertical := vCounterIn_toNat v counts.inFrame
  rw [counts.drawX] at horizontal vertical
  rw [counts.drawY] at vertical
  constructor
  · change v.hCounterIn.toNat = (n + 1) % 800
    rw [horizontal]
    split <;> omega
  · change v.vCounterIn.toNat = (n + 1) / 800 % 525
    rw [vertical]
    split
    · split <;> omega
    · omega

theorem step_outputsInPlace (v : VgaController) : (v.step false).OutputsInPlace := by
  constructor
  · simp only [VgaController.step, Bool.false_eq_true, if_false, Bool.not_eq_false',
      decide_eq_true_eq]
    exact Iff.rfl
  · simp only [VgaController.step, Bool.false_eq_true, if_false, Bool.not_eq_false',
      decide_eq_true_eq]
    exact Iff.rfl
  · simp only [VgaController.step, Bool.false_eq_true, if_false, decide_eq_true_eq]
    exact Iff.rfl

section Ticks

variable (start : VgaController) (resets : Nat → Bool)

abbrev ticks : Nat → VgaController := run VgaController.step start resets

variable {start resets} {k : Nat}

theorem ticks_counts (reset : resets k = true) (n : Nat)
    (quiet : ∀ j, k < j → j ≤ k + n → resets j = false) :
    (ticks start resets (k + 1 + n)).Counts n := by
  induction n with
  | zero =>
      have first : ticks start resets (k + 1) = (ticks start resets k).step true := by
        rw [ticks, run_succ, reset]
      rw [Nat.add_zero, first]
      exact counts_reset _
  | succ n ih =>
      have before := ih (fun j above below => quiet j above (Nat.le_succ_of_le below))
      have next : ticks start resets (k + 1 + n + 1) =
          (ticks start resets (k + 1 + n)).step false := by
        rw [ticks, run_succ, quiet (k + 1 + n) (by omega) (by omega)]
      rw [← Nat.add_assoc, next]
      exact before.step

theorem ticks_outputsInPlace (n : Nat) (positive : 1 ≤ n) (quiet : resets (k + n) = false) :
    (ticks start resets (k + 1 + n)).OutputsInPlace := by
  obtain ⟨m, rfl⟩ : ∃ m, n = m + 1 := ⟨n - 1, by omega⟩
  have sample : k + (m + 1) = k + 1 + m := by omega
  have last : ticks start resets (k + 1 + (m + 1)) =
      (ticks start resets (k + 1 + m)).step false := by
    rw [← Nat.add_assoc, ticks, run_succ, ← sample, quiet]
  rw [last]
  exact step_outputsInPlace _

end Ticks

/-- `n` ticks after a Reset, with none since, the counters are the remainder and the quotient of
`n`, and the three outputs belong to them. -/
theorem vga_timing_exact (start : VgaController) (resets : Nat → Bool) (k n : Nat)
    (reset : resets k = true) (quiet : ∀ j, k < j → j ≤ k + n → resets j = false)
    (positive : 1 ≤ n) :
    (ticks start resets (k + 1 + n)).Counts n ∧
      (ticks start resets (k + 1 + n)).OutputsInPlace :=
  ⟨ticks_counts reset n quiet,
    ticks_outputsInPlace n positive (quiet (k + n) (by omega) (Nat.le_refl _))⟩

def scrambled : VgaController := ⟨true, false, true, 1000#10, 600#10⟩

theorem vga_timing_exact_scrambled :
    (ticks scrambled (fun k => decide (k = 2)) (2 + 1 + 420801)).Counts 420801 ∧
      (ticks scrambled (fun k => decide (k = 2)) (2 + 1 + 420801)).OutputsInPlace :=
  vga_timing_exact scrambled (fun k => decide (k = 2)) 2 420801 rfl
    (fun j above _ => decide_eq_false (by omega)) (by decide)

end VgaController

section Runs

variable (board : Board) (start : Toplevel) (inputs : Nat → Input)

def tickResets (first k : Nat) : Bool :=
  (Toplevel.run board start inputs (first + 2 * k)).game.resetH

theorem run_ticks (first : Nat)
    (low : (Toplevel.run board start inputs first).clock.vgaClk = false) (n : Nat) :
    (Toplevel.run board start inputs (first + 2 * n)).clock.vgaClk = false ∧
      (Toplevel.run board start inputs (first + 2 * n)).clock.vga =
        VgaController.ticks (Toplevel.run board start inputs first).clock.vga
          (tickResets board start inputs first) n := by
  induction n with
  | zero => exact ⟨low, rfl⟩
  | succ n ih =>
      have next : first + 2 * (n + 1) = first + 2 * n + 1 + 1 := by omega
      rw [next, Toplevel.run_clock, Toplevel.run_clock]
      simp only [FrameClock.step, ih.1, Bool.not_false, Bool.not_true, if_true,
        Bool.false_eq_true, if_false, true_and]
      rw [ih.2, VgaController.ticks, run_succ]
      rfl

end Runs

end FPGAMario
