import FPGAMario.Restart

/-! What the game does to the video timing: two runs with the same `KEY[0]`, and the sync
pulses of one run. -/

namespace FPGAMario

open Hdl

namespace VgaController

structure SyncInPlace (v : VgaController) : Prop where
  horizontal : v.vgaHs = false → 656 ≤ v.hCounter.toNat ∧ v.hCounter.toNat < 752
  vertical : v.vgaVs = false → 490 ≤ v.vCounter.toNat ∧ v.vCounter.toNat < 492

/-- The scan goes on to the next pixel, with the sync pulses in place. -/
structure ScansOn (v next : VgaController) : Prop where
  hCounter : next.hCounter = v.hCounterIn
  vCounter : next.vCounter = v.vCounterIn
  inPlace : next.SyncInPlace

theorem step_false_inPlace (v : VgaController) : (v.step false).SyncInPlace := by
  constructor
  · intro low
    simp only [step, Bool.false_eq_true, if_false, Bool.not_eq_false', decide_eq_true_eq] at low
    exact low
  · intro low
    simp only [step, Bool.false_eq_true, if_false, Bool.not_eq_false', decide_eq_true_eq] at low
    exact low

theorem step_true_not_inPlace (v : VgaController) : ¬ (v.step true).SyncInPlace := by
  intro inPlace
  have bound := (inPlace.horizontal rfl).1
  change 656 ≤ 0 at bound
  omega

theorem step_scansOn_iff (v : VgaController) (reset : Bool) :
    v.ScansOn (v.step reset) ↔ reset = false := by
  cases reset with
  | false => exact iff_of_true ⟨rfl, rfl, v.step_false_inPlace⟩ rfl
  | true => exact iff_of_false (fun scans => v.step_true_not_inPlace scans.inPlace) (by decide)

theorem step_eq_iff (v : VgaController) (first second : Bool) :
    v.step first = v.step second ↔ first = second := by
  constructor
  · intro same
    rw [Bool.eq_iff_iff, ← not_iff_not, Bool.not_eq_true, Bool.not_eq_true,
      ← v.step_scansOn_iff, ← v.step_scansOn_iff, same]
  · intro same
    rw [same]

end VgaController

namespace Toplevel

abbrev video (s : Toplevel) : VgaController := s.clock.vga

section Run

variable (board : Board) (start : Toplevel) (inputs : Nat → Input)

theorem run_vgaClk (n : Nat) : (run board start inputs (n + 1)).clock.vgaClk =
    !(run board start inputs n).clock.vgaClk := rfl

theorem run_video (n : Nat) : (run board start inputs (n + 1)).video =
    if (run board start inputs n).clock.vgaClk then (run board start inputs n).video
    else (run board start inputs n).video.step (run board start inputs n).game.resetH := rfl

theorem run_resetH (n : Nat) : (run board start inputs (n + 1)).game.resetH =
    (!(inputs n).key0 || (run board start inputs n).game.goomba.killMario) := rfl

end Run

end Toplevel

section Peaceful

def emptyBoard : Board where
  levelMem _ := 0#36
  outside _ _ _ := 0#3

theorem emptyBoard_unmarked : emptyBoard.Unmarked := by
  intro a
  change (Game.control 0#36).getLsbD 0 = false
  decide

theorem peaceful_resetH (keys : List (BitVec 8)) (n : Nat) :
    (Toplevel.run emptyBoard (Toplevel.held graveBoard) (scriptInputs keys)
      (n + 2)).game.resetH = false :=
  unmarked_resetH emptyBoard_unmarked (Toplevel.held graveBoard) (scriptInputs keys) rfl n

theorem peaceful_inPlace (keys : List (BitVec 8)) (n : Nat) :
    (Toplevel.run emptyBoard (Toplevel.held graveBoard) (scriptInputs keys)
      (n + 4)).video.SyncInPlace := by
  have running := peaceful_resetH keys
  have last := Toplevel.run_video emptyBoard (Toplevel.held graveBoard) (scriptInputs keys) (n + 3)
  cases edge : (Toplevel.run emptyBoard (Toplevel.held graveBoard) (scriptInputs keys)
      (n + 3)).clock.vgaClk with
  | false =>
      rw [last, edge, running (n + 1)]
      exact VgaController.step_false_inPlace _
  | true =>
      have before : (Toplevel.run emptyBoard (Toplevel.held graveBoard) (scriptInputs keys)
          (n + 2)).clock.vgaClk = false := by
        rw [Toplevel.run_vgaClk, Bool.not_eq_true'] at edge
        exact edge
      rw [last, edge, if_pos rfl, Toplevel.run_video, before, running n]
      exact VgaController.step_false_inPlace _

end Peaceful

section Pair

variable (first second : Board) (start : Toplevel) (inputsFirst inputsSecond : Nat → Input)

theorem sameVgaClk (n : Nat) : (Toplevel.run second start inputsSecond n).clock.vgaClk =
    (Toplevel.run first start inputsFirst n).clock.vgaClk := by
  induction n with
  | zero => rfl
  | succ n ih => rw [Toplevel.run_vgaClk, Toplevel.run_vgaClk, ih]

/-- Same outputs as long as `VGA_CLK` samples the same Resets. -/
theorem sameVideo_iff_resets (n : Nat) :
    (∀ k, k ≤ n → (Toplevel.run first start inputsFirst k).video =
        (Toplevel.run second start inputsSecond k).video) ↔
      ∀ k, k < n → (Toplevel.run first start inputsFirst k).clock.vgaClk = false →
        (Toplevel.run first start inputsFirst k).game.resetH =
          (Toplevel.run second start inputsSecond k).game.resetH := by
  have clocks := sameVgaClk first second start inputsFirst inputsSecond
  constructor
  · intro same k bound edge
    have next := same (k + 1) bound
    rw [Toplevel.run_video, Toplevel.run_video, clocks, edge, same k bound.le] at next
    exact (VgaController.step_eq_iff _ _ _).mp next
  · intro resets k bound
    induction k with
    | zero => rfl
    | succ k ih =>
        have before := ih (Nat.le_of_succ_le bound)
        rw [Toplevel.run_video, Toplevel.run_video, clocks, before]
        cases edge : (Toplevel.run first start inputsFirst k).clock.vgaClk with
        | true => rfl
        | false => rw [resets k bound edge]

/-- `VGA_CLK` samples in cycle `n + 1` a Reset that only `kill_Mario` can cause. -/
def DeathSampled (n : Nat) : Prop :=
  (Toplevel.run first start inputsFirst (n + 1)).clock.vgaClk = false ∧
    (inputsFirst n).key0 = true

/-- The video outputs of two runs are the same, and the scan goes on, exactly as long as
`kill_Mario` is the same and low. -/
theorem video_timing_iff
    (sameKeys : ∀ k, (inputsFirst k).key0 = (inputsSecond k).key0) (n : Nat) :
    ((∀ k, k ≤ n → (Toplevel.run first start inputsFirst k).video =
        (Toplevel.run second start inputsSecond k).video) ↔
      ∀ k, k + 1 < n → DeathSampled first start inputsFirst k →
        (Toplevel.run first start inputsFirst k).game.goomba.killMario =
          (Toplevel.run second start inputsSecond k).game.goomba.killMario) ∧
    (DeathSampled first start inputsFirst n →
      ((Toplevel.run first start inputsFirst (n + 1)).video.ScansOn
          (Toplevel.run first start inputsFirst (n + 2)).video ↔
        (Toplevel.run first start inputsFirst n).game.goomba.killMario = false)) := by
  constructor
  · rw [sameVideo_iff_resets]
    constructor
    · intro resets k bound sampled
      have same := resets (k + 1) bound sampled.1
      rw [Toplevel.run_resetH, Toplevel.run_resetH, ← sameKeys k, sampled.2] at same
      exact same
    · intro kills k bound edge
      cases k with
      | zero => rfl
      | succ k =>
          rw [Toplevel.run_resetH, Toplevel.run_resetH, ← sameKeys k]
          cases key : (inputsFirst k).key0 with
          | false => rfl
          | true => exact kills k bound ⟨edge, key⟩
  · intro sampled
    rw [Toplevel.run_video first start inputsFirst (n + 1), sampled.1, Toplevel.run_resetH,
      sampled.2]
    exact VgaController.step_scansOn_iff _ _

end Pair

section Dying

theorem late_sampled : DeathSampled graveBoard (Toplevel.held graveBoard) (scriptInputs lateKeys)
    (scriptEnd lateKeys + 2) := by
  have later : (Toplevel.run graveBoard (Toplevel.held graveBoard) (scriptInputs lateKeys)
      (scriptEnd lateKeys + 5)).clock.vgaClk = false :=
    congrArg (fun s => s.clock.vgaClk) late_death.state_three
  rw [Toplevel.run_vgaClk, Toplevel.run_vgaClk, Bool.not_not] at later
  exact ⟨later, rfl⟩

/-- At a death on one level and in the same cycles of a game on the empty one. -/
theorem video_timing_iff_death :
    let start := Toplevel.held graveBoard
    let inputs := scriptInputs lateKeys
    let n := scriptEnd lateKeys + 2
    (Toplevel.run graveBoard start inputs n).game.goomba.killMario = true ∧
      (Toplevel.run emptyBoard start inputs n).game.goomba.killMario = false ∧
      DeathSampled graveBoard start inputs n ∧
      ((∀ k, k ≤ n + 2 → (Toplevel.run graveBoard start inputs k).video =
          (Toplevel.run emptyBoard start inputs k).video) ↔
        ∀ k, k + 1 < n + 2 → DeathSampled graveBoard start inputs k →
          (Toplevel.run graveBoard start inputs k).game.goomba.killMario =
            (Toplevel.run emptyBoard start inputs k).game.goomba.killMario) ∧
      (DeathSampled graveBoard start inputs n →
        ((Toplevel.run graveBoard start inputs (n + 1)).video.ScansOn
            (Toplevel.run graveBoard start inputs (n + 2)).video ↔
          (Toplevel.run graveBoard start inputs n).game.goomba.killMario = false)) := by
  intro start inputs n
  have keys (k : Nat) : (inputs k).key0 = (inputs k).key0 := rfl
  refine ⟨?_, ?_, late_sampled,
    (video_timing_iff graveBoard emptyBoard start inputs inputs keys (n + 2)).1,
    (video_timing_iff graveBoard emptyBoard start inputs inputs keys n).2⟩
  · exact late_death.raised.2
  · exact (run_peaceful emptyBoard_unmarked start inputs rfl (scriptEnd lateKeys + 1)).harmless

/-- Mario's death on one level restarts the scan, and on the empty level it goes on. -/
theorem death_restarts_scan : ¬ ∀ (first second : Board) (start : Toplevel)
    (inputsFirst inputsSecond : Nat → Input),
    (∀ k, (inputsFirst k).key0 = (inputsSecond k).key0) → ∀ n,
      (Toplevel.run first start inputsFirst n).video =
        (Toplevel.run second start inputsSecond n).video := by
  intro same
  have three := congrArg Toplevel.video late_death.state_three
  have equal := same graveBoard emptyBoard (Toplevel.held graveBoard) (scriptInputs lateKeys)
    (scriptInputs lateKeys) (fun _ => rfl) (scriptEnd lateKeys + 1 + 3 + 1)
  have position : scriptEnd lateKeys + 1 + 3 + 1 = scriptEnd lateKeys + 1 + 4 := rfl
  have inPlace := peaceful_inPlace lateKeys (scriptEnd lateKeys + 1)
  rw [position] at equal
  rw [← equal] at inPlace
  have reborn : (Toplevel.reborn graveBoard (deathColumn graveBoard (Toplevel.held graveBoard)
      (scriptInputs lateKeys) (scriptEnd lateKeys)) (deathScore graveBoard
        (Toplevel.held graveBoard) (scriptInputs lateKeys)
        (scriptEnd lateKeys))).video.SyncInPlace := three ▸ inPlace
  have bound := (reborn.horizontal rfl).1
  change 656 ≤ 0 at bound
  omega

end Dying

end FPGAMario
