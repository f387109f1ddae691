import FPGAMario.MarioBand
import FPGAMario.Toplevel

/-! Mario on his own, under any keys and any blocks: every jump is one arc, and his position
stays in its band. -/

namespace FPGAMario

open Hdl

structure MarioInput where
  reset : Bool
  frameClkRisingEdge : Bool
  keycode : BitVec 16
  polls : MarioPolls
  deriving DecidableEq, Repr

namespace Mario

def BeginsJump (keycode : BitVec 16) (polls : MarioPolls) (m : Mario) : Prop :=
  keycode = keyW ∧ m.falling = false ∧ m.jumpCounter = 0#7 ∧ polls.up = 0#3

instance (keycode : BitVec 16) (polls : MarioPolls) (m : Mario) :
    Decidable (BeginsJump keycode polls m) :=
  inferInstanceAs (Decidable (_ ∧ _ ∧ _ ∧ _))

def Supported (keycode : BitVec 16) (polls : MarioPolls) (m : Mario) : Prop :=
  ¬ BeginsJump keycode polls m ∧ ¬ 1#7 ≤ m.jumpCounter ∧
    (marioYMax ≤ m.marioYPos + marioYSize - 1#10 ∨ polls.down ≠ 0#3)

instance (keycode : BitVec 16) (polls : MarioPolls) (m : Mario) :
    Decidable (Supported keycode polls m) :=
  inferInstanceAs (Decidable (_ ∧ _ ∧ _))

/-- What a frame does to Mario's height, and in which branch. -/
inductive Moves (keycode : BitVec 16) (polls : MarioPolls) (m after : Mario) : Prop
  | begins (jump : BeginsJump keycode polls m) (counter : after.jumpCounter = 1#7)
      (falling : after.falling = false)
      (height : after.marioYPos.toNat + 2 = m.marioYPos.toNat)
  | rises (unbegun : ¬ BeginsJump keycode polls m) (unsupported : ¬ Supported keycode polls m)
      (up : m.jumpCounter ≠ 0#7) (short : m.jumpCounter ≠ 95#7)
      (counter : after.jumpCounter = m.jumpCounter + 1#7) (falling : after.falling = m.falling)
      (height : after.marioYPos.toNat + 2 = m.marioYPos.toNat)
  | turns (unbegun : ¬ BeginsJump keycode polls m) (unsupported : ¬ Supported keycode polls m)
      (up : m.jumpCounter ≠ 0#7) (counter : after.jumpCounter = 0#7)
      (falling : after.falling = true)
      (height : after.marioYPos.toNat = m.marioYPos.toNat + 2)
  | stands (supported : Supported keycode polls m) (counter : after.jumpCounter = 0#7)
      (falling : after.falling = false) (height : after.marioYPos = m.marioYPos)
  | falls (unbegun : ¬ BeginsJump keycode polls m) (unsupported : ¬ Supported keycode polls m)
      (still : m.jumpCounter = 0#7) (counter : after.jumpCounter = 0#7)
      (falling : after.falling = true)
      (height : after.marioYPos.toNat = m.marioYPos.toNat + 2)

theorem frameStep_moves (keycode : BitVec 16) (polls : MarioPolls) (m : Mario)
    (band : m.InBand) : Moves keycode polls m (frameStep keycode polls m) := by
  have low := band.notRising
  have high := band.rising
  have height := frameStep_marioYPos keycode polls m
  have counter := frameStep_jumpCounter keycode polls m
  have falling := frameStep_falling keycode polls m
  generalize frameStep keycode polls m = after at *
  unfold verticalIn at height counter falling
  by_cases jump : keycode = keyW ∧ m.falling = false ∧ m.jumpCounter = 0#7 ∧ polls.up = 0#3
  · rw [if_pos jump] at height counter falling
    have above := low jump.2.2.1
    refine .begins jump counter (falling.trans jump.2.1) ?_
    rw [height]
    bv_omega
  rw [if_neg jump] at height counter falling
  by_cases up : 1#7 ≤ m.jumpCounter
  · have rising : m.jumpCounter ≠ 0#7 := by bv_omega
    have unsupported : ¬ Supported keycode polls m := fun supported => supported.2.1 up
    rw [if_pos up] at height counter falling
    by_cases stop : m.jumpCounter = 95#7 ∨ m.marioYPos - marioYSize ≤ marioYMin ∨
        polls.up ≠ 0#3
    · rw [if_pos stop] at height counter falling
      have below := high rising
      refine .turns jump unsupported rising counter falling ?_
      rw [height]
      bv_omega
    · rw [if_neg stop] at height counter falling
      simp only [not_or, not_not] at stop
      refine .rises jump unsupported rising stop.1 counter falling ?_
      have top := band.top
      rw [height]
      bv_omega
  · have still : m.jumpCounter = 0#7 := by bv_omega
    rw [if_neg up] at height counter falling
    by_cases support : marioYMax ≤ m.marioYPos + marioYSize - 1#10 ∨ polls.down ≠ 0#3
    · rw [if_pos support] at height counter falling
      exact .stands ⟨jump, up, support⟩ counter falling (by rw [height]; exact BitVec.add_zero _)
    · rw [if_neg support] at height counter falling
      have unsupported : ¬ Supported keycode polls m := fun supported => support supported.2.2
      simp only [not_or, not_not] at support
      rw [if_pos (Or.inr support.2)] at height counter falling
      have room : ¬ 439#10 ≤ m.marioYPos + 20#10 - 1#10 := support.1
      have bottom := band.bottom
      refine .falls jump unsupported still (counter.trans still) falling ?_
      rw [height]
      bv_omega

def clockStep (input : MarioInput) (m : Mario) : Mario :=
  m.step input.reset input.frameClkRisingEdge input.keycode input.polls

theorem clockStep_reset (input : MarioInput) (m : Mario) (reset : input.reset = true) :
    clockStep input m = resetValue := if_pos reset

theorem clockStep_frame (input : MarioInput) (m : Mario) (running : input.reset = false)
    (pulse : input.frameClkRisingEdge = true) :
    clockStep input m = frameStep input.keycode input.polls m := by
  rw [clockStep, step, running, pulse]
  rfl

theorem clockStep_quiet (input : MarioInput) (m : Mario) (running : input.reset = false)
    (quiet : input.frameClkRisingEdge = false) :
    clockStep input m = { m with marioXMotion := 0#10, marioYMotion := 0#10 } := by
  rw [clockStep, step, running, quiet]
  rfl

section Runs

variable (start : Mario) (inputs : Nat → MarioInput)

abbrev runAlone : Nat → Mario := run clockStep start inputs

def StartsAt (n : Nat) : Prop :=
  (inputs n).reset = false ∧ (inputs n).frameClkRisingEdge = true ∧
    BeginsJump (inputs n).keycode (inputs n).polls (runAlone start inputs n)

/-- Cycle `n` resets Mario, or its frame finds him on the ground or on a block. -/
def LandsAt (n : Nat) : Prop :=
  (inputs n).reset = true ∨ ((inputs n).frameClkRisingEdge = true ∧
    Supported (inputs n).keycode (inputs n).polls (runAlone start inputs n))

instance (n : Nat) : Decidable (StartsAt start inputs n) :=
  inferInstanceAs (Decidable (_ ∧ _ ∧ _))

instance (n : Nat) : Decidable (LandsAt start inputs n) :=
  inferInstanceAs (Decidable (_ ∨ _ ∧ _))

theorem runAlone_inBand (reset : (inputs 0).reset = true) (n : Nat) :
    (runAlone start inputs (n + 1)).InBand := by
  induction n with
  | zero =>
      have begun : runAlone start inputs 1 = resetValue :=
        clockStep_reset (inputs 0) start reset
      rw [begun]
      exact resetValue_inBand
  | succ n ih => exact step_inBand _ _ _ _ _ ih

inductive Cycle (n : Nat) (m after : Mario) : Prop
  | reset (lands : LandsAt start inputs n) (unstarted : ¬ StartsAt start inputs n)
      (begun : after = resetValue)
  | quiet (unlanded : ¬ LandsAt start inputs n) (unstarted : ¬ StartsAt start inputs n)
      (counter : after.jumpCounter = m.jumpCounter) (falling : after.falling = m.falling)
      (height : after.marioYPos = m.marioYPos)
  | frame (landed : LandsAt start inputs n ↔ Supported (inputs n).keycode (inputs n).polls m)
      (started : StartsAt start inputs n ↔ BeginsJump (inputs n).keycode (inputs n).polls m)
      (moves : Moves (inputs n).keycode (inputs n).polls m after)

theorem runAlone_cycle (n : Nat) (band : (runAlone start inputs n).InBand) :
    Cycle start inputs n (runAlone start inputs n) (runAlone start inputs (n + 1)) := by
  have next : runAlone start inputs (n + 1) =
      clockStep (inputs n) (runAlone start inputs n) := rfl
  cases reset : (inputs n).reset with
  | true =>
      rw [clockStep_reset _ _ reset] at next
      refine .reset (Or.inl reset) ?_ next
      intro started
      rw [started.1] at reset
      contradiction
  | false =>
      cases pulse : (inputs n).frameClkRisingEdge with
      | false =>
          rw [clockStep_quiet _ _ reset pulse] at next
          refine .quiet ?_ ?_ (by rw [next]) (by rw [next]) (by rw [next])
          · simp [LandsAt, reset, pulse]
          · simp [StartsAt, pulse]
      | true =>
          rw [clockStep_frame _ _ reset pulse] at next
          refine .frame ?_ ?_ ?_
          · simp [LandsAt, reset, pulse]
          · simp [StartsAt, reset, pulse]
          · rw [next]
            exact frameStep_moves _ _ _ band

/-- Where Mario is on the arc of his jump before cycle `n`: as high as where he last landed,
two pixels above it for every count of the jump, or on his way down. -/
inductive Arc (n : Nat) (m : Mario) : Prop
  | grounded (landing : Nat) (last : LastBefore (LandsAt start inputs) n landing)
      (still : m.jumpCounter = 0#7) (level : m.falling = false)
      (height : m.marioYPos = (runAlone start inputs (landing + 1)).marioYPos)
  | rising (landing jump : Nat) (last : LastBefore (LandsAt start inputs) n landing)
      (since : LastBefore (StartsAt start inputs) n jump) (ordered : landing < jump)
      (up : m.jumpCounter ≠ 0#7)
      (ground : (runAlone start inputs jump).marioYPos =
        (runAlone start inputs (landing + 1)).marioYPos)
      (height : m.marioYPos.toNat + 2 * m.jumpCounter.toNat =
        (runAlone start inputs jump).marioYPos.toNat)
  | falling (landing : Nat) (last : LastBefore (LandsAt start inputs) n landing)
      (still : m.jumpCounter = 0#7) (down : m.falling = true)
      (height : (runAlone start inputs (landing + 1)).marioYPos.toNat ≤
        m.marioYPos.toNat + 190)

theorem Arc.landed (n : Nat) (lands : LandsAt start inputs n)
    (still : (runAlone start inputs (n + 1)).jumpCounter = 0#7)
    (level : (runAlone start inputs (n + 1)).falling = false) :
    Arc start inputs (n + 1) (runAlone start inputs (n + 1)) :=
  .grounded n (.here lands) still level rfl

theorem Arc.jump (n : Nat) (arc : Arc start inputs n (runAlone start inputs n))
    (started : StartsAt start inputs n) (unlanded : ¬ LandsAt start inputs n)
    (counter : (runAlone start inputs (n + 1)).jumpCounter = 1#7)
    (height : (runAlone start inputs (n + 1)).marioYPos.toNat + 2 =
      (runAlone start inputs n).marioYPos.toNat) :
    Arc start inputs (n + 1) (runAlone start inputs (n + 1)) := by
  have begins := started.2.2
  cases arc with
  | grounded landing last still level ground =>
      refine .rising landing n (last.later unlanded) (.here started) last.before ?_ ground ?_
      · rw [counter]
        decide
      · rw [counter]
        exact height
  | rising landing jump last since ordered up ground before =>
      exact absurd begins.2.2.1 up
  | falling landing last still down before =>
      rw [begins.2.1] at down
      contradiction

theorem Arc.rise (n : Nat) (band : (runAlone start inputs n).InBand)
    (arc : Arc start inputs n (runAlone start inputs n))
    (unstarted : ¬ StartsAt start inputs n) (unlanded : ¬ LandsAt start inputs n)
    (up : (runAlone start inputs n).jumpCounter ≠ 0#7)
    (counter : (runAlone start inputs (n + 1)).jumpCounter =
      (runAlone start inputs n).jumpCounter + 1#7)
    (height : (runAlone start inputs (n + 1)).marioYPos.toNat + 2 =
      (runAlone start inputs n).marioYPos.toNat) :
    Arc start inputs (n + 1) (runAlone start inputs (n + 1)) := by
  have bound := band.counter
  cases arc with
  | grounded landing last still level ground => exact absurd still up
  | rising landing jump last since ordered up ground before =>
      refine .rising landing jump (last.later unlanded) (since.later unstarted) ordered ?_
        ground ?_
      · rw [counter]
        bv_omega
      · rw [counter]
        bv_omega
  | falling landing last still down before => exact absurd still up

theorem Arc.fall (n : Nat) (band : (runAlone start inputs n).InBand)
    (arc : Arc start inputs n (runAlone start inputs n)) (unlanded : ¬ LandsAt start inputs n)
    (still : (runAlone start inputs (n + 1)).jumpCounter = 0#7)
    (down : (runAlone start inputs (n + 1)).falling = true)
    (height : (runAlone start inputs (n + 1)).marioYPos.toNat =
      (runAlone start inputs n).marioYPos.toNat + 2) :
    Arc start inputs (n + 1) (runAlone start inputs (n + 1)) := by
  have bound := band.counter
  cases arc with
  | grounded landing last _ level ground =>
      refine .falling landing (last.later unlanded) still down ?_
      rw [← ground]
      omega
  | rising landing jump last since ordered up ground before =>
      refine .falling landing (last.later unlanded) still down ?_
      rw [← ground]
      omega
  | falling landing last _ _ before =>
      exact .falling landing (last.later unlanded) still down (by omega)

theorem Arc.quiet (n : Nat) (arc : Arc start inputs n (runAlone start inputs n))
    (unstarted : ¬ StartsAt start inputs n) (unlanded : ¬ LandsAt start inputs n)
    (counter : (runAlone start inputs (n + 1)).jumpCounter =
      (runAlone start inputs n).jumpCounter)
    (falling : (runAlone start inputs (n + 1)).falling = (runAlone start inputs n).falling)
    (height : (runAlone start inputs (n + 1)).marioYPos =
      (runAlone start inputs n).marioYPos) :
    Arc start inputs (n + 1) (runAlone start inputs (n + 1)) := by
  cases arc with
  | grounded landing last still level ground =>
      exact .grounded landing (last.later unlanded) (counter.trans still)
        (falling.trans level) (height.trans ground)
  | rising landing jump last since ordered up ground before =>
      refine .rising landing jump (last.later unlanded) (since.later unstarted) ordered ?_
        ground ?_
      · rw [counter]
        exact up
      · rw [counter, height]
        exact before
  | falling landing last still down before =>
      refine .falling landing (last.later unlanded) (counter.trans still)
        (falling.trans down) ?_
      rw [height]
      exact before

theorem runAlone_arc (reset : (inputs 0).reset = true) (n : Nat) :
    Arc start inputs (n + 1) (runAlone start inputs (n + 1)) := by
  induction n with
  | zero =>
      have begun : runAlone start inputs 1 = resetValue :=
        clockStep_reset (inputs 0) start reset
      refine .landed start inputs 0 (Or.inl reset) ?_ ?_
      · rw [begun]
        rfl
      · rw [begun]
        rfl
  | succ n ih =>
      have band := runAlone_inBand start inputs reset n
      cases runAlone_cycle start inputs (n + 1) band with
      | reset lands unstarted begun =>
          refine .landed start inputs (n + 1) lands ?_ ?_
          · rw [begun]
            rfl
          · rw [begun]
            rfl
      | quiet unlanded unstarted counter falling height =>
          exact .quiet start inputs (n + 1) ih unstarted unlanded counter falling height
      | frame landed started moves =>
          cases moves with
          | begins jump counter falling height =>
              have unlanded : ¬ LandsAt start inputs (n + 1) :=
                fun lands => (landed.mp lands).1 jump
              exact .jump start inputs (n + 1) ih (started.mpr jump) unlanded counter height
          | rises unbegun unsupported up short counter falling height =>
              exact .rise start inputs (n + 1) band ih (mt started.mp unbegun)
                (mt landed.mp unsupported) up counter height
          | turns unbegun unsupported up counter falling height =>
              exact .fall start inputs (n + 1) band ih (mt landed.mp unsupported) counter
                falling height
          | stands supported counter falling height =>
              exact .landed start inputs (n + 1) (landed.mpr supported) counter falling
          | falls unbegun unsupported still counter falling height =>
              exact .fall start inputs (n + 1) band ih (mt landed.mp unsupported) counter
                falling height

def Armed (n : Nat) : Prop :=
  (runAlone start inputs n).falling = false ∧ (runAlone start inputs n).jumpCounter = 0#7

theorem started_disarms (reset : (inputs 0).reset = true) (n : Nat)
    (started : StartsAt start inputs (n + 1)) : ¬ Armed start inputs (n + 2) := by
  have band := runAlone_inBand start inputs reset n
  intro armed
  cases runAlone_cycle start inputs (n + 1) band with
  | reset lands unstarted begun => exact unstarted started
  | quiet unlanded unstarted counter falling height => exact unstarted started
  | frame landed jumps moves =>
      have jump := jumps.mp started
      cases moves with
      | begins _ counter falling height =>
          have one : (1#7 : BitVec 7) = 0#7 := counter.symm.trans armed.2
          exact absurd one (by decide)
      | rises unbegun => exact unbegun jump
      | turns unbegun => exact unbegun jump
      | stands supported => exact supported.1 jump
      | falls unbegun => exact unbegun jump

theorem rearmed_lands (reset : (inputs 0).reset = true) (n : Nat)
    (disarmed : ¬ Armed start inputs (n + 1)) (unlanded : ¬ LandsAt start inputs (n + 1)) :
    ¬ Armed start inputs (n + 2) := by
  have band := runAlone_inBand start inputs reset n
  have bound := band.counter
  intro armed
  cases runAlone_cycle start inputs (n + 1) band with
  | reset lands unstarted begun => exact unlanded lands
  | quiet _ unstarted counter falling height =>
      exact disarmed ⟨falling.symm.trans armed.1, counter.symm.trans armed.2⟩
  | frame landed jumps moves =>
      cases moves with
      | begins jump counter falling height => exact disarmed ⟨jump.2.1, jump.2.2.1⟩
      | rises unbegun unsupported up short counter falling height =>
          have zero := counter.symm.trans armed.2
          bv_omega
      | turns unbegun unsupported up counter falling height =>
          exact absurd (falling.symm.trans armed.1) (by decide)
      | stands supported counter falling height => exact unlanded (landed.mpr supported)
      | falls unbegun unsupported still counter falling height =>
          exact absurd (falling.symm.trans armed.1) (by decide)

theorem landing_between_starts (reset : (inputs 0).reset = true) (first second : Nat)
    (left : StartsAt start inputs first) (right : StartsAt start inputs second)
    (ordered : first < second) :
    ∃ k, first < k ∧ k < second ∧ LandsAt start inputs k := by
  have later : ∀ k, StartsAt start inputs k → k ≠ 0 := by
    rintro k started rfl
    rw [started.1] at reset
    contradiction
  obtain ⟨n, rfl⟩ := Nat.exists_eq_succ_of_ne_zero (later first left)
  refine start_between (Armed start inputs) (LandsAt start inputs) (n + 2) second ordered ?_
    (started_disarms start inputs reset n left) ⟨right.2.2.2.1, right.2.2.2.2.1⟩
  intro k bound disarmed unlanded
  obtain ⟨k, rfl⟩ := Nat.exists_eq_add_of_le' (Nat.le_of_succ_le bound)
  exact rearmed_lands start inputs reset (k + n) disarmed unlanded

structure OneArc (n : Nat) : Prop where
  counter : (runAlone start inputs n).jumpCounter.toNat ≤ 95
  exclusive : ¬ ((runAlone start inputs n).falling = true ∧
    1 ≤ (runAlone start inputs n).jumpCounter.toNat)
  height : 1 ≤ (runAlone start inputs n).jumpCounter.toNat →
    ∃ landing jump, LastBefore (LandsAt start inputs) n landing ∧
      LastBefore (StartsAt start inputs) n jump ∧ landing < jump ∧
      (runAlone start inputs jump).marioYPos =
        (runAlone start inputs (landing + 1)).marioYPos ∧
      (runAlone start inputs n).marioYPos.toNat +
          2 * (runAlone start inputs n).jumpCounter.toNat =
        (runAlone start inputs jump).marioYPos.toNat
  above : ∃ landing, LastBefore (LandsAt start inputs) n landing ∧
    (runAlone start inputs (landing + 1)).marioYPos.toNat ≤
      (runAlone start inputs n).marioYPos.toNat + 190

theorem Arc.oneArc (n : Nat) (band : (runAlone start inputs n).InBand)
    (arc : Arc start inputs n (runAlone start inputs n)) : OneArc start inputs n := by
  have bound := band.counter
  refine ⟨bound, ?_, ?_, ?_⟩
  · rintro ⟨down, up⟩
    have level := band.notFalling (by bv_omega)
    rw [level] at down
    contradiction
  · intro up
    cases arc with
    | grounded landing last still level ground => bv_omega
    | rising landing jump last since ordered _ ground height =>
        exact ⟨landing, jump, last, since, ordered, ground, height⟩
    | falling landing last still down height => bv_omega
  · cases arc with
    | grounded landing last still level ground =>
        refine ⟨landing, last, ?_⟩
        rw [← ground]
        exact Nat.le_add_right _ 190
    | rising landing jump last since ordered up ground height =>
        refine ⟨landing, last, ?_⟩
        rw [← ground]
        omega
    | falling landing last still down height => exact ⟨landing, last, height⟩

/-- Every jump is one bounded arc. -/
theorem jump_one_arc (reset : (inputs 0).reset = true) :
    (∀ n, OneArc start inputs (n + 1)) ∧
      ∀ first second, StartsAt start inputs first → StartsAt start inputs second →
        first < second → ∃ k, first < k ∧ k < second ∧ LandsAt start inputs k := by
  constructor
  · intro n
    exact (runAlone_arc start inputs reset n).oneArc start inputs (n + 1)
      (runAlone_inBand start inputs reset n)
  · intro first second left right ordered
    exact landing_between_starts start inputs reset first second left right ordered

end Runs

def hopInput (n : Nat) : MarioInput where
  reset := decide (n = 0)
  frameClkRisingEdge := true
  keycode := keyW
  polls :=
    { up := if n = 2 then 1#3 else 0#3, down := if n = 3 then 1#3 else 0#3, left := 0#3,
      right := 0#3 }

theorem jump_one_arc_hop : (hopInput 0).reset = true ∧ OneArc resetValue hopInput 2 ∧
    StartsAt resetValue hopInput 1 ∧ StartsAt resetValue hopInput 4 ∧
    ∃ k, 1 < k ∧ k < 4 ∧ LandsAt resetValue hopInput k := by
  have reset : (hopInput 0).reset = true := by decide
  have first : StartsAt resetValue hopInput 1 := by decide
  have second : StartsAt resetValue hopInput 4 := by decide
  have arcs := jump_one_arc resetValue hopInput reset
  exact ⟨reset, arcs.1 1, first, second, arcs.2 1 4 first second (by decide)⟩

end Mario

namespace Toplevel

def marioInput (board : Board) (start : Toplevel) (inputs : Nat → Input) (n : Nat) :
    MarioInput where
  reset := (run board start inputs n).game.resetH
  frameClkRisingEdge := (run board start inputs n).clock.pulses.mario
  keycode := (inputs n).keycode.setWidth 16
  polls := (run board start inputs n).game.marioPolls board

/-- The Mario of the game runs as he does on his own. -/
theorem run_mario (board : Board) (start : Toplevel) (inputs : Nat → Input) (n : Nat) :
    (run board start inputs n).game.mario =
      Mario.runAlone start.game.mario (marioInput board start inputs) n := by
  induction n with
  | zero => rfl
  | succ n ih =>
      rw [run_game, Game.step_mario, Mario.runAlone, run_succ, ← Mario.runAlone, ← ih]
      rfl

end Toplevel

end FPGAMario
