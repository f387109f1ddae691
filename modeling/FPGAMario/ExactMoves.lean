import FPGAMario.JumpArc

/-! Mario's sums in ten bits: in the band of his positions none of them wraps, and two scrolls
lie at least twenty frames apart. -/

namespace FPGAMario

open Hdl

theorem add_toInt (position motion : BitVec 10) (low : 0 ≤ (position.toNat : Int) + motion.toInt)
    (high : (position.toNat : Int) + motion.toInt < 1024) :
    ((position + motion).toNat : Int) = position.toNat + motion.toInt := by
  rw [BitVec.toInt_eq_toNat_cond] at *
  split at low
  · bv_omega
  · bv_omega

namespace Mario

/-- The bounds Mario's position is compared with in a frame, and those of his sprite box. -/
structure ExactBounds (m : Mario) : Prop where
  ceiling : ((m.marioYPos - marioYSize).toNat : Int) = m.marioYPos.toNat - 20
  ground : ((m.marioYPos + marioYSize - 1#10).toNat : Int) = m.marioYPos.toNat + 20 - 1
  leftBound : ((marioXMin + marioXSize).toNat : Int) = 120 + 20
  rightBound : ((m.marioXPos + marioXSize).toNat : Int) = m.marioXPos.toNat + 20
  front : ((m.marioXPos.setWidth 32 + 21#32).toNat : Int) = m.marioXPos.toNat + 21
  middle : (((519#32 + 120#32) / 2#32).toNat : Int) = (519 + 120) / 2
  boxLeft : ((m.marioXPos - marioXSize).toNat : Int) = m.marioXPos.toNat - 20
  boxRight : ((m.marioXPos + marioXSize).toNat : Int) = m.marioXPos.toNat + 20
  boxTop : ((m.marioYPos - marioYSize).toNat : Int) = m.marioYPos.toNat - 20
  boxBottom : ((m.marioYPos + marioYSize).toNat : Int) = m.marioYPos.toNat + 20

/-- `verticalIn` with its comparisons between integers. -/
def exactVerticalIn (keycode : BitVec 16) (polls : MarioPolls) (m : Mario) : VerticalIn :=
  if keycode = keyW ∧ m.falling = false ∧ m.jumpCounter.toNat = 0 ∧ polls.up = 0#3 then
    { motion := ~~~marioYStep + 1#10, jumpCounter := 1#7, falling := m.falling,
      isJumping := true }
  else if 1 ≤ m.jumpCounter.toNat then
    if m.jumpCounter.toNat = 95 ∨ (m.marioYPos.toNat : Int) - 20 ≤ 40 ∨ polls.up ≠ 0#3 then
      { motion := marioYStep, jumpCounter := 0#7, falling := true, isJumping := true }
    else
      { motion := ~~~marioYStep + 1#10, jumpCounter := m.jumpCounter + 1#7,
        falling := m.falling, isJumping := true }
  else if 439 ≤ (m.marioYPos.toNat : Int) + 20 - 1 ∨ polls.down ≠ 0#3 then
    { motion := 0#10, jumpCounter := 0#7, falling := false, isJumping := false }
  else if m.falling = true ∨ polls.down = 0#3 then
    { motion := marioYStep, jumpCounter := m.jumpCounter, falling := true,
      isJumping := m.isJumping }
  else
    { motion := 0#10, jumpCounter := m.jumpCounter, falling := m.falling,
      isJumping := m.isJumping }

/-- `horizontalIn` with its comparisons between integers. -/
def exactHorizontalIn (keycode : BitVec 16) (polls : MarioPolls) (m : Mario) : HorizontalIn :=
  if keycode = keyA ∧ polls.left = 0#3 ∧ 120 + 20 ≤ (m.marioXPos.toNat : Int) then
    walkIn (~~~m.stride + 1#10) true m
  else if keycode = keyD ∧ polls.right = 0#3 ∧ (m.marioXPos.toNat : Int) + 20 ≤ 519 then
    walkIn m.stride false m
  else
    { motion := 0#10, direction := m.direction, runCounter := 0#2,
      runSpriteTimer := m.runSpriteTimer }

/-- Every guard of a frame, and the test of the sprite box, decides as over the integers. -/
structure ExactGuards (m : Mario) : Prop where
  vertical : ∀ keycode polls, verticalIn keycode polls m = exactVerticalIn keycode polls m
  horizontal : ∀ keycode polls, horizontalIn keycode polls m = exactHorizontalIn keycode polls m
  middle : m.PastMiddle ↔ (519 + 120) / 2 < (m.marioXPos.toNat : Int) + 21
  box : ∀ drawX drawY, m.IsMario drawX drawY ↔
    (m.marioXPos.toNat : Int) - 20 ≤ drawX.toNat ∧
      (drawX.toNat : Int) < m.marioXPos.toNat + 20 ∧
      (m.marioYPos.toNat : Int) - 20 ≤ drawY.toNat ∧ (drawY.toNat : Int) < m.marioYPos.toNat + 20

/-- The sums of a frame: the stride, the motions made of it, and the two positions. -/
structure ExactFrame (keycode : BitVec 16) (polls : MarioPolls) (m : Mario) : Prop where
  stride : (m.stride.toNat : Int) = 2 - (if m.isJumping then 1 else 0)
  leftMotion : (~~~m.stride + 1#10).toInt = -(m.stride.toNat : Int)
  upMotion : (~~~marioYStep + 1#10).toInt = -2
  yPos : ((m.frameStep keycode polls).marioYPos.toNat : Int) =
    m.marioYPos.toNat + (m.frameStep keycode polls).marioYMotion.toInt
  xPos : ((m.frameStep keycode polls).marioXPos.toNat : Int) =
    if m.PastMiddle then (m.marioXPos.toNat : Int) - 40
    else m.marioXPos.toNat + (m.frameStep keycode polls).marioXMotion.toInt

variable {m : Mario}

theorem InBand.exactBounds (band : m.InBand) : m.ExactBounds := by
  rcases band with ⟨left, right, -, top, bottom, -, -, -, -⟩
  constructor
  case leftBound => decide
  case middle => decide
  all_goals bv_omega

theorem ExactBounds.exactGuards (exact : m.ExactBounds) : m.ExactGuards := by
  have jump : m.jumpCounter = 0#7 ↔ m.jumpCounter.toNat = 0 := by bv_omega
  have rising : 1#7 ≤ m.jumpCounter ↔ 1 ≤ m.jumpCounter.toNat := by bv_omega
  have peak : m.jumpCounter = 95#7 ↔ m.jumpCounter.toNat = 95 := by bv_omega
  have ceiling : m.marioYPos - marioYSize ≤ marioYMin ↔ (m.marioYPos.toNat : Int) - 20 ≤ 40 := by
    rw [← exact.ceiling]
    bv_omega
  have ground : marioYMax ≤ m.marioYPos + marioYSize - 1#10 ↔
      439 ≤ (m.marioYPos.toNat : Int) + 20 - 1 := by
    rw [← exact.ground]
    bv_omega
  have left : marioXMin + marioXSize ≤ m.marioXPos ↔ 120 + 20 ≤ (m.marioXPos.toNat : Int) := by
    rw [← exact.leftBound]
    bv_omega
  have right : m.marioXPos + marioXSize ≤ marioXMax ↔ (m.marioXPos.toNat : Int) + 20 ≤ 519 := by
    rw [← exact.rightBound]
    bv_omega
  constructor
  case vertical =>
      intro keycode polls
      simp only [verticalIn, exactVerticalIn, jump, rising, peak, ceiling, ground]
  case horizontal =>
      intro keycode polls
      simp only [horizontalIn, exactHorizontalIn, left, right]
  case middle =>
      rw [PastMiddle, ← exact.front, ← exact.middle]
      bv_omega
  case box =>
      intro drawX drawY
      rw [IsMario, ← exact.boxLeft, ← exact.boxRight, ← exact.boxTop, ← exact.boxBottom]
      bv_omega

theorem stride_exact (m : Mario) :
    (m.stride.toNat : Int) = 2 - (if m.isJumping then 1 else 0) := by
  unfold stride
  cases m.isJumping <;> rfl

theorem leftMotion_exact (m : Mario) :
    (~~~m.stride + 1#10).toInt = -(m.stride.toNat : Int) := by
  rcases stride_cases m with stride | stride
  · rw [stride]
    rfl
  · rw [stride]
    rfl

theorem verticalIn_motion_bounds (keycode : BitVec 16) (polls : MarioPolls) (m : Mario) :
    -2 ≤ (verticalIn keycode polls m).motion.toInt ∧
      (verticalIn keycode polls m).motion.toInt ≤ 2 := by
  have vertical := verticalIn_step keycode polls m
  generalize verticalIn keycode polls m = step at *
  cases vertical <;> simp

theorem horizontalIn_motion_bounds (keycode : BitVec 16) (polls : MarioPolls) (m : Mario) :
    -2 ≤ (horizontalIn keycode polls m).motion.toInt ∧
      (horizontalIn keycode polls m).motion.toInt ≤ 2 := by
  have motion := horizontalIn_motion keycode polls m
  generalize (horizontalIn keycode polls m).motion = step at *
  rcases motion with rfl | ⟨-, rfl | rfl⟩ | rfl | rfl <;> decide

theorem InBand.exactFrame (band : m.InBand) (keycode : BitVec 16) (polls : MarioPolls) :
    m.ExactFrame keycode polls := by
  rcases band with ⟨left, right, -, top, bottom, -, -, -, -⟩
  refine ⟨stride_exact m, leftMotion_exact m, by decide, ?_, ?_⟩
  · have motion := verticalIn_motion_bounds keycode polls m
    exact add_toInt _ _ (by omega) (by omega)
  · have motion := horizontalIn_motion_bounds keycode polls m
    simp only [frameStep]
    split
    · bv_omega
    · exact add_toInt _ _ (by omega) (by omega)

section Runs

variable (start : Mario) (inputs : Nat → MarioInput)

def ShiftsAt (n : Nat) : Prop :=
  (runAlone start inputs n).shift (inputs n).frameClkRisingEdge = true

instance (n : Nat) : Decidable (ShiftsAt start inputs n) :=
  inferInstanceAs (Decidable (_ = _))

/-- Cycle `n` takes a frame step without `Shift`. -/
def PlainFrame (n : Nat) : Prop :=
  (inputs n).reset = false ∧ (inputs n).frameClkRisingEdge = true ∧ ¬ ShiftsAt start inputs n

instance : DecidablePred (PlainFrame start inputs) :=
  fun _ => inferInstanceAs (Decidable (_ ∧ _ ∧ _))

def plainFrames (first d : Nat) : Nat := Nat.count (fun k => PlainFrame start inputs (first + k)) d

theorem plainFrames_succ (first d : Nat) : plainFrames start inputs first (d + 1) =
    plainFrames start inputs first d + if PlainFrame start inputs (first + d) then 1 else 0 :=
  Nat.count_succ (fun k => PlainFrame start inputs (first + k)) d

theorem runAlone_frame_xPos (reset : (inputs 0).reset = true) (n : Nat)
    (running : (inputs n).reset = false) (pulse : (inputs n).frameClkRisingEdge = true) :
    (ShiftsAt start inputs n → (runAlone start inputs (n + 1)).marioXPos.toNat ≤ 260) ∧
      (¬ ShiftsAt start inputs n → (runAlone start inputs (n + 1)).marioXPos.toNat ≤
        (runAlone start inputs n).marioXPos.toNat + 2) := by
  obtain ⟨n, rfl⟩ : ∃ k, n = k + 1 := by
    apply Nat.exists_eq_succ_of_ne_zero
    rintro rfl
    rw [reset] at running
    contradiction
  have next : runAlone start inputs (n + 2) =
      frameStep (inputs (n + 1)).keycode (inputs (n + 1)).polls
        (runAlone start inputs (n + 1)) := clockStep_frame _ _ running pulse
  have band := runAlone_inBand start inputs reset n
  have right := band.right
  rcases frameStep_xPos (inputs (n + 1)).keycode (inputs (n + 1)).polls _ band with
    ⟨-, -, back, walked⟩
  rw [ShiftsAt, pulse, shift_eq_true, next]
  constructor
  · intro past
    rw [back past.2]
    omega
  · intro early
    exact (walked (Nat.lt_of_not_le fun past => early ⟨rfl, past⟩)).2

theorem runAlone_xPos_succ (reset : (inputs 0).reset = true) (n : Nat) :
    (ShiftsAt start inputs n → (runAlone start inputs (n + 1)).marioXPos.toNat ≤ 260) ∧
      (runAlone start inputs (n + 1)).marioXPos.toNat ≤
        max 260 ((runAlone start inputs n).marioXPos.toNat +
          if PlainFrame start inputs n then 2 else 0) := by
  have next : runAlone start inputs (n + 1) =
      clockStep (inputs n) (runAlone start inputs n) := rfl
  cases running : (inputs n).reset with
  | true =>
      rw [next, clockStep_reset _ _ running]
      have origin : resetValue.marioXPos.toNat ≤ 260 := by decide
      exact ⟨fun _ => origin, Nat.le_trans origin (Nat.le_max_left _ _)⟩
  | false =>
      cases pulse : (inputs n).frameClkRisingEdge with
      | false =>
          rw [next, clockStep_quiet _ _ running pulse]
          refine ⟨?_, Nat.le_trans (Nat.le_add_right _ _) (Nat.le_max_right _ _)⟩
          intro shifts
          rw [ShiftsAt, pulse] at shifts
          contradiction
      | true =>
          rcases runAlone_frame_xPos start inputs reset n running pulse with ⟨back, walked⟩
          refine ⟨back, ?_⟩
          by_cases shifts : ShiftsAt start inputs n
          · exact Nat.le_trans (back shifts) (Nat.le_max_left _ _)
          · have plain : PlainFrame start inputs n := ⟨running, pulse, shifts⟩
            rw [if_pos plain]
            exact Nat.le_trans (walked shifts) (Nat.le_max_right _ _)

theorem xPos_since_shift (reset : (inputs 0).reset = true) (i : Nat)
    (shifts : ShiftsAt start inputs i) (d : Nat) :
    (runAlone start inputs (i + 1 + d)).marioXPos.toNat ≤
      260 + 2 * plainFrames start inputs (i + 1) d := by
  induction d with
  | zero => exact Nat.le_trans ((runAlone_xPos_succ start inputs reset i).1 shifts) (by omega)
  | succ d ih =>
      have moved := (runAlone_xPos_succ start inputs reset (i + 1 + d)).2
      rw [plainFrames_succ]
      change (runAlone start inputs (i + 1 + d + 1)).marioXPos.toNat ≤ _
      split at moved
      · next plain =>
          rw [if_pos plain]
          omega
      · next other =>
          rw [if_neg other]
          omega

theorem plainFrames_between_shifts (reset : (inputs 0).reset = true) (i j : Nat)
    (first : ShiftsAt start inputs i) (second : ShiftsAt start inputs j) (ordered : i < j) :
    20 ≤ plainFrames start inputs (i + 1) (j - (i + 1)) := by
  have reached := xPos_since_shift start inputs reset i first (j - (i + 1))
  rw [Nat.add_sub_cancel' ordered] at reached
  have past := ((shift_eq_true _ _).mp second).2
  omega

/-- Mario keeps to his band, where none of his sums wraps and every guard decides as over the
integers, and two scrolls are twenty frame steps apart. -/
theorem moves_exact (reset : (inputs 0).reset = true) :
    (∀ n, (138 ≤ (runAlone start inputs (n + 1)).marioXPos.toNat ∧
        (runAlone start inputs (n + 1)).marioXPos.toNat ≤ 300) ∧
      (59 ≤ (runAlone start inputs (n + 1)).marioYPos.toNat ∧
        (runAlone start inputs (n + 1)).marioYPos.toNat ≤ 421 ∧
        (runAlone start inputs (n + 1)).marioYPos.toNat % 2 = 1) ∧
      (runAlone start inputs (n + 1)).ExactBounds ∧
      (runAlone start inputs (n + 1)).ExactGuards ∧
      ∀ keycode polls, (runAlone start inputs (n + 1)).ExactFrame keycode polls) ∧
    ∀ i j, ShiftsAt start inputs i → ShiftsAt start inputs j → i < j →
      20 ≤ plainFrames start inputs (i + 1) (j - (i + 1)) := by
  constructor
  · intro n
    have band := runAlone_inBand start inputs reset n
    exact ⟨⟨band.left, band.right⟩, ⟨band.top, band.bottom, band.odd⟩, band.exactBounds,
      band.exactBounds.exactGuards, band.exactFrame⟩
  · intro i j first second ordered
    exact plainFrames_between_shifts start inputs reset i j first second ordered

end Runs

def walkInput (n : Nat) : MarioInput where
  reset := decide (n = 0)
  frameClkRisingEdge := true
  keycode := keyD
  polls := { up := 0#3, down := 1#3, left := 0#3, right := 0#3 }

structure Walking (x : Nat) (m : Mario) : Prop where
  counter : m.jumpCounter = 0#7
  grounded : m.isJumping = false
  place : m.marioXPos.toNat = x

theorem walk_step (n : Nat) {x : Nat} (m : Mario) (walking : Walking x m) (bound : x ≤ 300) :
    Walking (if 299 ≤ x then x - 40 else x + 2) (clockStep (walkInput (n + 1)) m) := by
  have counter := walking.counter
  have grounded := walking.grounded
  have place := walking.place
  have vertical : verticalIn keyD (walkInput (n + 1)).polls m = ⟨0#10, 0#7, false, false⟩ := by
    have other : keyD ≠ keyW := by decide
    simp [verticalIn, walkInput, counter, other]
  have stride : m.stride = 2#10 := by
    rw [Mario.stride, grounded]
    rfl
  have room : m.marioXPos + marioXSize ≤ marioXMax := by bv_omega
  have horizontal : (horizontalIn keyD (walkInput (n + 1)).polls m).motion = 2#10 := by
    have other : ¬ (keyD = keyA ∧ (walkInput (n + 1)).polls.left = 0#3 ∧
        marioXMin + marioXSize ≤ m.marioXPos) := fun left => absurd left.1 (by decide)
    rw [horizontalIn, if_neg other, if_pos ⟨rfl, rfl, room⟩, walkIn_motion, stride]
  have next : clockStep (walkInput (n + 1)) m =
      frameStep keyD (walkInput (n + 1)).polls m := clockStep_frame _ _ rfl rfl
  rw [next]
  refine ⟨by rw [frameStep, vertical], by rw [frameStep, vertical], ?_⟩
  simp only [frameStep, horizontal, pastMiddle_iff, place]
  split <;> bv_omega

theorem walk_later (first x d : Nat) (begun : Walking x (runAlone resetValue walkInput (first + 1)))
    (bound : x + 2 * d ≤ 300) :
    Walking (x + 2 * d) (runAlone resetValue walkInput (first + 1 + d)) := by
  induction d with
  | zero => exact begun
  | succ d ih =>
      have walked := walk_step (first + d) _ (ih (by omega)) (by omega)
      rw [if_neg (by omega)] at walked
      have number : first + d + 1 = first + 1 + d := by omega
      rw [number] at walked
      exact walked

theorem moves_exact_walk : (walkInput 0).reset = true ∧
    ShiftsAt resetValue walkInput 81 ∧ ShiftsAt resetValue walkInput 102 ∧
    20 ≤ plainFrames resetValue walkInput 82 20 := by
  have reset : (walkInput 0).reset = true := by decide
  have begun : Walking 140 (runAlone resetValue walkInput 1) := ⟨rfl, rfl, rfl⟩
  have reached := walk_later 0 140 80 begun (by decide)
  have scrolled : Walking 260 (runAlone resetValue walkInput 82) :=
    walk_step 80 _ reached (by decide)
  have again := walk_later 81 260 20 scrolled (by decide)
  have first : ShiftsAt resetValue walkInput 81 :=
    (shift_eq_true _ _).mpr ⟨rfl, Nat.le_of_lt (Nat.lt_of_lt_of_eq (by decide) reached.place.symm)⟩
  have second : ShiftsAt resetValue walkInput 102 :=
    (shift_eq_true _ _).mpr ⟨rfl, Nat.le_of_lt (Nat.lt_of_lt_of_eq (by decide) again.place.symm)⟩
  exact ⟨reset, first, second,
    (moves_exact resetValue walkInput reset).2 81 102 first second (by decide)⟩

end Mario

end FPGAMario
