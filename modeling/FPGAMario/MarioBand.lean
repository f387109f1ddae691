import FPGAMario.Mario

/-! Where Mario can be: the band his position keeps from Reset on, whatever the keys and the
blocks around him. -/

namespace FPGAMario

namespace Mario

inductive VerticalStep (polls : MarioPolls) (m : Mario) : VerticalIn → Prop
  | jump (grounded : m.falling = false) (counter : m.jumpCounter = 0#7) (above : polls.up = 0#3) :
      VerticalStep polls m ⟨1022#10, 1#7, m.falling, true⟩
  | ceiling (counter : m.jumpCounter ≠ 0#7) :
      VerticalStep polls m ⟨2#10, 0#7, true, true⟩
  | rise (counter : m.jumpCounter ≠ 0#7) (short : m.jumpCounter ≠ 95#7)
      (room : ¬ m.marioYPos - 20#10 ≤ 40#10) (above : polls.up = 0#3) :
      VerticalStep polls m ⟨1022#10, m.jumpCounter + 1#7, m.falling, true⟩
  | support (counter : m.jumpCounter = 0#7)
      (below : 439#10 ≤ m.marioYPos + 20#10 - 1#10 ∨ polls.down ≠ 0#3) :
      VerticalStep polls m ⟨0#10, 0#7, false, false⟩
  | fall (counter : m.jumpCounter = 0#7) (room : ¬ 439#10 ≤ m.marioYPos + 20#10 - 1#10)
      (below : polls.down = 0#3) :
      VerticalStep polls m ⟨2#10, 0#7, true, m.isJumping⟩

theorem verticalIn_step (keycode : BitVec 16) (polls : MarioPolls) (m : Mario) :
    VerticalStep polls m (verticalIn keycode polls m) := by
  unfold verticalIn
  by_cases jump : keycode = keyW ∧ m.falling = false ∧ m.jumpCounter = 0#7 ∧ polls.up = 0#3
  · rw [if_pos jump]
    exact .jump jump.2.1 jump.2.2.1 jump.2.2.2
  rw [if_neg jump]
  by_cases up : 1#7 ≤ m.jumpCounter
  · have counter : m.jumpCounter ≠ 0#7 := by bv_omega
    rw [if_pos up]
    by_cases stop : m.jumpCounter = 95#7 ∨ m.marioYPos - marioYSize ≤ marioYMin ∨
        polls.up ≠ 0#3
    · rw [if_pos stop]
      exact .ceiling counter
    · rw [if_neg stop]
      simp only [not_or, not_not] at stop
      exact .rise counter stop.1 stop.2.1 stop.2.2
  · have counter : m.jumpCounter = 0#7 := by bv_omega
    rw [if_neg up]
    by_cases support : marioYMax ≤ m.marioYPos + marioYSize - 1#10 ∨ polls.down ≠ 0#3
    · rw [if_pos support]
      exact .support counter support
    · rw [if_neg support]
      simp only [not_or, not_not] at support
      rw [if_pos (Or.inr support.2), counter]
      exact .fall counter support.1 support.2

theorem stride_cases (m : Mario) : m.stride = 1#10 ∨ m.stride = 2#10 := by
  cases jumping : m.isJumping
  · right
    simp [stride, jumping]
  · left
    rw [stride, jumping]
    rfl

theorem walkIn_motion (motion : BitVec 10) (direction : Bool) (m : Mario) :
    (walkIn motion direction m).motion = motion := by
  unfold walkIn
  split <;> rfl

theorem horizontalIn_motion (keycode : BitVec 16) (polls : MarioPolls) (m : Mario) :
    let motion := (horizontalIn keycode polls m).motion
    motion = 0#10 ∨ (140#10 ≤ m.marioXPos ∧ (motion = 1022#10 ∨ motion = 1023#10)) ∨
      motion = 1#10 ∨ motion = 2#10 := by
  simp only [horizontalIn]
  split
  · next left =>
      rw [walkIn_motion]
      rcases stride_cases m with stride | stride
      · exact Or.inr (Or.inl ⟨left.2.2, Or.inr (by rw [stride]; rfl)⟩)
      · exact Or.inr (Or.inl ⟨left.2.2, Or.inl (by rw [stride]; rfl)⟩)
  · split
    · rw [walkIn_motion]
      exact Or.inr (Or.inr (stride_cases m))
    · exact Or.inl rfl

theorem pastMiddle_iff (m : Mario) : m.PastMiddle ↔ 299 ≤ m.marioXPos.toNat := by
  have middle : (519#32 + 120#32) / 2#32 = 319#32 := rfl
  rw [PastMiddle, middle]
  bv_omega

theorem shift_eq_true (pulse : Bool) (m : Mario) :
    m.shift pulse = true ↔ pulse = true ∧ 299 ≤ m.marioXPos.toNat := by
  simp [shift, pastMiddle_iff]

/-- Mario's positions from Reset on. A jump may start right below the top bound, so 59 is
reached, but only on the way up. -/
structure InBand (m : Mario) : Prop where
  left : 138 ≤ m.marioXPos.toNat
  right : m.marioXPos.toNat ≤ 300
  odd : m.marioYPos.toNat % 2 = 1
  top : 59 ≤ m.marioYPos.toNat
  bottom : m.marioYPos.toNat ≤ 421
  counter : m.jumpCounter.toNat ≤ 95
  notRising : m.jumpCounter = 0#7 → 61 ≤ m.marioYPos.toNat
  rising : m.jumpCounter ≠ 0#7 → m.marioYPos.toNat ≤ 419
  notFalling : m.jumpCounter ≠ 0#7 → m.falling = false

theorem InBand.low_of_ne {m : Mario} (band : m.InBand) (height : m.marioYPos ≠ 59#10) :
    61 ≤ m.marioYPos.toNat := by
  have top := band.top
  have odd := band.odd
  have different : m.marioYPos.toNat ≠ 59 := by
    intro equal
    exact height (BitVec.eq_of_toNat_eq equal)
  omega

theorem resetValue_inBand : resetValue.InBand := by
  constructor <;> decide

theorem frameStep_xPos (keycode : BitVec 16) (polls : MarioPolls) (m : Mario) (band : m.InBand) :
    let after := (frameStep keycode polls m).marioXPos.toNat
    138 ≤ after ∧ after ≤ 300 ∧
      (299 ≤ m.marioXPos.toNat → after = m.marioXPos.toNat - 40) ∧
      (m.marioXPos.toNat < 299 →
        m.marioXPos.toNat - 2 ≤ after ∧ after ≤ m.marioXPos.toNat + 2) := by
  have low := band.left
  have high := band.right
  have motion := horizontalIn_motion keycode polls m
  simp only [frameStep, pastMiddle_iff]
  split
  · next past =>
      have position : (m.marioXPos - 40#10).toNat = m.marioXPos.toNat - 40 := by bv_omega
      rw [position]
      omega
  · rcases motion with still | ⟨inside, left | left⟩ | right | right
    · simp only [still]
      bv_omega
    · simp only [left]
      bv_omega
    · simp only [left]
      bv_omega
    · simp only [right]
      bv_omega
    · simp only [right]
      bv_omega

theorem frameStep_inBand (keycode : BitVec 16) (polls : MarioPolls) (m : Mario)
    (band : m.InBand) : (frameStep keycode polls m).InBand := by
  rcases frameStep_xPos keycode polls m band with ⟨left, right, -, -⟩
  rcases band with ⟨-, -, odd, top, bottom, short, notRising, rising, notFalling⟩
  have vertical := verticalIn_step keycode polls m
  have height := frameStep_marioYPos keycode polls m
  have jump := frameStep_jumpCounter keycode polls m
  have fall := frameStep_falling keycode polls m
  generalize frameStep keycode polls m = after at *
  generalize verticalIn keycode polls m = step at *
  cases vertical with
  | jump grounded counter above =>
      have low := notRising counter
      constructor
      case notFalling =>
        intro _
        exact fall.trans grounded
      all_goals bv_omega
  | ceiling counter =>
      have low := rising counter
      constructor
      case notFalling =>
        intro up
        exact absurd jump up
      all_goals bv_omega
  | rise counter notMax room above =>
      have low := rising counter
      constructor
      case notFalling =>
        intro _
        exact fall.trans (notFalling counter)
      all_goals bv_omega
  | support counter below =>
      have low := notRising counter
      constructor
      case notFalling =>
        intro up
        exact absurd jump up
      all_goals bv_omega
  | fall counter room below =>
      have low := notRising counter
      constructor
      case notFalling =>
        intro up
        exact absurd jump up
      all_goals bv_omega

theorem step_inBand (reset pulse : Bool) (keycode : BitVec 16) (polls : MarioPolls) (m : Mario)
    (band : m.InBand) : (m.step reset pulse keycode polls).InBand := by
  unfold step
  split
  · exact resetValue_inBand
  · split
    · exact frameStep_inBand keycode polls m band
    · exact ⟨band.left, band.right, band.odd, band.top, band.bottom, band.counter,
        band.notRising, band.rising, band.notFalling⟩

end Mario

end FPGAMario
