import Mathlib.Order.Basic
import Mathlib.Tactic.Common

/-! A walker on a line of clear and solid pixels. It looks ahead on both sides, turns at a wall or
at the end of the line, and takes one more step in its old direction as it turns. -/

namespace FPGAMario

/-- How far a walker looks to the left and to the right, and the last place it walks to. -/
structure Walker where
  left : Int
  right : Int
  last : Int

namespace Walker

variable (w : Walker) (clear : Int → Prop)

/-- The turn of a walker at `x`: a wall on the left counts before one on the right and the end. -/
structure Turns (x motion next : Int) : Prop where
  wall : ¬ clear (x - w.left) → next = 1
  back : clear (x - w.left) → ¬ clear (x + w.right) ∨ w.last - 1 ≤ x → next = -1
  onward : clear (x - w.left) → clear (x + w.right) → x < w.last - 1 → next = motion

/-- Where a walker is that has turned at every wall so far: the line is clear around it up to two
pixels short of what it looks at, and up to one pixel short in the direction it walks. -/
structure Walled (x motion : Int) : Prop where
  heading : motion = 1 ∨ motion = -1
  bound : x ≤ w.last
  turned : x = w.last → motion = -1
  around : ∀ p, x - w.left + 2 ≤ p → p ≤ x + w.right - 2 → clear p
  leftward : motion = -1 → clear (x - w.left + 1)
  rightward : motion = 1 → clear (x + w.right - 1)

/-- From a clear place the walker never sees walls on both sides, and right before the end it sees
none on the left. -/
structure Fits : Prop where
  left : 2 ≤ w.left
  right : 2 ≤ w.right
  sees : ∀ x, clear x → clear (x - w.left) ∨ clear (x + w.right)
  corner : clear (w.last - 1) → clear (w.last - 1 - w.left)

variable {w clear} {x motion next : Int}

theorem Turns.heading (turns : w.Turns clear x motion next) (heading : motion = 1 ∨ motion = -1) :
    next = 1 ∨ next = -1 := by
  by_cases wall : clear (x - w.left)
  swap
  · exact Or.inl (turns.wall wall)
  by_cases back : ¬ clear (x + w.right) ∨ w.last - 1 ≤ x
  · exact Or.inr (turns.back wall back)
  · simp only [not_or, not_not] at back
    rw [turns.onward wall back.1 (by omega)]
    exact heading

theorem Walled.centre (fits : w.Fits clear) (walled : w.Walled clear x motion) : clear x := by
  have left := fits.left
  have right := fits.right
  exact walled.around x (by omega) (by omega)

theorem Walled.step_left (fits : w.Fits clear) (walled : w.Walled clear x (-1))
    (turns : w.Turns clear x (-1) next) : w.Walled clear (x - 1) next := by
  have left := fits.left
  have right := fits.right
  have bound := walled.bound
  constructor
  case heading => exact turns.heading walled.heading
  case bound => omega
  case turned =>
    intro atEnd
    omega
  case around =>
    intro p above below
    by_cases first : p = x - w.left + 1
    · rw [first]
      exact walled.leftward rfl
    · exact walled.around p (by omega) (by omega)
  case leftward =>
    intro goes
    have place : x - 1 - w.left + 1 = x - w.left := by omega
    rw [place]
    by_contra wall
    have turned := turns.wall wall
    omega
  case rightward =>
    intro _
    exact walled.around _ (by omega) (by omega)

theorem Walled.step_right (fits : w.Fits clear) (walled : w.Walled clear x 1)
    (turns : w.Turns clear x 1 next) : w.Walled clear (x + 1) next := by
  have left := fits.left
  have right := fits.right
  have bound := walled.bound
  have early : x ≠ w.last := by
    intro atEnd
    have turned := walled.turned atEnd
    omega
  constructor
  case heading => exact turns.heading walled.heading
  case bound => omega
  case turned =>
    intro atEnd
    have place : x = w.last - 1 := by omega
    have sees : clear (x - w.left) := by
      rw [place]
      apply fits.corner
      rw [← place]
      exact walled.centre fits
    exact turns.back sees (Or.inr (by omega))
  case around =>
    intro p above below
    by_cases final : p = x + w.right - 1
    · rw [final]
      exact walled.rightward rfl
    · exact walled.around p (by omega) (by omega)
  case leftward =>
    intro _
    exact walled.around _ (by omega) (by omega)
  case rightward =>
    intro goes
    have place : x + 1 + w.right - 1 = x + w.right := by omega
    rw [place]
    rcases fits.sees x (walled.centre fits) with free | free
    · by_contra wall
      have turned := turns.back free (Or.inl wall)
      omega
    · exact free

theorem Walled.step (fits : w.Fits clear) (walled : w.Walled clear x motion)
    (turns : w.Turns clear x motion next) : w.Walled clear (x + motion) next := by
  rcases walled.heading with rfl | rfl
  · exact walled.step_right fits turns
  · exact walled.step_left fits turns

theorem Walled.mono {other : Int → Prop} (opened : ∀ p, clear p → other p)
    (walled : w.Walled clear x motion) : w.Walled other x motion where
  heading := walled.heading
  bound := walled.bound
  turned := walled.turned
  around p above below := opened p (walled.around p above below)
  leftward goes := opened _ (walled.leftward goes)
  rightward goes := opened _ (walled.rightward goes)

theorem Walled.scroll {other : Int → Prop} {dist : Int} (positive : 0 < dist) (left : 2 ≤ w.left)
    (right : 2 ≤ w.right) (moved : ∀ p, p < x + w.right → clear p → other (p - dist))
    (walled : w.Walled clear x motion) : w.Walled other (x - dist) motion := by
  have bound := walled.bound
  constructor
  case heading => exact walled.heading
  case bound => omega
  case turned =>
    intro atEnd
    omega
  case around =>
    intro p above below
    have free := moved (p + dist) (by omega) (walled.around (p + dist) (by omega) (by omega))
    rwa [Int.add_sub_cancel] at free
  case leftward =>
    intro goes
    have free := moved _ (by omega) (walled.leftward goes)
    have place : x - w.left + 1 - dist = x - dist - w.left + 1 := by omega
    rwa [place] at free
  case rightward =>
    intro goes
    have free := moved _ (by omega) (walled.rightward goes)
    have place : x + w.right - 1 - dist = x - dist + w.right - 1 := by omega
    rwa [place] at free

variable (w) in
/-- Where a walker is that was put at the end of a line with a wall there. -/
structure Stuck (x motion : Int) : Prop where
  heading : motion = 1 ∨ motion = -1
  beyond : w.last - 1 ≤ x
  turned : motion = -1 → w.last ≤ x

theorem Stuck.step (wall : ¬ clear (w.last - w.left)) (stuck : w.Stuck x motion)
    (turns : w.Turns clear x motion next) : w.Stuck (x + motion) next := by
  have beyond := stuck.beyond
  constructor
  case heading => exact turns.heading stuck.heading
  case beyond =>
    rcases stuck.heading with goes | goes
    · omega
    · have turned := stuck.turned goes
      omega
  case turned =>
    intro back
    rcases stuck.heading with goes | goes
    · omega
    · have turned := stuck.turned goes
      by_cases place : x = w.last
      · have away := turns.wall (by rw [place]; exact wall)
        omega
      · omega

end Walker

end FPGAMario
