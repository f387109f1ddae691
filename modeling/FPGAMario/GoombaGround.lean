import FPGAMario.Clipping
import FPGAMario.Corridor

/-! The ground of the window, and the goomba on it as a walker between walls: what one frame does
to its place and its motion. -/

namespace FPGAMario

open Hdl Game BlockArray

section Ground

def ground (column : BitVec 30) : BitVec 3 := part 3 27 column

def GroundClear (cols : BlockCols) (px : Int) : Prop := Clear cols px 420

/-- Probes outside the grid read as empty. -/
def Board.OutsideEmpty (board : Board) : Prop :=
  ∀ cols column low, board.outside cols column low = 0#3

/-- Every column of the level that asks for a goomba has an empty ground cell. -/
def Board.RoomForGoombas (board : Board) : Prop :=
  ∀ a, (control (board.levelMem a)).getLsbD 0 = true → ground (blockBits (board.levelMem a)) = 0#3

variable {cols : BlockCols} {px : Int}

theorem Truthful.zero_iff {py : Int} {probe : BitVec 3} (truthful : Truthful cols px py probe) :
    probe = 0#3 ↔ Clear cols px py := by
  constructor
  · intro zero c r covers
    rw [← truthful.1 c r covers]
    exact zero
  · intro clear
    by_cases cell : ∃ c r, Covers c r px py
    · rcases cell with ⟨c, r, covers⟩
      rw [truthful.1 c r covers]
      exact clear c r covers
    · exact truthful.2 cell

theorem ground_row {c r : Fin 10} (covers : Covers c r px 420) : r.val = 9 := by
  simp only [Covers] at covers
  omega

theorem ground_of_included {after before : BitVec 30} (included : BitsIncluded after before)
    (free : ground before = 0#3) : ground after = 0#3 := by
  have cell : ∀ column : BitVec 30,
      ground column = cellId (fun _ => column) ⟨0, by decide⟩ ⟨9, by decide⟩ := fun _ => rfl
  rw [cell] at free ⊢
  exact cellId_zero_of_included included free

theorem groundClear_of_column (c : Fin 10) (zero : ground (cols c) = 0#3)
    (left : 120 + 40 * (c.val : Int) ≤ px) (right : px < 160 + 40 * (c.val : Int)) :
    GroundClear cols px := by
  intro c' r covers
  have row := ground_row covers
  obtain rfl : c' = c := by
    simp only [Covers] at covers
    apply Fin.ext
    omega
  rw [cellId, row]
  exact zero

theorem ground_of_groundClear (c : Fin 10) (left : 120 + 40 * (c.val : Int) ≤ px)
    (right : px < 160 + 40 * (c.val : Int)) (clear : GroundClear cols px) :
    ground (cols c) = 0#3 := by
  apply clear c ⟨9, by decide⟩
  simp only [Covers]
  omega

theorem groundClear_beside {low high : Int} (above : low ≤ px) (below : px ≤ high)
    (near : high < low + 40) (clear : GroundClear cols px) :
    GroundClear cols low ∨ GroundClear cols high := by
  by_cases inside : ∃ c : Fin 10, 120 + 40 * (c.val : Int) ≤ px ∧ px < 160 + 40 * (c.val : Int)
  · rcases inside with ⟨c, left, right⟩
    have zero := ground_of_groundClear c left right clear
    by_cases same : 120 + 40 * (c.val : Int) ≤ low
    · exact Or.inl (groundClear_of_column c zero same (by omega))
    · exact Or.inr (groundClear_of_column c zero (by omega) (by omega))
  · have outside : px < 120 ∨ 520 ≤ px := by
      by_contra within
      apply inside
      exact ⟨⟨((px - 120) / 40).toNat, by omega⟩, by simp only; omega, by simp only; omega⟩
    rcases outside with left | right
    · left
      intro c r covers
      simp only [Covers] at covers
      omega
    · right
      intro c r covers
      simp only [Covers] at covers
      omega

/-- The goomba as a walker: its probes are 19 pixels to the left and 18 to the right. -/
def goombaWalker : Walker := ⟨19, 18, 500⟩

@[simp] theorem goombaWalker_left : goombaWalker.left = 19 := rfl

@[simp] theorem goombaWalker_right : goombaWalker.right = 18 := rfl

@[simp] theorem goombaWalker_last : goombaWalker.last = 500 := rfl

theorem goombaWalker_fits (cols : BlockCols) : goombaWalker.Fits (GroundClear cols) where
  left := by decide
  right := by decide
  sees x clear := by
    simp only [goombaWalker_left, goombaWalker_right]
    exact groundClear_beside (by omega) (by omega) (by omega) clear
  corner clear := by
    simp only [goombaWalker_left, goombaWalker_last] at clear ⊢
    have nine : ((9 : Fin 10).val : Int) = 9 := rfl
    have zero := ground_of_groundClear 9 (by omega) (by omega) clear
    exact groundClear_of_column 9 zero (by omega) (by omega)

end Ground

namespace Game

variable {board : Board} {g : Game} (outside : board.OutsideEmpty) (band : g.goomba.InBand)
  (alive : g.goomba.isAlive = true)

def GoombaWalled (g : Game) : Prop :=
  goombaWalker.Walled (GroundClear g.blocks.blockCols) g.goomba.goombaXPos.toNat
    g.goomba.goombaXMotion.toInt

def GoombaStuck (g : Game) : Prop :=
  goombaWalker.Stuck g.goomba.goombaXPos.toNat g.goomba.goombaXMotion.toInt

include outside band alive

theorem goombaLeft_zero_iff : (g.goombaPolls board).left = 0#3 ↔
    GroundClear g.blocks.blockCols (g.goomba.goombaXPos.toNat - 19) := by
  have truthful := (goombaLeft_truthful_iff board g band alive).mpr (fun _ => outside _ _ _)
  rw [band.yPos alive] at truthful
  exact truthful.zero_iff

theorem goombaRight_zero_iff : (g.goombaPolls board).right = 0#3 ↔
    GroundClear g.blocks.blockCols (g.goomba.goombaXPos.toNat + 18) := by
  have truthful := (goombaRight_truthful_iff board g band alive).mpr (fun _ => outside _ _ _)
  rw [band.yPos alive] at truthful
  exact truthful.zero_iff

theorem goomba_turns (narrow : g.goomba.goombaXPos.toNat ≤ 1003) :
    goombaWalker.Turns (GroundClear g.blocks.blockCols) g.goomba.goombaXPos.toNat
      g.goomba.goombaXMotion.toInt
      (Goomba.turnIn (g.goombaPolls board) g.goomba).toInt := by
  have leftZero := goombaLeft_zero_iff outside band alive
  have rightZero := goombaRight_zero_iff outside band alive
  have edge : Goomba.goombaXMax ≤ g.goomba.goombaXPos + Goomba.goombaXSize ↔
      (500 : Int) - 1 ≤ g.goomba.goombaXPos.toNat := by bv_omega
  constructor
  · intro wall
    rw [Goomba.turnIn, if_pos (mt leftZero.mp wall)]
    rfl
  · intro free back
    rw [Goomba.turnIn, if_neg (not_not.mpr (leftZero.mpr free)), if_pos (back.imp (mt rightZero.mp)
      edge.mpr)]
    rfl
  · intro free ahead early
    have stays : ¬ ((g.goombaPolls board).right ≠ 0#3 ∨
        Goomba.goombaXMax ≤ g.goomba.goombaXPos + Goomba.goombaXSize) := by
      rw [edge]
      rintro (wall | late)
      · exact wall (rightZero.mpr ahead)
      · rw [goombaWalker_last] at early
        omega
    rw [Goomba.turnIn, if_neg (not_not.mpr (leftZero.mpr free)), if_neg stays]

end Game

inductive Goomba.Survives (shift : Bool) (x y : BitVec 10) (polls : GoombaPolls)
    (before after : Goomba) : Prop
  | touched (kill : after.killMario = true) (position : after.goombaXPos = before.goombaXPos)
      (motion : after.goombaXMotion = before.goombaXMotion)
  | walked (walks : before.Walks x y) (moved : after = walk shift polls before)

theorem Goomba.frameStep_survives (shift : Bool) (x y : BitVec 10) (polls : GoombaPolls)
    (g : Goomba) (alive : g.isAlive = true)
    (lives : (g.frameStep shift x y polls).isAlive = true) :
    Survives shift x y polls g (g.frameStep shift x y polls) := by
  by_cases squished : g.Squished x y
  · rw [frameStep, if_pos alive, if_pos squished] at lives
    exact Bool.noConfusion lives
  by_cases touching : g.Touches x y
  · rw [frameStep, if_pos alive, if_neg squished, if_pos touching]
    exact .touched rfl rfl rfl
  by_cases gone : g.goombaXPos + goombaXSize < goombaXMin
  · rw [frameStep, if_pos alive, if_neg squished, if_neg touching, if_pos gone] at lives
    exact Bool.noConfusion lives
  · have walks : g.Walks x y := ⟨alive, squished, touching, gone⟩
    exact .walked walks (frameStep_walks shift x y polls g walks)

theorem Goomba.Walks.inside {x y : BitVec 10} {g : Goomba} (walks : g.Walks x y) (band : g.InBand) :
    100 ≤ g.goombaXPos.toNat ∧ g.goombaXPos.toNat ≤ 1003 := by
  have far := band.right walks.1
  have gone := walks.2.2.2
  bv_omega

theorem Goomba.Walks.walk_place {x y : BitVec 10} {g : Goomba} (walks : g.Walks x y)
    (band : g.InBand) (shift : Bool) (polls : GoombaPolls) :
    ((walk shift polls g).goombaXPos.toNat : Int) =
      g.goombaXPos.toNat + g.goombaXMotion.toInt - (if shift then 40 else 0) := by
  have inside := walks.inside band
  have right : (1#10 : BitVec 10).toInt = 1 := rfl
  have left : (1023#10 : BitVec 10).toInt = -1 := rfl
  cases shift <;> rcases band.xMotion walks.1 with motion | motion <;>
    simp only [walk, motion, right, left, if_true, if_false, Bool.false_eq_true] <;> bv_omega

namespace Game

section Walk

variable {board : Board} {g : Game} (outside : board.OutsideEmpty) (band : g.goomba.InBand)
  {x y : BitVec 10} (walks : g.goomba.Walks x y) {after : Game}

include outside band walks

theorem GoombaWalled.walk (walled : g.GoombaWalled)
    (moved : after.goomba = g.goomba.walk false (g.goombaPolls board))
    (opened : ∀ px, GroundClear g.blocks.blockCols px → GroundClear after.blocks.blockCols px) :
    after.GoombaWalled := by
  have turns := goomba_turns outside band walks.1 (walks.inside band).2
  have place := walks.walk_place band false (g.goombaPolls board)
  have stepped := (walled.step (goombaWalker_fits _) turns).mono opened
  simp only [Bool.false_eq_true, if_false, Int.sub_zero] at place
  rw [GoombaWalled, moved, place]
  exact stepped

theorem GoombaWalled.scroll (walled : g.GoombaWalled) (word : BitVec 30)
    (moved : after.goomba = g.goomba.walk true (g.goombaPolls board))
    (pushed : after.blocks.blockCols = push word g.blocks.blockCols) : after.GoombaWalled := by
  have turns := goomba_turns outside band walks.1 (walks.inside band).2
  have place := walks.walk_place band true (g.goombaPolls board)
  have stepped := walled.step (goombaWalker_fits _) turns
  have bound := stepped.bound
  simp only [if_true] at place
  rw [GoombaWalled, moved, place, pushed]
  apply stepped.scroll (by decide) (by decide) (by decide)
  intro p near clear
  simp only [goombaWalker_right, goombaWalker_last] at near bound
  by_cases left : 160 ≤ p
  · exact clear.push word left (by omega)
  · intro c r covers
    simp only [Covers] at covers
    omega

theorem GoombaStuck.walk (stuck : g.GoombaStuck)
    (wall : ¬ GroundClear g.blocks.blockCols 481)
    (moved : after.goomba = g.goomba.walk false (g.goombaPolls board)) : after.GoombaStuck := by
  have turns := goomba_turns outside band walks.1 (walks.inside band).2
  have place := walks.walk_place band false (g.goombaPolls board)
  simp only [Bool.false_eq_true, if_false, Int.sub_zero] at place
  rw [GoombaStuck, moved, place]
  exact stuck.step wall turns

end Walk

theorem startValue_walled (g : Game) (started : g.goomba = Goomba.startValue 500#10 440#10)
    (free : ground (g.blocks.blockCols ⟨9, by decide⟩) = 0#3) : g.GoombaWalled := by
  have position : (g.goomba.goombaXPos.toNat : Int) = 500 := by rw [started]; rfl
  have motion : g.goomba.goombaXMotion.toInt = -1 := by rw [started]; rfl
  have clear (px : Int) (left : 480 ≤ px) (right : px < 520) :
      GroundClear g.blocks.blockCols px := groundClear_of_column ⟨9, by decide⟩ free left right
  rw [GoombaWalled, position, motion]
  constructor
  case heading => exact Or.inr rfl
  case bound => exact le_refl _
  case turned => exact fun _ => rfl
  case around =>
    intro p above below
    simp only [goombaWalker_left, goombaWalker_right] at above below
    exact clear p (by omega) (by omega)
  case leftward => exact fun _ => clear _ (by decide) (by decide)
  case rightward => exact fun _ => clear _ (by decide) (by decide)

theorem startValue_stuck (g : Game) (started : g.goomba = Goomba.startValue 500#10 440#10) :
    g.GoombaStuck := by
  rw [GoombaStuck, started]
  exact ⟨Or.inr rfl, by decide, fun _ => by decide⟩

end Game

end FPGAMario
