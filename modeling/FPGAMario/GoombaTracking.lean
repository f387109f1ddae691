import FPGAMario.Contact
import FPGAMario.CoinRequest

/-! The place of a live goomba in the level, and what displaces it. -/

namespace FPGAMario

open Hdl Game BlockArray

/-- A goomba that a frame leaves alive keeps its place in the level, up to the pixel it walks,
exactly if it does not touch Mario in a scroll. -/
theorem Goomba.frameStep_place_iff (shift : Bool) (x y : BitVec 10) (polls : GoombaPolls)
    (g : Goomba) (band : g.InBand) (alive : g.isAlive = true)
    (survives : (g.frameStep shift x y polls).isAlive = true) :
    (g.frameStep shift x y polls).goombaXPos.toNat + (if shift then 40 else 0) ≤
          g.goombaXPos.toNat + 1 ∧
        g.goombaXPos.toNat ≤
          (g.frameStep shift x y polls).goombaXPos.toNat + (if shift then 40 else 0) + 1 ↔
      ¬ (shift = true ∧ g.Touches x y) := by
  by_cases squished : g.Squished x y
  · rw [frameStep, if_pos alive, if_pos squished] at survives
    exact Bool.noConfusion survives
  by_cases touching : g.Touches x y
  · rw [frameStep, if_pos alive, if_neg squished, if_pos touching]
    cases shift with
    | true => simp [touching]
    | false => simp
  by_cases gone : g.goombaXPos + goombaXSize < goombaXMin
  · rw [frameStep, if_pos alive, if_neg squished, if_neg touching, if_pos gone] at survives
    exact Bool.noConfusion survives
  rw [frameStep_walks _ _ _ _ _ ⟨alive, squished, touching, gone⟩]
  have moved := walk_xPos shift polls g band alive
  refine iff_of_true ?_ (fun displaced => touching displaced.2)
  cases shift with
  | true =>
      simp only [if_true] at moved ⊢
      omega
  | false =>
      simp only [Bool.false_eq_true, if_false] at moved ⊢
      omega

section Place

variable (board : Board) (start : Toplevel) (inputs : Nat → Input)

/-- The goomba's place in the level: its place on the screen and forty pixels for every scroll. -/
def worldX (n : Nat) : Nat :=
  (sinceReset board start inputs n).game.goomba.goombaXPos.toNat +
    40 * shifts board start inputs n

/-- In cycle `n` the goomba moves by at most one pixel, and only at a frame pulse. -/
structure KeepsPlace (n : Nat) : Prop where
  between : ¬ FramePulse board start inputs n →
    worldX board start inputs (n + 1) = worldX board start inputs n
  frame : FramePulse board start inputs n →
    worldX board start inputs (n + 1) ≤ worldX board start inputs n + 1 ∧
      worldX board start inputs n ≤ worldX board start inputs (n + 1) + 1

/-- In cycle `n` the pending column does not ask for a goomba, and the goomba does not touch Mario
while the screen scrolls; or the column asks for one and the goomba stands where it would
start. -/
def Undisplaced (n : Nat) : Prop :=
  let g := (sinceReset board start inputs n).game
  if g.newColControl.getLsbD 0 then
    (¬ FramePulse board start inputs n → g.goomba.goombaXPos = 500#10) ∧
    (FramePulse board start inputs n →
      let due := if (sinceReset board start inputs n).shift then 540 else 500
      g.goomba.goombaXPos.toNat ≤ due + 1 ∧ due ≤ g.goomba.goombaXPos.toNat + 1)
  else
    ¬ ((sinceReset board start inputs n).shift = true ∧
      g.goomba.Touches g.mario.marioXPos g.mario.marioYPos)

/-- A goomba that came in with column `c` at cycle `s` and lives on until cycle `n`. -/
structure GoombaLife (c : BitVec 8) (s n : Nat) : Prop
    extends ShiftsIn board start inputs c s where
  marked : (control (board.levelMem c)).getLsbD 0 = true
  unreset : ∀ k, s < k → k < n → (sinceReset board start inputs k).game.resetH = false
  alive : ∀ k, s < k → k ≤ n → (sinceReset board start inputs k).game.goomba.isAlive = true

variable {n : Nat}

theorem keepsPlace_frame (pulse : FramePulse board start inputs n) :
    KeepsPlace board start inputs n ↔
      let after := (sinceReset board start inputs (n + 1)).game.goomba.goombaXPos.toNat +
        if (sinceReset board start inputs n).shift then 40 else 0
      after ≤ (sinceReset board start inputs n).game.goomba.goombaXPos.toNat + 1 ∧
        (sinceReset board start inputs n).game.goomba.goombaXPos.toNat ≤ after + 1 := by
  have count : shifts board start inputs (n + 1) = shifts board start inputs n +
      if (sinceReset board start inputs n).shift then 1 else 0 := by
    cases shift : (sinceReset board start inputs n).shift with
    | true => exact shifts_succ_of_shift board start inputs n shift
    | false => exact shifts_succ_of_still board start inputs n shift
  constructor
  · intro keeps
    have near := keeps.frame pulse
    rw [worldX, worldX, count] at near
    split at near
    · next shift =>
        rw [if_pos shift]
        omega
    · next still =>
        rw [if_neg still]
        omega
  · intro near
    constructor
    · intro silent
      exact absurd pulse silent
    · intro _
      rw [worldX, worldX, count]
      split at near
      · next shift =>
          rw [if_pos shift]
          omega
      · next still =>
          rw [if_neg still]
          omega

theorem keepsPlace_started (running : (sinceReset board start inputs n).game.resetH = false)
    (started : (sinceReset board start inputs n).game.newColControl.getLsbD 0 = true) :
    KeepsPlace board start inputs n ↔ Undisplaced board start inputs n := by
  have goomba : (sinceReset board start inputs (n + 1)).game.goomba.goombaXPos.toNat = 500 := by
    rw [sinceReset, goomba_started board start inputs (n + 1) running started]
    rfl
  simp only [Undisplaced, started, if_true]
  by_cases pulse : FramePulse board start inputs n
  · rw [keepsPlace_frame board start inputs pulse, goomba]
    cases (sinceReset board start inputs n).shift with
    | true =>
        simp only [if_true]
        constructor
        · intro near
          exact ⟨fun silent => absurd pulse silent, fun _ => by omega⟩
        · intro placed
          have near := placed.2 pulse
          omega
    | false =>
        simp only [Bool.false_eq_true, if_false]
        constructor
        · intro near
          exact ⟨fun silent => absurd pulse silent, fun _ => by omega⟩
        · intro placed
          have near := placed.2 pulse
          omega
  · have count := shifts_succ_of_still board start inputs n
      (still_of_silent board start inputs pulse)
    constructor
    · intro keeps
      have kept := keeps.between pulse
      rw [worldX, worldX, goomba, count] at kept
      refine ⟨fun _ => ?_, fun again => absurd again pulse⟩
      apply BitVec.eq_of_toNat_eq
      change _ = 500
      omega
    · intro placed
      refine ⟨fun _ => ?_, fun again => absurd again pulse⟩
      rw [worldX, worldX, goomba, count, placed.1 pulse]
      rfl

theorem keepsPlace_quiet (later : 0 < n) (silent : ¬ FramePulse board start inputs n)
    (running : (sinceReset board start inputs n).game.resetH = false)
    (idle : (sinceReset board start inputs n).game.newColControl.getLsbD 0 = false) :
    KeepsPlace board start inputs n := by
  have goomba : (sinceReset board start inputs (n + 1)).game.goomba.goombaXPos =
      (sinceReset board start inputs n).game.goomba.goombaXPos := by
    rw [goomba_quiet board start inputs later running idle silent]
  have count := shifts_succ_of_still board start inputs n (still_of_silent board start inputs silent)
  constructor
  · intro _
    rw [worldX, worldX, goomba, count]
  · intro pulse
    exact absurd pulse silent

variable (reset : start.game.resetH = true)

include reset

theorem keepsPlace_unstarted (later : 0 < n)
    (running : (sinceReset board start inputs n).game.resetH = false)
    (idle : (sinceReset board start inputs n).game.newColControl.getLsbD 0 = false)
    (alive : (sinceReset board start inputs n).game.goomba.isAlive = true)
    (survives : (sinceReset board start inputs (n + 1)).game.goomba.isAlive = true) :
    KeepsPlace board start inputs n ↔ Undisplaced board start inputs n := by
  have band := run_goomba_inBand board start inputs reset n
  simp only [Undisplaced, idle, Bool.false_eq_true, if_false]
  by_cases pulse : FramePulse board start inputs n
  · have goomba := goomba_frame board start inputs later running idle pulse
    rw [keepsPlace_frame board start inputs pulse]
    rw [goomba] at survives ⊢
    exact Goomba.frameStep_place_iff _ _ _ _ _ band alive survives
  · refine iff_of_true (keepsPlace_quiet board start inputs later pulse running idle) ?_
    intro displaced
    rw [still_of_silent board start inputs pulse] at displaced
    exact Bool.noConfusion displaced.1

theorem GoombaLife.keepsPlace_iff {c : BitVec 8} {s : Nat}
    (life : GoombaLife board start inputs c s n) (k : Nat) (after : s < k) (before : k < n) :
    KeepsPlace board start inputs k ↔ Undisplaced board start inputs k := by
  have running := life.unreset k after before
  cases started : (sinceReset board start inputs k).game.newColControl.getLsbD 0 with
  | true => exact keepsPlace_started board start inputs running started
  | false =>
      exact keepsPlace_unstarted board start inputs reset (by omega) running started
        (life.alive k after before.le) (life.alive (k + 1) (by omega) before)

/-- While the goomba of column `c` lives, it keeps its place in the level exactly as long as
nothing displaces it. -/
theorem goomba_keeps_place_iff (c : BitVec 8) (s : Nat)
    (life : GoombaLife board start inputs c s n) :
    (∀ k, s < k → k < n → KeepsPlace board start inputs k) ↔
      ∀ k, s < k → k < n → Undisplaced board start inputs k := by
  constructor
  · intro keeps k after before
    exact (life.keepsPlace_iff board start inputs reset k after before).mp (keeps k after before)
  · intro undisplaced k after before
    exact (life.keepsPlace_iff board start inputs reset k after before).mpr
      (undisplaced k after before)

end Place

section Living

theorem Game.idle_isAlive (board : Board) (g : Game) (running : g.resetH = false)
    (alive : g.goomba.isAlive = true) : (g.idle board).goomba.isAlive = true := by
  rw [idle, step_goomba, running]
  cases g.newColControl.getLsbD 0 with
  | true => rfl
  | false => exact alive

theorem Game.iterate_idle_isAlive (board : Board) (g : Game) (running : g.resetH = false)
    (safe : g.goomba.killMario = false) (alive : g.goomba.isAlive = true) (n : Nat) :
    ((idle board)^[n] g).goomba.isAlive = true := by
  induction n with
  | zero => exact alive
  | succ n ih =>
      rw [Function.iterate_succ_apply']
      exact idle_isAlive board _ (iterate_idle_resetH board g safe running n) ih

end Living

section Train

def trainBoard : Board where
  levelMem address := if address = 10#8 ∨ address = 12#8 then 0b000001#6 ++ 0#30 else 0#36
  outside _ _ _ := 0#3

def followKeys : List (BitVec 8) := List.replicate 21 0x07#8

def Relocates (board : Board) (g : Game) : Prop :=
  let first := g.step board (Pulses.all true) ⟨true, 0#8⟩
  first.goomba.killMario = false ∧ first.goomba.isAlive = true ∧
    ((idle board)^[2] first).newColControl.getLsbD 0 = true ∧
    ((idle board)^[2] first).goomba.goombaXPos ≠ 500#10

instance (board : Board) (g : Game) : Decidable (Relocates board g) :=
  inferInstanceAs (Decidable (_ ∧ _ ∧ _ ∧ _))

set_option maxRecDepth 100000 in
theorem train_played :
    playHeld trainBoard (fun g => decide (g.mario.marioXPos = 300#10 ∧
        g.blocks.currentBlockCol = 10#8) &&
      (g.playAll trainBoard (fun later => later.goomba.isAlive) followKeys &&
        g.play trainBoard (fun g => decide (Relocates trainBoard g)) followKeys))
      walkKeys = true := by
  decide +kernel

theorem followKeys_end (last : Nat) (atLast : last = scriptEnd walkKeys +
    frameCycles * followKeys.length) :
    scriptInputs (walkKeys ++ followKeys) (last + 1 + 0) = ⟨true, 0#8⟩ := by
  have position : last + 1 + 0 = scriptEnd walkKeys + 1 + frameCycles * followKeys.length := by
    omega
  have frame : frameCycles * followKeys.length / frameCycles = followKeys.length :=
    Nat.mul_div_cancel_left _ (by decide)
  rw [position, scriptInputs_more, keyInputs, frame]
  rfl

/-- The goomba that came in with column 10 is put back to the edge of the screen when column 12
becomes pending. -/
theorem train_relocated (first last : Nat) (atFirst : first = scriptEnd walkKeys)
    (atLast : last = first + frameCycles * followKeys.length) :
    GoombaLife trainBoard (Toplevel.held trainBoard) (scriptInputs (walkKeys ++ followKeys)) 10#8
        first (last + 4) ∧
      ¬ Undisplaced trainBoard (Toplevel.held trainBoard)
        (scriptInputs (walkKeys ++ followKeys)) (last + 3) := by
  rcases playHeld_more trainBoard _ _ _ walkKeys followKeys train_played first last atFirst atLast
    with ⟨⟨originFirst, calmFirst, scroll⟩, living, origin, calm, relocates⟩
  rcases of_decide_eq_true scroll with ⟨position, column⟩
  have key := followKeys_end last (by rw [atLast, atFirst])
  have ordered : first < last := by
    rw [atLast]
    exact Nat.lt_add_of_pos_right (by decide)
  clear atFirst atLast
  generalize keys : scriptInputs (walkKeys ++ followKeys) = inputs at *
  have released (k : Nat) : (inputs (last + 1 + k)).key0 = true := by
    rw [← keys]
    rfl
  have relocated : Relocates trainBoard
      (sinceReset trainBoard (Toplevel.held trainBoard) inputs last).game :=
    of_decide_eq_true relocates
  rcases relocated with ⟨safe, alive, asked, away⟩
  rw [← key] at safe alive asked away
  have frame := sinceReset_frame trainBoard (Toplevel.held trainBoard) inputs last origin calm
    released safe
  have running (k : Nat) (small : k < frameCycles) :
      (sinceReset trainBoard (Toplevel.held trainBoard) inputs (last + k)).game.resetH = false := by
    exact (frame k small).1 k (Nat.lt_succ_self k)
  have lives (k : Nat) (small : k < frameCycles) : (sinceReset trainBoard
      (Toplevel.held trainBoard) inputs (last + (k + 1))).game.goomba.isAlive = true := by
    rw [(frame k small).2]
    apply iterate_idle_isAlive trainBoard _ _ safe alive
    rw [step_resetH, calm.killMario, released]
    rfl
  constructor
  · refine { running := calmFirst.resetH, shift := ?_, column := column, marked := rfl,
             unreset := ?_, alive := ?_ }
    · rw [Toplevel.shift, Mario.shift_eq_true, position]
      exact ⟨congrArg EdgeDetector.rising originFirst.marioEdge, by decide⟩
    · intro k above below
      rcases Nat.lt_or_ge k last with earlier | late
      · exact (living k above earlier.le).1
      · obtain ⟨j, rfl⟩ := Nat.exists_eq_add_of_le late
        exact running j (by simp only [frameCycles]; omega)
    · intro k above below
      rcases Nat.lt_or_ge last k with late | earlier
      · obtain ⟨j, rfl⟩ := Nat.exists_eq_add_of_lt late
        exact lives j (by simp only [frameCycles]; omega)
      · exact (living k above earlier).2
  · intro undisplaced
    have silent := sinceReset_silent trainBoard (Toplevel.held trainBoard) inputs last origin calm
      released safe 3 (by decide) (by decide)
    have game := (frame 2 (by decide)).2
    simp only [Undisplaced, game, asked, if_true] at undisplaced
    exact away (undisplaced.1 silent)

theorem goomba_keeps_place_iff_train :
    (∀ k, scriptEnd walkKeys < k → k < scriptEnd walkKeys + frameCycles * followKeys.length + 4 →
      KeepsPlace trainBoard (Toplevel.held trainBoard)
        (scriptInputs (walkKeys ++ followKeys)) k) ↔
      ∀ k, scriptEnd walkKeys < k →
        k < scriptEnd walkKeys + frameCycles * followKeys.length + 4 →
        Undisplaced trainBoard (Toplevel.held trainBoard)
          (scriptInputs (walkKeys ++ followKeys)) k :=
  goomba_keeps_place_iff trainBoard (Toplevel.held trainBoard)
    (scriptInputs (walkKeys ++ followKeys)) rfl 10#8 (scriptEnd walkKeys)
    (train_relocated (scriptEnd walkKeys) _ rfl rfl).1

/-- Four cycles after the second scroll the goomba has jumped. -/
theorem train_moved : ¬ ∀ (board : Board) (start : Toplevel) (inputs : Nat → Input),
    start.game.resetH = true → ∀ (c : BitVec 8) (s n : Nat),
      GoombaLife board start inputs c s n →
        ∀ k, s < k → k < n → KeepsPlace board start inputs k := by
  intro keeps
  obtain ⟨first, atFirst⟩ : ∃ first, first = scriptEnd walkKeys := ⟨_, rfl⟩
  obtain ⟨last, atLast⟩ : ∃ last, last = first + frameCycles * followKeys.length := ⟨_, rfl⟩
  have ordered : first < last := by
    rw [atLast]
    exact Nat.lt_add_of_pos_right (by decide)
  rcases train_relocated first last atFirst atLast with ⟨life, displaced⟩
  clear atFirst atLast
  have kept := keeps trainBoard (Toplevel.held trainBoard) (scriptInputs (walkKeys ++ followKeys))
    rfl 10#8 first (last + 4) life (last + 3) (by omega) (by omega)
  rw [life.keepsPlace_iff _ _ _ rfl (last + 3) (by omega) (by omega)] at kept
  exact displaced kept

end Train

end FPGAMario
