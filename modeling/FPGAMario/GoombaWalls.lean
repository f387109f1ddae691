import FPGAMario.Death
import FPGAMario.GoombaGround
import FPGAMario.Spawning

/-! The goomba between its walls, over whole games. -/

namespace FPGAMario

open Hdl Game BlockArray

section Runs

variable (board : Board) (start : Toplevel) (inputs : Nat → Input)

def ResetIn (t : Nat) : Prop := (Toplevel.run board start inputs t).game.resetH = true

/-- The screen has scrolled since the last Reset before cycle `n`. -/
def Scrolled (n : Nat) : Prop :=
  ∃ j, j < n ∧ (sinceReset board start inputs j).shift = true ∧ Unreset board start inputs j n

/-- The word with which the last Reset has filled the window has an empty ground cell. -/
def FilledClear (n : Nat) : Prop :=
  ∀ c, LastBefore (ResetIn board start inputs) (n + 1) c →
    ground (Toplevel.run board start inputs c).game.newBlockId = 0#3

variable {board start inputs} {n : Nat}

theorem Scrolled.next (scrolled : Scrolled board start inputs n)
    (running : (sinceReset board start inputs n).game.resetH = false) :
    Scrolled board start inputs (n + 1) := by
  rcases scrolled with ⟨j, before, shift, unreset⟩
  refine ⟨j, Nat.lt_succ_of_lt before, shift, ?_⟩
  intro k above below
  rcases Nat.lt_succ_iff_lt_or_eq.mp below with inside | rfl
  · exact unreset k above inside
  · exact running

theorem Scrolled.now (shift : (sinceReset board start inputs n).shift = true)
    (running : (sinceReset board start inputs n).game.resetH = false) :
    Scrolled board start inputs (n + 1) := by
  refine ⟨n, Nat.lt_succ_self n, shift, ?_⟩
  intro k above below
  obtain rfl : k = n := by omega
  exact running

theorem filledClear_next (running : (sinceReset board start inputs n).game.resetH = false) :
    FilledClear board start inputs (n + 1) ↔ FilledClear board start inputs n := by
  have silent : ¬ ResetIn board start inputs (n + 1) := by
    rw [ResetIn, running]
    exact Bool.noConfusion
  constructor
  · intro filled c last
    exact filled c (last.later silent)
  · intro filled c last
    exact filled c (last.earlier silent)

theorem ground_kept (first last : Nat) (ordered : first ≤ last)
    (unreset : Unreset board start inputs first last)
    (still : ∀ j, first ≤ j → j < last → (sinceReset board start inputs j).shift = false)
    (i : Fin 10)
    (free : ground ((sinceReset board start inputs first).game.blocks.blockCols i) = 0#3) :
    ground ((sinceReset board start inputs last).game.blocks.blockCols i) = 0#3 := by
  induction last, ordered using Nat.le_induction with
  | base => exact free
  | succ last ordered ih =>
      have before := ih (unreset.within (Nat.le_refl first) (Nat.le_succ last))
        (fun j low high => still j low (Nat.lt_succ_of_lt high))
      have step := step_keptSlot board (sinceReset board start inputs last).clock.pulses
        (inputs (last + 1)) (sinceReset board start inputs last).game
        (unreset last ordered (Nat.lt_succ_self last)) (still last ordered (Nat.lt_succ_self last)) i
      rw [← Toplevel.run_game] at step
      exact ground_of_included step.1 before

theorem Scrolled.last (scrolled : Scrolled board start inputs n) :
    ∃ s, LastBefore (fun j => (sinceReset board start inputs j).shift = true) n s ∧
      Unreset board start inputs s n := by
  rcases scrolled with ⟨j, before, shift, unreset⟩
  rcases exists_lastBefore (fun j => (sinceReset board start inputs j).shift = true) n
    ⟨j, before, shift⟩ with ⟨s, last⟩
  refine ⟨s, last, unreset.within ?_ (Nat.le_refl n)⟩
  by_contra early
  exact last.after j (Nat.lt_of_not_le early) before shift

variable (reset : start.game.resetH = true)

include reset

theorem lastReset (board : Board) (inputs : Nat → Input) (n : Nat) :
    ∃ c, LastBefore (ResetIn board start inputs) (n + 1) c :=
  exists_lastBefore _ (n + 1) ⟨0, Nat.succ_pos n, reset⟩

theorem unscrolled_window (n : Nat) (unscrolled : ¬ Scrolled board start inputs n) (c : Nat)
    (last : LastBefore (ResetIn board start inputs) (n + 1) c) (i : Fin 10) :
    BitsIncluded ((sinceReset board start inputs n).game.blocks.blockCols i)
        (Toplevel.run board start inputs c).game.newBlockId ∧
      (5 ≤ i.val → (sinceReset board start inputs n).game.blocks.blockCols i =
        (Toplevel.run board start inputs c).game.newBlockId) := by
  induction n with
  | zero =>
      have first : c = 0 := by
        have before := last.before
        omega
      have filled := reset_step board start inputs 0 reset
      rw [first, sinceReset, filled]
      exact ⟨BitsIncluded.refl _, fun _ => rfl⟩
  | succ n ih =>
      by_cases again : ResetIn board start inputs (n + 1)
      · have here : c = n + 1 := last.unique (.here again)
        have filled := reset_step board start inputs (n + 1) again
        rw [here, sinceReset, filled]
        exact ⟨BitsIncluded.refl _, fun _ => rfl⟩
      · have running : (sinceReset board start inputs n).game.resetH = false :=
          Bool.eq_false_iff.mpr again
        have still : (sinceReset board start inputs n).shift = false :=
          Bool.eq_false_iff.mpr (fun shift => unscrolled (.now shift running))
        rcases ih (fun scrolled => unscrolled (scrolled.next running)) (last.earlier again)
          with ⟨included, equal⟩
        have step := step_keptSlot board (sinceReset board start inputs n).clock.pulses
          (inputs (n + 1)) (sinceReset board start inputs n).game running still i
        rw [← Toplevel.run_game] at step
        refine ⟨step.1.trans included, ?_⟩
        intro right
        rw [← equal right]
        apply step.2
        rintro ⟨-, column⟩
        have band := run_inBand board start inputs reset n
        have near := band.right
        have tracks := (marioBlockX_tracks
          (sinceReset board start inputs n).game.mario.marioXPos).1
        have left := band.left
        omega

theorem groundClear_of_filled (n : Nat) (unscrolled : ¬ Scrolled board start inputs n)
    (filled : FilledClear board start inputs n) (i : Fin 10) :
    ground ((sinceReset board start inputs n).game.blocks.blockCols i) = 0#3 := by
  rcases lastReset reset board inputs n with ⟨c, last⟩
  have window := unscrolled_window reset n unscrolled c last i
  exact ground_of_included window.1 (filled c last)

theorem wall_of_unfilled (n : Nat) (unscrolled : ¬ Scrolled board start inputs n)
    (unfilled : ¬ FilledClear board start inputs n) :
    ground ((sinceReset board start inputs n).game.blocks.blockCols ⟨9, by decide⟩) ≠ 0#3 := by
  intro free
  apply unfilled
  intro c last
  have window := unscrolled_window reset n unscrolled c last ⟨9, by decide⟩
  rw [← window.2 (by decide)]
  exact free

/-- When the last start after a scroll is over, the column that asked for it is in the window. -/
theorem started_clear (room : board.RoomForGoombas) (n : Nat)
    (started : GoombaStarts board start inputs n)
    (low : (sinceReset board start inputs (n + 1)).game.newColControl.getLsbD 0 = false)
    (scrolled : Scrolled board start inputs (n + 1)) :
    ground ((sinceReset board start inputs (n + 1)).game.blocks.blockCols ⟨9, by decide⟩) =
      0#3 := by
  rcases scrolled.last with ⟨s, last, unreset⟩
  have before := last.before
  have clean := cleanShift board start inputs reset s (unreset s (Nat.le_refl s) before) last.occurs
  have still (j : Nat) (above : s < j) (below : j < n + 1) :
      (sinceReset board start inputs j).shift = false :=
    Bool.eq_false_iff.mpr (last.after j above below)
  -- the ROM output follows the address by two cycles, so the start ends two cycles after a scroll
  have recent : n ≤ s + 2 := by
    by_contra late
    obtain ⟨m, rfl⟩ : ∃ m, n = m + 2 := ⟨n - 2, by omega⟩
    have same := pending_step m (unreset m (by omega) (by omega)) (still m (by omega) (by omega))
    have marked := started.2
    rw [newColControl, sinceReset, level_q_two board start inputs (m + 1)] at marked
    rw [newColControl, sinceReset, level_q_two board start inputs (m + 2)] at low
    rw [pending] at same
    rw [same] at low
    rw [low] at marked
    exact Bool.noConfusion marked
  have word : (sinceReset board start inputs n).game.level.q =
      board.levelMem (sinceReset board start inputs s).game.blocks.currentBlockCol := by
    rcases clean.settled with ⟨address, q⟩
    obtain rfl | rfl | rfl : n = s ∨ n = s + 1 ∨ n = s + 2 := by omega
    · exact q
    · rw [Toplevel.run_game, step_level, SyncRom.step_q, address]
    · exact level_q_two board start inputs (s + 1)
  have free : ground ((sinceReset board start inputs (s + 1)).game.blocks.blockCols
      ⟨9, by decide⟩) = 0#3 := by
    have column : (sinceReset board start inputs (s + 1)).game.blocks.blockCols ⟨9, by decide⟩ =
        blockBits (board.levelMem
          (sinceReset board start inputs s).game.blocks.currentBlockCol) := clean.word
    rw [column]
    apply room
    rw [← word]
    exact started.2
  exact ground_kept (s + 1) (n + 1) before
    (unreset.within (Nat.le_succ s) (Nat.le_refl (n + 1)))
    (fun j above below => still j above below) _ free

theorem start_walled (room : board.RoomForGoombas) (n : Nat)
    (started : GoombaStarts board start inputs n)
    (low : (sinceReset board start inputs (n + 1)).game.newColControl.getLsbD 0 = false)
    (clear : Scrolled board start inputs (n + 1) ∨ FilledClear board start inputs (n + 1)) :
    (sinceReset board start inputs (n + 1)).game.GoombaWalled := by
  have value := goomba_started board start inputs (n + 1) started.1 started.2
  apply startValue_walled _ value
  by_cases scrolled : Scrolled board start inputs (n + 1)
  · exact started_clear reset room n started low scrolled
  · exact groundClear_of_filled reset (n + 1) scrolled (clear.resolve_left scrolled) _

structure Roams (board : Board) (start : Toplevel) (inputs : Nat → Input) (n : Nat) : Prop where
  pulse : FramePulse board start inputs n
  lives : GoombaLives board start inputs n
  low : (sinceReset board start inputs n).game.newColControl.getLsbD 0 = false

omit reset in
theorem ground_opens (n : Nat) (running : (sinceReset board start inputs n).game.resetH = false)
    (still : (sinceReset board start inputs n).shift = false) (px : Int)
    (clear : GroundClear (sinceReset board start inputs n).game.blocks.blockCols px) :
    GroundClear (sinceReset board start inputs (n + 1)).game.blocks.blockCols px := by
  rw [Toplevel.run_game]
  exact step_clear board (sinceReset board start inputs n).clock.pulses _ still running clear

theorem walled_next (outside : board.OutsideEmpty) (n : Nat)
    (lives : GoombaLives board start inputs n)
    (running : (sinceReset board start inputs n).game.resetH = false)
    (low : (sinceReset board start inputs n).game.newColControl.getLsbD 0 = false)
    (next : GoombaLives board start inputs (n + 1))
    (safe : (sinceReset board start inputs (n + 1)).game.goomba.killMario = false)
    (walled : (sinceReset board start inputs n).game.GoombaWalled) :
    (sinceReset board start inputs (n + 1)).game.GoombaWalled := by
  have later := alive_later board start inputs reset n lives
  have band := run_goomba_inBand board start inputs reset n
  by_cases pulse : FramePulse board start inputs n
  · have frame := goomba_frame board start inputs later running low pulse
    have survives := Goomba.frameStep_survives _ _ _ _ _ lives
      (by rw [← frame]; exact next)
    rw [← frame] at survives
    cases survives with
    | touched kill position motion =>
        rw [kill] at safe
        exact Bool.noConfusion safe
    | walked walks moved =>
        cases shift : (sinceReset board start inputs n).shift with
        | true =>
            rw [shift] at moved
            have blocks : (sinceReset board start inputs (n + 1)).game.blocks = _ :=
              step_shiftBlocks board _ (inputs (n + 1))
                (sinceReset board start inputs n).game running shift
            exact walled.scroll outside band walks _ moved (by rw [blocks])
        | false =>
            rw [shift] at moved
            exact walled.walk outside band walks moved (ground_opens n running shift)
  · have quiet := goomba_quiet board start inputs later running low pulse
    have still := still_of_silent board start inputs pulse
    rw [GoombaWalled, quiet]
    exact walled.mono (ground_opens n running still)

theorem harmless_before (n : Nat) (lives : GoombaLives board start inputs n)
    (running : (sinceReset board start inputs n).game.resetH = false)
    (low : (sinceReset board start inputs n).game.newColControl.getLsbD 0 = false)
    (safe : (sinceReset board start inputs (n + 1)).game.goomba.killMario = false) :
    (sinceReset board start inputs n).game.goomba.killMario = false := by
  have later := alive_later board start inputs reset n lives
  by_cases pulse : FramePulse board start inputs n
  · exact pulse_safe board start inputs reset n pulse
  · have quiet := goomba_quiet board start inputs later running low pulse
    rw [quiet] at safe
    exact safe

/-- From the first scroll after a Reset on, and before it over clear ground, a goomba that is not
being started is between walls, as long as none has roamed over other ground. -/
theorem walled_since (outside : board.OutsideEmpty) (room : board.RoomForGoombas) (n : Nat)
    (filled : ∀ k, k < n → Roams board start inputs k → ¬ Scrolled board start inputs k →
      FilledClear board start inputs k)
    (lives : GoombaLives board start inputs n)
    (low : (sinceReset board start inputs n).game.newColControl.getLsbD 0 = false)
    (safe : (sinceReset board start inputs n).game.goomba.killMario = false)
    (clear : Scrolled board start inputs n ∨ FilledClear board start inputs n) :
    (sinceReset board start inputs n).game.GoombaWalled := by
  induction n with
  | zero => exact absurd lives (goomba_spawner board start inputs reset).brought.initially
  | succ n ih =>
      by_cases started : GoombaStarts board start inputs n
      · exact start_walled reset room n started low clear
      rcases (goomba_spawner board start inputs reset).brought.lasts n lives started with
        ⟨lived, running⟩
      have idle := idle_of_unstarted board start inputs n started running
      have before : Scrolled board start inputs n ∨ FilledClear board start inputs n := by
        by_contra neither
        simp only [not_or] at neither
        rcases clear with scrolled | fine
        · rcases scrolled with ⟨j, earlier, shift, unreset⟩
          by_cases now : j = n
          · rw [now] at shift
            have roams : Roams board start inputs n := ⟨pulse_of_shift board start inputs shift, lived, idle⟩
            exact neither.2 (filled n (Nat.lt_succ_self n) roams neither.1)
          · exact neither.1 ⟨j, by omega, shift,
              unreset.within (Nat.le_refl j) (Nat.le_succ n)⟩
        · exact neither.2 ((filledClear_next running).mp fine)
      have harmless := harmless_before reset n lived running idle safe
      exact walled_next reset outside n lived running idle lives safe
        (ih (fun k bound => filled k (Nat.lt_succ_of_lt bound)) lived idle harmless before)

/-- Before the first scroll after a Reset a goomba over a wall stays stuck at the right edge. -/
theorem stuck_since (outside : board.OutsideEmpty) (n : Nat)
    (lives : GoombaLives board start inputs n) (unscrolled : ¬ Scrolled board start inputs n)
    (unfilled : ¬ FilledClear board start inputs n) :
    (sinceReset board start inputs n).game.GoombaStuck := by
  induction n with
  | zero => exact absurd lives (goomba_spawner board start inputs reset).brought.initially
  | succ n ih =>
      by_cases started : GoombaStarts board start inputs n
      · exact startValue_stuck _ (goomba_started board start inputs (n + 1) started.1 started.2)
      rcases (goomba_spawner board start inputs reset).brought.lasts n lives started with
        ⟨lived, running⟩
      have idle := idle_of_unstarted board start inputs n started running
      have still : (sinceReset board start inputs n).shift = false :=
        Bool.eq_false_iff.mpr (fun shift => unscrolled (.now shift running))
      have unscrolledBefore : ¬ Scrolled board start inputs n :=
        fun scrolled => unscrolled (scrolled.next running)
      have unfilledBefore := mt (filledClear_next running).mpr unfilled
      have stuck := ih lived unscrolledBefore unfilledBefore
      have later := alive_later board start inputs reset n lived
      have band := run_goomba_inBand board start inputs reset n
      by_cases pulse : FramePulse board start inputs n
      · have frame := goomba_frame board start inputs later running idle pulse
        have survives := Goomba.frameStep_survives _ _ _ _ _ lived
          (by rw [← frame]; exact lives)
        rw [← frame] at survives
        cases survives with
        | touched kill position motion =>
            rw [GoombaStuck, position, motion]
            exact stuck
        | walked walks moved =>
            rw [still] at moved
            apply stuck.walk outside band walks _ moved
            intro free
            exact wall_of_unfilled reset n unscrolledBefore unfilledBefore
              (ground_of_groundClear _ (by decide) (by decide) free)
      · have quiet := goomba_quiet board start inputs later running idle pulse
        rw [GoombaStuck, quiet]
        exact stuck

end Runs

/-- The goomba keeps to the screen and to its line, the sums of its tests do not wrap, and the cell
at its centre is empty. -/
structure BetweenWalls (g : Game) : Prop where
  left : 59 ≤ g.goomba.goombaXPos.toNat
  right : g.goomba.goombaXPos.toNat ≤ 500
  height : g.goomba.goombaYPos = 420#10
  boxLeft : ((g.goomba.goombaXPos - Goomba.goombaXSize).toNat : Int) =
    g.goomba.goombaXPos.toNat - 20
  boxRight : ((g.goomba.goombaXPos + Goomba.goombaXSize).toNat : Int) =
    g.goomba.goombaXPos.toNat + 20
  boxTop : ((g.goomba.goombaYPos - Goomba.goombaYSize).toNat : Int) =
    g.goomba.goombaYPos.toNat - 20
  boxBottom : ((g.goomba.goombaYPos + Goomba.goombaYSize).toNat : Int) =
    g.goomba.goombaYPos.toNat + 20
  centre : 120 ≤ g.goomba.goombaXPos.toNat → ∃ c r,
    Covers c r g.goomba.goombaXPos.toNat g.goomba.goombaYPos.toNat ∧
      cellId g.blocks.blockCols c r = 0#3

theorem Game.GoombaWalled.betweenWalls {g : Game} (walled : g.GoombaWalled) (band : g.goomba.InBand)
    (alive : g.goomba.isAlive = true) : BetweenWalls g := by
  have left := band.left alive
  have height := band.yPos alive
  have bound := walled.bound
  have clear := walled.centre (goombaWalker_fits _)
  rw [goombaWalker_last] at bound
  have place : g.goomba.goombaYPos.toNat = 420 := by rw [height]; rfl
  refine ⟨left, by omega, height, by bv_omega, by bv_omega, by bv_omega, by bv_omega, ?_⟩
  intro inside
  have covers : Covers ⟨(g.goomba.goombaXPos.toNat - 120) / 40, by omega⟩ ⟨9, by decide⟩
      g.goomba.goombaXPos.toNat g.goomba.goombaYPos.toNat := by
    simp only [Covers]
    omega
  refine ⟨_, _, covers, clear _ _ ?_⟩
  rw [place] at covers
  exact covers

theorem BetweenWalls.ground_clear {g : Game} (between : BetweenWalls g) (c : Fin 10)
    (left : 120 + 40 * (c.val : Int) ≤ g.goomba.goombaXPos.toNat)
    (right : (g.goomba.goombaXPos.toNat : Int) < 160 + 40 * (c.val : Int)) :
    ground (g.blocks.blockCols c) = 0#3 := by
  have place : g.goomba.goombaYPos.toNat = 420 := by rw [between.height]; rfl
  rcases between.centre (by omega) with ⟨c', r, covers, empty⟩
  rw [place] at covers
  have row := ground_row covers
  obtain rfl : c' = c := by
    simp only [Covers] at covers
    apply Fin.ext
    omega
  rw [cellId, row] at empty
  exact empty

theorem Game.GoombaStuck.not_betweenWalls {g : Game} (stuck : g.GoombaStuck)
    (wall : ground (g.blocks.blockCols ⟨9, by decide⟩) ≠ 0#3) : ¬ BetweenWalls g := by
  intro between
  have beyond := stuck.beyond
  have right := between.right
  rw [goombaWalker_last] at beyond
  exact wall (between.ground_clear ⟨9, by decide⟩ (by simp only; omega) (by simp only; omega))

/-- In every game on a level with room for its goombas, a goomba that is not being started is
between walls at all frame pulses up to cycle `last` exactly if, whenever one is there before the
first scroll after a Reset, the word with which the Reset filled the window has no ground. -/
theorem goomba_between_walls_iff (board : Board) (start : Toplevel) (inputs : Nat → Input)
    (outside : board.OutsideEmpty) (room : board.RoomForGoombas)
    (reset : start.game.resetH = true) (last : Nat) :
    (∀ n, n ≤ last → Roams board start inputs n →
        BetweenWalls (sinceReset board start inputs n).game) ↔
      ∀ n, n ≤ last → Roams board start inputs n → ¬ Scrolled board start inputs n →
        FilledClear board start inputs n := by
  constructor
  · intro between n bound roams unscrolled
    by_contra unfilled
    have stuck := stuck_since reset outside n roams.lives unscrolled unfilled
    exact stuck.not_betweenWalls (wall_of_unfilled reset n unscrolled unfilled)
      (between n bound roams)
  · intro filled n bound roams
    have clear : Scrolled board start inputs n ∨ FilledClear board start inputs n :=
      or_iff_not_imp_left.mpr (filled n bound roams)
    have walled := walled_since reset outside room n
      (fun k before => filled k (before.le.trans bound)) roams.lives roams.low
      (pulse_safe board start inputs reset n roams.pulse) clear
    exact walled.betweenWalls (run_goomba_inBand board start inputs reset n) roams.lives

section Stray

def strayBoard : Board where
  levelMem a :=
    if a = 11#8 then 0#6 ++ 0b001#3 ++ 0#27 else if a = 12#8 then 1#6 ++ 0#30 else 0#36
  outside _ _ _ := 0#3

theorem strayBoard_room : strayBoard.RoomForGoombas := by
  intro a marked
  simp only [strayBoard] at marked ⊢
  split at marked
  · exact absurd marked (by decide)
  · next other =>
      rw [if_neg other]
      split
      · decide
      · decide

def strayKeys : List (BitVec 8) := List.replicate 101 0x07#8

/-- `KEY[0]` is pressed for one cycle, the first after the scroll. -/
def tapInput (n : Nat) : Input := ⟨decide (n ≠ 1), 0#8⟩

/-- The board with the Reset of the tap, two cycles after the scroll. -/
def strayStart : Toplevel :=
  Toplevel.run strayBoard (afterScript strayBoard strayKeys 0) tapInput 2

def tapped (g : Game) : Game :=
  (g.step strayBoard (Pulses.all true) ⟨true, 0#8⟩).step strayBoard (Pulses.all false)
    ⟨false, 0#8⟩

def InWall (c : Fin 10) (g : Game) : Prop :=
  g.goomba.isAlive = true ∧ g.newColControl.getLsbD 0 = false ∧
    g.goomba.goombaXPos = 500#10 ∧ ground (g.blocks.blockCols c) ≠ 0#3

instance (c : Fin 10) (g : Game) : Decidable (InWall c g) :=
  inferInstanceAs (Decidable (_ ∧ _ ∧ _ ∧ _))

def straysIn (c : Fin 10) (g : Game) : Bool :=
  (tapped g).force fun reset => reset.resetH && Game.forceIdle strayBoard 2 reset fun pulse =>
    !pulse.resetH && !pulse.goomba.killMario && pulse.play strayBoard
      (fun g => decide (InWall c g)) [0#8]

set_option maxRecDepth 100000 in
theorem stray_played : playHeld strayBoard (straysIn ⟨9, by decide⟩) strayKeys = true := by
  decide +kernel

theorem FrameClock.AtOrigin.silent {c : FrameClock} (origin : c.AtOrigin true) (second : Bool) :
    (c.step false).pulses = Pulses.all false ∧
      ((c.step false).step second).pulses = Pulses.all false ∧
      (((c.step false).step second).step true).pulses = Pulses.all false := by
  have away := origin.away
  rcases origin with ⟨⟨goomba, coins⟩, vgaClk, -, -, edge⟩
  simp [FrameClock.step, FrameClock.pulses, EdgeDetector.step, Pulses.all, vgaClk, away, goomba,
    coins, edge]

def releasedInput (_ : Nat) : Input := ⟨true, 0#8⟩

section Tap

variable (s : Toplevel) (origin : s.clock.AtOrigin true) (running : s.game.resetH = false)
  (safe : s.game.goomba.killMario = false)

include origin running safe

theorem tap_start : (Toplevel.run strayBoard s tapInput 2).clock = (s.clock.step false).step false ∧
    (Toplevel.run strayBoard s tapInput 2).game = tapped s.game := by
  have pulses := FrameClock.pulses_of_synced _ origin.synced
  rw [origin.marioEdge] at pulses
  have clock : (Toplevel.run strayBoard s tapInput 1).clock = s.clock.step false := by
    rw [Toplevel.run_clock, Toplevel.run_start, running]
  have game : (Toplevel.run strayBoard s tapInput 1).game =
      s.game.step strayBoard (Pulses.all true) ⟨true, 0#8⟩ := by
    rw [Toplevel.run_game, Toplevel.run_start, pulses]
    rfl
  have second : (Toplevel.run strayBoard s tapInput 1).game.resetH = false := by
    rw [game, step_resetH, safe]
    rfl
  constructor
  · rw [Toplevel.run_clock, second, clock]
  · rw [Toplevel.run_game, game, clock, (origin.silent false).1]
    rfl

theorem tap_pulse :
    (sinceReset strayBoard (Toplevel.run strayBoard s tapInput 2) releasedInput
        1).clock.AtOrigin true ∧
      (sinceReset strayBoard (Toplevel.run strayBoard s tapInput 2) releasedInput 1).game =
        (Game.idle strayBoard)^[2] (tapped s.game) := by
  rcases tap_start s origin running safe with ⟨clock, game⟩
  have silent := origin.silent false
  have reset : (Toplevel.run strayBoard s tapInput 2).game.resetH = true := by
    rw [game]
    rfl
  generalize Toplevel.run strayBoard s tapInput 2 = tap at *
  have clockOne : (sinceReset strayBoard tap releasedInput 0).clock =
      ((s.clock.step false).step false).step true := by
    rw [Toplevel.run_clock, Toplevel.run_start, clock, reset]
  have gameOne : (sinceReset strayBoard tap releasedInput 0).game =
      Game.idle strayBoard (tapped s.game) := by
    rw [Toplevel.run_game, Toplevel.run_start, clock, silent.2.1, game]
    rfl
  constructor
  · rw [Toplevel.run_clock, clockOne, origin.reset_restarts]
    exact FrameClock.reborn_atOrigin
  · rw [Toplevel.run_game, gameOne, clockOne, silent.2.2]
    rfl

end Tap

/-- A frame after the tap the goomba of column 12 is in the wall of column 11. -/
theorem stray_walled : strayStart.game.resetH = true ∧
    ∃ n, Roams strayBoard strayStart releasedInput n ∧
      InWall ⟨9, by decide⟩ (sinceReset strayBoard strayStart releasedInput n).game := by
  rcases playHeld_sound strayBoard _ strayKeys stray_played with ⟨origin, calm, played⟩
  have pulse := tap_pulse _ origin calm.resetH calm.killMario
  refine ⟨rfl, 1 + frameCycles, ?_⟩
  simp only [straysIn, Game.force_eq, Game.forceIdle_eq, Game.play, Bool.and_eq_true,
    Bool.not_eq_true', decide_eq_true_eq] at played
  rcases played with ⟨-, ⟨running, safe⟩, harmless, settled, inWall⟩
  rcases pulse with ⟨clock, game⟩
  change (sinceReset strayBoard strayStart releasedInput 1).clock.AtOrigin true at clock
  change (sinceReset strayBoard strayStart releasedInput 1).game = _ at game
  rw [← game] at running safe harmless settled inWall
  rcases run_frame strayBoard (sinceReset strayBoard strayStart releasedInput 1)
    (fun k => releasedInput (1 + 1 + k)) clock (fun _ _ => rfl) running safe harmless _
    (Game.settleCycles_few _) settled with ⟨ends, final⟩
  rw [← sinceReset_add] at ends final
  change _ = (Game.idle strayBoard)^[_] (Game.step strayBoard (Pulses.all true) ⟨true, 0#8⟩ _)
    at final
  rw [← final] at inWall
  have edge := congrArg EdgeDetector.rising ends.marioEdge
  exact ⟨⟨edge, inWall.1, inWall.2.1⟩, inWall⟩

theorem goomba_between_walls_iff_stray :
    (∀ n, n ≤ 1 + frameCycles → Roams strayBoard strayStart releasedInput n →
        BetweenWalls (sinceReset strayBoard strayStart releasedInput n).game) ↔
      ∀ n, n ≤ 1 + frameCycles → Roams strayBoard strayStart releasedInput n →
        ¬ Scrolled strayBoard strayStart releasedInput n →
          FilledClear strayBoard strayStart releasedInput n :=
  goomba_between_walls_iff strayBoard strayStart releasedInput (fun _ _ _ => rfl) strayBoard_room
    rfl (1 + frameCycles)

/-- The goomba of column 12 starts in the ground of column 11. -/
theorem stray_not_between : ¬ ∀ (board : Board) (start : Toplevel) (inputs : Nat → Input),
    board.OutsideEmpty → board.RoomForGoombas → start.game.resetH = true →
      ∀ n, Roams board start inputs n → BetweenWalls (sinceReset board start inputs n).game := by
  intro between
  rcases stray_walled with ⟨reset, n, roams, wall⟩
  have walled := between strayBoard strayStart releasedInput (fun _ _ _ => rfl) strayBoard_room
    reset n roams
  apply wall.2.2.2
  apply walled.ground_clear
  · rw [wall.2.2.1]
    decide
  · rw [wall.2.2.1]
    decide

end Stray

end FPGAMario
