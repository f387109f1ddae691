import FPGAMario.CoinTracking
import FPGAMario.GoombaTracking

/-! When a coin or a goomba appears on the screen, against the scroll that brings in its
column. -/

namespace FPGAMario

open Hdl Game BlockArray

theorem Coin.step_running_iff (pulse shift : Bool) (x y : BitVec 10) (block : BitVec 2)
    (c : Coin) : (c.step false false pulse shift x y block).isRunning = true ↔
      c.isRunning = true ∧ c.coinTaken = false ∧ ¬ (pulse = true ∧ c.coinXPos.toNat < 120) := by
  cases taken : c.coinTaken with
  | true => simp [step, taken]
  | false =>
      have scrolls := (Coin.step_scrolls pulse shift x y block c taken).2
      rw [scrolls]
      simp

theorem Coin.running_of_step (reset start pulse shift : Bool) (x y : BitVec 10) (block : BitVec 2)
    (c : Coin) (runs : (c.step reset start pulse shift x y block).isRunning = true)
    (unstarted : ¬ (reset = false ∧ start = true)) : c.isRunning = true ∧ reset = false := by
  cases reset with
  | true => exact Bool.noConfusion runs
  | false =>
      cases start with
      | true => exact absurd ⟨rfl, rfl⟩ unstarted
      | false => exact ⟨((Coin.step_running_iff _ _ _ _ _ _).mp runs).1, rfl⟩

theorem Goomba.alive_of_step (reset start pulse shift : Bool) (spawnX spawnY x y : BitVec 10)
    (polls : GoombaPolls) (g : Goomba)
    (lives : (g.step reset false start pulse shift spawnX spawnY x y polls).isAlive = true)
    (unstarted : ¬ (reset = false ∧ start = true)) : g.isAlive = true ∧ reset = false := by
  cases reset with
  | true => exact Bool.noConfusion lives
  | false =>
      cases start with
      | true => exact absurd ⟨rfl, rfl⟩ unstarted
      | false =>
          refine ⟨?_, rfl⟩
          rw [← Bool.not_eq_false]
          intro dead
          cases pulse with
          | true => simp [step, frameStep, dead] at lives
          | false => simp [step, dead] at lives

theorem Game.not_squished_of_touches (g : Game) (mario : g.mario.InBand)
    (goomba : g.goomba.InBand) (alive : g.goomba.isAlive = true)
    (touches : g.goomba.Touches g.mario.marioXPos g.mario.marioYPos) :
    ¬ g.goomba.Squished g.mario.marioXPos g.mario.marioYPos := by
  have beside := ((touches_iff g mario goomba alive).mp touches).1
  have near := goomba.left alive
  have far := goomba.right alive
  have right := mario.right
  rw [distance] at beside
  intro squished
  rcases squished with ⟨left, inside, -⟩
  bv_omega

section Request

variable (board : Board) (start : Toplevel) (inputs : Nat → Input)

abbrev pending (n : Nat) : BitVec 8 :=
  (sinceReset board start inputs n).game.blocks.currentBlockCol

def Unreset (first last : Nat) : Prop :=
  ∀ k, first ≤ k → k < last → (sinceReset board start inputs k).game.resetH = false

/-- The column that asked for the start in cycle `k` has been shifted in before cycle `n`, with
no Reset since it asked. -/
def Entered (delay k n : Nat) : Prop :=
  ∃ m, k = m + delay ∧ Unreset board start inputs m n ∧
    ∃ j, m ≤ j ∧ j < n ∧ ShiftsIn board start inputs (pending board start inputs m) j

/-- The start in cycle `k` was asked for after the last Reset. -/
def AskedAfresh (delay k : Nat) : Prop :=
  ∃ m, k = m + delay ∧ Unreset board start inputs m k

variable {board start inputs}

theorem Unreset.within {first last low high : Nat} (unreset : Unreset board start inputs first last)
    (above : first ≤ low) (below : high ≤ last) : Unreset board start inputs low high := by
  intro k atLeast less
  exact unreset k (above.trans atLeast) (Nat.lt_of_lt_of_le less below)

theorem pending_step (n : Nat) (running : (sinceReset board start inputs n).game.resetH = false)
    (still : (sinceReset board start inputs n).shift = false) :
    pending board start inputs (n + 1) = pending board start inputs n :=
  step_keptCol board _ (inputs (n + 1)) _ running still

theorem pending_kept (first last : Nat) (ordered : first ≤ last)
    (unreset : Unreset board start inputs first last)
    (still : ∀ j, first ≤ j → j < last → (sinceReset board start inputs j).shift = false) :
    pending board start inputs last = pending board start inputs first := by
  induction last, ordered using Nat.le_induction with
  | base => rfl
  | succ last ordered ih =>
      have running := unreset last ordered (Nat.lt_succ_self last)
      rw [pending_step last running (still last ordered (Nat.lt_succ_self last))]
      exact ih (unreset.within (Nat.le_refl first) (Nat.le_succ last))
        (fun j low high => still j low (Nat.lt_succ_of_lt high))

theorem shiftsIn_of_pending_ne (first last : Nat) (ordered : first ≤ last)
    (unreset : Unreset board start inputs first last)
    (changed : pending board start inputs last ≠ pending board start inputs first) :
    ∃ j, first ≤ j ∧ j < last ∧
      ShiftsIn board start inputs (pending board start inputs first) j := by
  induction last, ordered using Nat.le_induction with
  | base => exact absurd rfl changed
  | succ last ordered ih =>
      have before := unreset.within (Nat.le_refl first) (Nat.le_succ last)
      by_cases same : pending board start inputs last = pending board start inputs first
      · refine ⟨last, ordered, Nat.lt_succ_self last, ?_⟩
        have running := unreset last ordered (Nat.lt_succ_self last)
        refine { running, shift := ?_, column := same }
        rw [← Bool.not_eq_false]
        intro still
        exact changed ((pending_step last running still).trans same)
      · rcases ih before same with ⟨j, low, high, shifted⟩
        exact ⟨j, low, Nat.lt_succ_of_lt high, shifted⟩

variable (reset : start.game.resetH = true)

include reset

theorem scroll_apart (j n : Nat) (shift : (sinceReset board start inputs j).shift = true)
    (later : j < n) (unreset : Unreset board start inputs j n)
    (pulse : FramePulse board start inputs n) : j + 5 ≤ n := by
  rcases (Mario.shift_eq_true _ _).mp shift with ⟨first, past⟩
  cases j with
  | zero =>
      rw [Toplevel.run_game, Toplevel.run_start, step_mario, reset] at past
      change 299 ≤ 140 at past
      omega
  | succ j =>
      have origin := pulse_atOrigin board start inputs j first
      obtain ⟨m, rfl⟩ : ∃ m, n = j + 1 + (m + 1) := ⟨n - j - 2, by omega⟩
      have since := sinceReset_add board start inputs (j + 1)
      have quiet (k : Nat) (bound : k < m + 1) :
          (Toplevel.run board (sinceReset board start inputs (j + 1))
            (fun k => inputs (j + 2 + k)) k).game.resetH = false := by
        rw [← since]
        exact unreset (j + 1 + k) (by omega) (by omega)
      have rising := run_rising board _ (fun k => inputs (j + 2 + k)) origin m quiet
      rw [FramePulse, since, rising, decide_eq_true_eq] at pulse
      omega

end Request

section Spawner

variable (board : Board) (start : Toplevel) (inputs : Nat → Input)

/-- What starts whenever the pending column of `delay` cycles ago asks for it, and is present
from then on at most until the next Reset. -/
structure Spawner (delay : Nat) (asks : BitVec 6 → Bool) (starts present : Nat → Prop) :
    Prop where
  short : delay ≤ 3
  starts_iff : ∀ m, starts (m + delay) ↔
    (sinceReset board start inputs (m + delay)).game.resetH = false ∧
      asks (control (board.levelMem (pending board start inputs m))) = true
  brought : BroughtBy starts
    (fun n => (sinceReset board start inputs n).game.resetH = false) present

variable {board start inputs} (reset : start.game.resetH = true) {delay : Nat}
  {asks : BitVec 6 → Bool} {starts present : Nat → Prop}
  (spawner : Spawner board start inputs delay asks starts present) {n k : Nat}

include reset

theorem Entered.settled (pulse : FramePulse board start inputs n)
    (entered : Entered board start inputs delay k n) :
    ∃ m, n = m + 4 ∧ k < m + delay ∧ Unreset board start inputs m n ∧
      ∀ l, m ≤ l → l ≤ n → pending board start inputs l = pending board start inputs n := by
  rcases entered with ⟨m, rfl, unreset, j, after, before, shifted⟩
  have apart := scroll_apart reset j n shifted.shift before
    (unreset.within after (Nat.le_refl n)) pulse
  obtain ⟨l, rfl⟩ : ∃ l, n = l + 4 := ⟨n - 4, by omega⟩
  refine ⟨l, rfl, by omega, unreset.within (by omega) (Nat.le_refl _), ?_⟩
  intro i low high
  symm
  apply pending_kept i (l + 4) high (unreset.within (by omega) (Nat.le_refl _))
  intro r atLeast less
  rw [← Bool.not_eq_true]
  intro shift
  have close := scroll_apart reset r (l + 4) shift less
    (unreset.within (by omega) (Nat.le_refl _)) pulse
  omega

include spawner

/-- Then nothing starts in this cycle or the last one, for the pending column does not ask. -/
theorem Entered.silent (pulse : FramePulse board start inputs n) (last : LastBefore starts n k)
    (entered : Entered board start inputs delay k n) :
    asks (control (board.levelMem (pending board start inputs n))) = false ∧ ¬ starts n := by
  rcases entered.settled reset pulse with ⟨l, rfl, earlier, unreset, same⟩
  have short := spawner.short
  have silent : asks (control (board.levelMem (pending board start inputs (l + 4)))) = false := by
    rw [← Bool.not_eq_true]
    intro asked
    have cycle : l + (3 - delay) + delay = l + 3 := by omega
    have started : starts (l + 3) := by
      rw [← cycle, spawner.starts_iff, same _ (by omega) (by omega)]
      exact ⟨unreset _ (by omega) (by omega), asked⟩
    exact last.after (l + 3) (by omega) (by omega) started
  refine ⟨silent, ?_⟩
  intro started
  have cycle : l + (4 - delay) + delay = l + 4 := by omega
  rw [← cycle, spawner.starts_iff, same _ (by omega) (by omega), silent] at started
  exact Bool.noConfusion started.2

/-- The column of what is present at a pulse has been shifted in exactly when the pending column
does not ask for another start, and the last one was asked for since Reset. -/
theorem Spawner.entered_iff (pulse : FramePulse board start inputs n) (now : present n) :
    (∃ k, LastBefore starts n k ∧ Entered board start inputs delay k n) ↔
      asks (control (board.levelMem (pending board start inputs n))) = false ∧
        ∀ k, LastBefore starts n k → AskedAfresh board start inputs delay k := by
  constructor
  · intro shown
    rcases shown with ⟨k, last, entered⟩
    refine ⟨(entered.silent reset spawner pulse last).1, ?_⟩
    intro again lastAgain
    rcases entered with ⟨m, asked, unreset, -⟩
    rw [lastAgain.unique last]
    exact ⟨m, asked, unreset.within (Nat.le_refl m) last.before.le⟩
  · intro clear
    rcases clear with ⟨silent, afresh⟩
    rcases spawner.brought.exists_lastBefore n now with ⟨k, last⟩
    rcases afresh k last with ⟨m, rfl, unreset⟩
    rcases (spawner.starts_iff m).mp last.occurs with ⟨running, asked⟩
    have since : Unreset board start inputs m n := by
      intro r above below
      rcases Nat.lt_trichotomy r (m + delay) with earlier | rfl | later
      · exact unreset r above earlier
      · exact running
      · exact spawner.brought.quiet_since now last r later below
    refine ⟨m + delay, last, m, rfl, since, ?_⟩
    apply shiftsIn_of_pending_ne m n ((Nat.le_add_right m delay).trans last.before.le) since
    intro same
    rw [same, asked] at silent
    exact Bool.noConfusion silent

end Spawner

section Slots

variable (board : Board) (start : Toplevel) (inputs : Nat → Input)

def CoinStarts (i : Fin 4) (n : Nat) : Prop :=
  (sinceReset board start inputs n).game.resetH = false ∧
    (sinceReset board start inputs n).game.startCoin.getLsbD i.val = true

def CoinRuns (i : Fin 4) (n : Nat) : Prop :=
  ((sinceReset board start inputs n).game.coins i).isRunning = true

def GoombaStarts (n : Nat) : Prop :=
  (sinceReset board start inputs n).game.resetH = false ∧
    (sinceReset board start inputs n).game.newColControl.getLsbD 0 = true

def GoombaLives (n : Nat) : Prop :=
  (sinceReset board start inputs n).game.goomba.isAlive = true

/-- A running coin belongs to a column that has been shifted in, and scrolls. -/
structure CoinShown (i : Fin 4) (n : Nat) : Prop where
  entered : CoinRuns board start inputs i n →
    ∃ k, LastBefore (CoinStarts board start inputs i) n k ∧ Entered board start inputs 3 k n
  scrolls : CoinRuns board start inputs i n → CoinRuns board start inputs i (n + 1) →
    (sinceReset board start inputs n).shift = true →
      ((sinceReset board start inputs (n + 1)).game.coins i).coinXPos.toNat + 40 =
        ((sinceReset board start inputs n).game.coins i).coinXPos.toNat

structure GoombaShown (n : Nat) : Prop where
  entered : GoombaLives board start inputs n →
    ∃ k, LastBefore (GoombaStarts board start inputs) n k ∧ Entered board start inputs 2 k n
  scrolls : GoombaLives board start inputs n → GoombaLives board start inputs (n + 1) →
    (sinceReset board start inputs n).shift = true → KeepsPlace board start inputs n

/-- While slot `i` runs, the pending column does not ask for it, and it was last started by a
column that became pending after the last Reset. -/
def CoinClear (i : Fin 4) (n : Nat) : Prop :=
  CoinRuns board start inputs i n →
    (startCoinIn (control (board.levelMem (pending board start inputs n)))).getLsbD i.val =
        false ∧
      ∀ k, LastBefore (CoinStarts board start inputs i) n k → AskedAfresh board start inputs 3 k

/-- The same of the goomba; besides, it does not touch Mario in a scroll. -/
def GoombaClear (n : Nat) : Prop :=
  GoombaLives board start inputs n →
    ((control (board.levelMem (pending board start inputs n))).getLsbD 0 = false ∧
      ∀ k, LastBefore (GoombaStarts board start inputs) n k →
        AskedAfresh board start inputs 2 k) ∧
    ¬ ((sinceReset board start inputs n).game.resetH = false ∧
      (sinceReset board start inputs n).shift = true ∧
      (sinceReset board start inputs n).game.goomba.Touches
        (sinceReset board start inputs n).game.mario.marioXPos
        (sinceReset board start inputs n).game.mario.marioYPos)

theorem idle_of_unstarted (n : Nat) (unstarted : ¬ GoombaStarts board start inputs n)
    (running : (sinceReset board start inputs n).game.resetH = false) :
    (sinceReset board start inputs n).game.newColControl.getLsbD 0 = false := by
  rw [← Bool.not_eq_true]
  intro started
  exact unstarted ⟨running, started⟩

variable (reset : start.game.resetH = true)

include reset

theorem coin_spawner (i : Fin 4) : Spawner board start inputs 3
    (fun w => (startCoinIn w).getLsbD i.val) (CoinStarts board start inputs i)
    (CoinRuns board start inputs i) where
  short := Nat.le_refl 3
  starts_iff m := by
    have word := startCoin_three board start inputs (m + 1)
    rw [CoinStarts, sinceReset, Nat.add_right_comm, word]
  brought := {
    initially := by
      rw [CoinRuns, sinceReset, coin_reset board start inputs 0 i reset]
      exact Bool.noConfusion
    lasts := by
      intro n runs unstarted
      rw [CoinRuns, Toplevel.run_game, step_coins] at runs
      exact Coin.running_of_step _ _ _ _ _ _ _ _ runs unstarted }

theorem goomba_spawner : Spawner board start inputs 2 (fun w => w.getLsbD 0)
    (GoombaStarts board start inputs) (GoombaLives board start inputs) where
  short := by omega
  starts_iff m := by
    have word := level_q_two board start inputs (m + 1)
    rw [GoombaStarts, newColControl, sinceReset, Nat.add_right_comm, word]
  brought := {
    initially := by
      rw [GoombaLives, sinceReset_zero_dead board start inputs reset]
      exact Bool.noConfusion
    lasts := by
      intro n lives unstarted
      rw [GoombaLives, Toplevel.run_game, step_goomba] at lives
      exact Goomba.alive_of_step _ _ _ _ _ _ _ _ _ _ lives unstarted }

theorem coin_scrolls (i : Fin 4) (n : Nat) (later : 0 < n) (pulse : FramePulse board start inputs n)
    (unstarted : ¬ CoinStarts board start inputs i n)
    (next : CoinRuns board start inputs i (n + 1))
    (shift : (sinceReset board start inputs n).shift = true) :
    ((sinceReset board start inputs (n + 1)).game.coins i).coinXPos.toNat + 40 =
      ((sinceReset board start inputs n).game.coins i).coinXPos.toNat := by
  have running := ((coin_spawner board start inputs reset i).brought.lasts n next unstarted).2
  have idle : (sinceReset board start inputs n).game.startCoin.getLsbD i.val = false := by
    rw [← Bool.not_eq_true]
    intro started
    exact unstarted ⟨running, started⟩
  rw [Toplevel.shift, pulse] at shift
  rw [CoinRuns, run_frameStep board start inputs n later pulse, step_coins_all, running, idle,
    shift, Coin.step_running_iff] at next
  rcases next with ⟨-, untaken, inside⟩
  have wide : 120 ≤ ((sinceReset board start inputs n).game.coins i).coinXPos.toNat := by
    by_contra out
    exact inside ⟨rfl, Nat.lt_of_not_le out⟩
  rw [run_frameStep board start inputs n later pulse, step_coins_all, running, idle, shift,
    (Coin.step_scrolls _ _ _ _ _ _ untaken).1, if_pos ⟨rfl, wide, rfl⟩]
  omega

theorem coin_shown_iff (i : Fin 4) (n : Nat) (pulse : FramePulse board start inputs n) :
    CoinShown board start inputs i n ↔ CoinClear board start inputs i n := by
  have spawner := coin_spawner board start inputs reset i
  constructor
  · intro shown runs
    exact (spawner.entered_iff reset pulse runs).mp (shown.entered runs)
  · intro clear
    have entered (runs : CoinRuns board start inputs i n) :=
      (spawner.entered_iff reset pulse runs).mpr (clear runs)
    refine ⟨entered, ?_⟩
    intro runs next shift
    rcases entered runs with ⟨k, last, came⟩
    exact coin_scrolls board start inputs reset i n (by have := last.before; omega) pulse
      (came.silent reset spawner pulse last).2 next shift

theorem goomba_place_iff (n : Nat) (lives : GoombaLives board start inputs n)
    (unstarted : ¬ GoombaStarts board start inputs n)
    (next : GoombaLives board start inputs (n + 1)) :
    KeepsPlace board start inputs n ↔ ¬ ((sinceReset board start inputs n).shift = true ∧
      (sinceReset board start inputs n).game.goomba.Touches
        (sinceReset board start inputs n).game.mario.marioXPos
        (sinceReset board start inputs n).game.mario.marioYPos) := by
  have running := ((goomba_spawner board start inputs reset).brought.lasts n next unstarted).2
  have idle := idle_of_unstarted board start inputs n unstarted running
  have kept := keepsPlace_unstarted board start inputs reset
    (alive_later board start inputs reset n lives) running idle lives next
  simp only [Undisplaced, idle, Bool.false_eq_true, if_false] at kept
  exact kept

theorem goomba_touched (n : Nat) (pulse : FramePulse board start inputs n)
    (lives : GoombaLives board start inputs n) (unstarted : ¬ GoombaStarts board start inputs n)
    (running : (sinceReset board start inputs n).game.resetH = false)
    (touches : (sinceReset board start inputs n).game.goomba.Touches
      (sinceReset board start inputs n).game.mario.marioXPos
      (sinceReset board start inputs n).game.mario.marioYPos) :
    GoombaLives board start inputs (n + 1) := by
  have idle := idle_of_unstarted board start inputs n unstarted running
  have later := alive_later board start inputs reset n lives
  have beside := Game.not_squished_of_touches _ (run_inBand board start inputs reset n)
    (run_goomba_inBand board start inputs reset n) lives touches
  have alive : (sinceReset board start inputs n).game.goomba.isAlive = true := lives
  rw [GoombaLives, run_frameStep board start inputs n later pulse, step_goomba, running, idle]
  simp only [Goomba.step, Bool.or_false, Bool.false_eq_true, if_false, if_true, Pulses.all]
  rw [Goomba.frameStep, if_pos alive, if_neg beside, if_pos touches]
  exact alive

theorem goomba_shown_iff (n : Nat) (pulse : FramePulse board start inputs n) :
    GoombaShown board start inputs n ↔ GoombaClear board start inputs n := by
  have spawner := goomba_spawner board start inputs reset
  have place := goomba_place_iff board start inputs reset n
  constructor
  · intro shown lives
    refine ⟨(spawner.entered_iff reset pulse lives).mp (shown.entered lives), ?_⟩
    intro displaced
    rcases displaced with ⟨running, shift, touches⟩
    rcases shown.entered lives with ⟨k, last, came⟩
    have unstarted := (came.silent reset spawner pulse last).2
    have next := goomba_touched board start inputs reset n pulse lives unstarted running touches
    exact (place lives unstarted next).mp (shown.scrolls lives next shift) ⟨shift, touches⟩
  · intro clear
    have entered (lives : GoombaLives board start inputs n) :=
      (spawner.entered_iff reset pulse lives).mpr (clear lives).1
    refine ⟨entered, ?_⟩
    intro lives next shift
    rcases entered lives with ⟨k, last, came⟩
    have unstarted := (came.silent reset spawner pulse last).2
    have running := (spawner.brought.lasts n next unstarted).2
    rw [place lives unstarted next]
    intro displaced
    exact (clear lives).2 ⟨running, displaced⟩

/-- In the frames up to cycle `n` nothing appears before its column has been shifted in, and
everything scrolls with the blocks, exactly as long as nothing that is present is asked for by
the pending column, left over from before the last Reset, or stopped by a touch. -/
theorem nothing_early_iff (n : Nat) :
    (∀ k, k ≤ n → FramePulse board start inputs k →
        (∀ i, CoinShown board start inputs i k) ∧ GoombaShown board start inputs k) ↔
      ∀ k, k ≤ n → FramePulse board start inputs k →
        (∀ i, CoinClear board start inputs i k) ∧ GoombaClear board start inputs k := by
  have frame (k : Nat) (pulse : FramePulse board start inputs k) :
      (∀ i, CoinShown board start inputs i k) ∧ GoombaShown board start inputs k ↔
        (∀ i, CoinClear board start inputs i k) ∧ GoombaClear board start inputs k :=
    and_congr (forall_congr' fun i => coin_shown_iff board start inputs reset i k pulse)
      (goomba_shown_iff board start inputs reset k pulse)
  constructor
  · intro shown k before pulse
    exact (frame k pulse).mp (shown k before pulse)
  · intro clear k before pulse
    exact (frame k pulse).mpr (clear k before pulse)

end Slots

section First

def CoinAhead (i : Fin 4) (g : Game) : Prop :=
  (g.coins i).isRunning = true ∧ g.blocks.currentBlockCol = 10#8

instance (i : Fin 4) (g : Game) : Decidable (CoinAhead i g) := inferInstanceAs (Decidable (_ ∧ _))

theorem low_ahead : playHeld lowBoard (fun g => decide (CoinAhead 0 g)) [] = true := by
  decide +kernel

theorem nothing_early_iff_low :
    (∀ k, k ≤ scriptEnd [] → FramePulse lowBoard (Toplevel.held lowBoard) (scriptInputs []) k →
        (∀ i, CoinShown lowBoard (Toplevel.held lowBoard) (scriptInputs []) i k) ∧
          GoombaShown lowBoard (Toplevel.held lowBoard) (scriptInputs []) k) ↔
      ∀ k, k ≤ scriptEnd [] → FramePulse lowBoard (Toplevel.held lowBoard) (scriptInputs []) k →
        (∀ i, CoinClear lowBoard (Toplevel.held lowBoard) (scriptInputs []) i k) ∧
          GoombaClear lowBoard (Toplevel.held lowBoard) (scriptInputs []) k :=
  nothing_early_iff lowBoard (Toplevel.held lowBoard) (scriptInputs []) rfl (scriptEnd [])

/-- At the first frame pulse after Reset the coin of column 10 is on the screen. -/
theorem low_coin_early : ¬ ∀ (board : Board) (start : Toplevel) (inputs : Nat → Input),
    start.game.resetH = true → ∀ n, FramePulse board start inputs n →
      (∀ i, CoinShown board start inputs i n) ∧ GoombaShown board start inputs n := by
  intro shown
  rcases playHeld_sound lowBoard _ [] low_ahead with ⟨origin, -, passed⟩
  obtain ⟨n, atEnd⟩ : ∃ n, n = scriptEnd [] := ⟨_, rfl⟩
  rw [afterScript, Nat.add_zero, ← atEnd] at origin passed
  clear atEnd
  rcases of_decide_eq_true passed with ⟨runs, column⟩
  have pulse : FramePulse lowBoard (Toplevel.held lowBoard) (scriptInputs []) n :=
    congrArg EdgeDetector.rising origin.marioEdge
  have early := (shown lowBoard (Toplevel.held lowBoard) (scriptInputs []) rfl n pulse).1 0
  rw [coin_shown_iff lowBoard _ _ rfl 0 n pulse] at early
  have silent := (early runs).1
  rw [pending, column] at silent
  revert silent
  decide

end First

end FPGAMario
