import FPGAMario.Playback
import FPGAMario.ResetWindow

/-! Games played from a script that names one keycode for every video frame, started from the
state in which `KEY[0]` holds the board. -/

namespace FPGAMario

open Hdl

variable {Result : Type}

def Mario.force (m : Mario) (next : Mario → Result) : Result :=
  forceBits m.marioXPos fun x => forceBits m.marioYPos fun y =>
    forceBits m.marioXMotion fun dx => forceBits m.marioYMotion fun dy =>
      forceBits m.jumpCounter fun counter => forceBool m.falling fun falling =>
        forceBool m.isJumping fun jumping => forceBool m.direction fun direction =>
          forceBits m.runCounter fun run => forceBits m.runSpriteTimer fun timer =>
            next ⟨x, y, dx, dy, counter, falling, jumping, direction, run, timer⟩

def Goomba.force (g : Goomba) (next : Goomba → Result) : Result :=
  forceBits g.goombaXPos fun x => forceBits g.goombaYPos fun y =>
    forceBits g.goombaXMotion fun dx => forceBits g.goombaYMotion fun dy =>
      forceBool g.falling fun falling => forceBool g.isAlive fun alive =>
        forceBool g.killMario fun kill => forceBool g.goombaSprite fun sprite =>
          forceBits g.spriteTimer fun timer => forceBool g.goombaKilled fun killed =>
            next ⟨x, y, dx, dy, falling, alive, kill, sprite, timer, killed⟩

def Coin.force (c : Coin) (next : Coin → Result) : Result :=
  forceBits c.coinXPos fun x => forceBits c.coinYPos fun y =>
    forceBool c.coinTaken fun taken => forceBool c.isRunning fun running =>
      next ⟨x, y, taken, running⟩

def Game.force (g : Game) (next : Game → Result) : Result :=
  forceBool g.resetH fun reset => forceBits g.score fun score =>
    forceBits g.startCoin fun startCoin => g.mario.force fun mario => g.goomba.force fun goomba =>
      forceTen forceBits g.blocks.blockCols fun cols =>
        forceBits g.blocks.currentBlockCol fun column => forceBits g.level.address fun address =>
          forceBits g.level.q fun q => forceFour Coin.force g.coins fun coins =>
            next ⟨reset, score, startCoin, mario, goomba, ⟨cols, column⟩, ⟨address, q⟩, coins⟩

@[simp] theorem Mario.force_eq (m : Mario) (next : Mario → Result) : m.force next = next m := by
  simp [Mario.force]

@[simp] theorem Goomba.force_eq (g : Goomba) (next : Goomba → Result) :
    g.force next = next g := by
  simp [Goomba.force]

@[simp] theorem Coin.force_eq (c : Coin) (next : Coin → Result) : c.force next = next c := by
  simp [Coin.force]

@[simp] theorem Game.force_eq (g : Game) (next : Game → Result) : g.force next = next g := by
  simp only [Game.force, forceBool_eq, forceBits_eq, Mario.force_eq, Goomba.force_eq,
    forceTen_eq forceBits forceBits_eq, forceFour_eq Coin.force Coin.force_eq]

namespace Game

def forceIdle (board : Board) : Nat → Game → (Game → Result) → Result
  | 0, g, next => next g
  | n + 1, g, next => (g.idle board).force fun later => forceIdle board n later next

theorem forceIdle_eq (board : Board) (n : Nat) (g : Game) (next : Game → Result) :
    forceIdle board n g next = next ((idle board)^[n] g) := by
  induction n generalizing g with
  | zero => rfl
  | succ n ih => rw [forceIdle, force_eq, ih, Function.iterate_succ_apply]

/-- Cycles without a pulse after which a frame has settled: a scroll has to pass through the
ROM, `start_coin` and the coin. -/
def settleCycles (g : Game) : Nat := if g.mario.PastMiddle then 5 else 1

theorem settleCycles_few (g : Game) : g.settleCycles < frameCycles := by
  simp only [settleCycles, frameCycles]
  split <;> omega

/-- Plays the script from a calm game at its pulse. Every frame has to end calm, without a
kill, and the last state has to pass the test. -/
def play (board : Board) (test : Game → Bool) : List (BitVec 8) → Game → Bool
  | [], g => test g
  | key :: keys, g =>
      (g.step board (Pulses.all true) ⟨true, key⟩).force fun first =>
        forceIdle board g.settleCycles first fun settled =>
          !first.goomba.killMario && (decide (settled.Calm board) && play board test keys settled)

end Game

def keyInputs (keys : List (BitVec 8)) (n : Nat) : Input :=
  ⟨true, keys.getD (n / frameCycles) 0#8⟩

theorem keyInputs_cons (key : BitVec 8) (keys : List (BitVec 8)) (n : Nat) :
    keyInputs (key :: keys) (frameCycles + n) = keyInputs keys n := by
  have later : (frameCycles + n) / frameCycles = n / frameCycles + 1 := by
    simp only [frameCycles]
    omega
  rw [keyInputs, keyInputs, later, List.getD_cons_succ]

theorem run_keyInputs_cons (board : Board) (start : Toplevel) (key : BitVec 8)
    (keys : List (BitVec 8)) (n : Nat) :
    Toplevel.run board start (keyInputs (key :: keys)) (frameCycles + n) =
      Toplevel.run board (Toplevel.run board start (keyInputs (key :: keys)) frameCycles)
        (keyInputs keys) n := by
  have shifted : (fun k => keyInputs (key :: keys) (frameCycles + k)) = keyInputs keys :=
    funext (keyInputs_cons key keys)
  rw [Toplevel.run, run_add, shifted]

theorem run_keyInputs_frame (board : Board) (start : Toplevel) (key : BitVec 8)
    (keys : List (BitVec 8)) (origin : start.clock.AtOrigin true)
    (calm : start.game.Calm board)
    (safe : (start.game.step board (Pulses.all true) ⟨true, key⟩).goomba.killMario = false)
    (settled : ((Game.idle board)^[start.game.settleCycles]
      (start.game.step board (Pulses.all true) ⟨true, key⟩)).Calm board) :
    (Toplevel.run board start (keyInputs (key :: keys)) frameCycles).clock.AtOrigin true ∧
      (Toplevel.run board start (keyInputs (key :: keys)) frameCycles).game =
        (Game.idle board)^[start.game.settleCycles]
          (start.game.step board (Pulses.all true) ⟨true, key⟩) := by
  have input : keyInputs (key :: keys) 0 = ⟨true, key⟩ := rfl
  rw [← input] at safe settled ⊢
  exact run_frame board start (keyInputs (key :: keys)) origin (fun _ _ => rfl) calm.resetH
    calm.killMario safe start.game.settleCycles start.game.settleCycles_few settled

theorem play_sound (board : Board) (test : Game → Bool) (keys : List (BitVec 8))
    (start : Toplevel) (origin : start.clock.AtOrigin true) (calm : start.game.Calm board)
    (played : start.game.play board test keys = true) :
    let last := Toplevel.run board start (keyInputs keys) (frameCycles * keys.length)
    last.clock.AtOrigin true ∧ last.game.Calm board ∧ test last.game = true := by
  induction keys generalizing start with
  | nil => exact ⟨origin, calm, played⟩
  | cons key keys ih =>
      simp only [Game.play, Game.force_eq, Game.forceIdle_eq, Bool.and_eq_true, Bool.not_eq_true',
        decide_eq_true_eq] at played
      rcases played with ⟨safe, settled, rest⟩
      rcases run_keyInputs_frame board start key keys origin calm safe settled with ⟨clock, game⟩
      rw [← game] at settled rest
      have length : frameCycles * (key :: keys).length =
          frameCycles + frameCycles * keys.length := by
        rw [List.length_cons, Nat.mul_succ, Nat.add_comm]
      rw [length, run_keyInputs_cons]
      exact ih _ clock settled rest

theorem play_running (board : Board) (test : Game → Bool) (keys : List (BitVec 8))
    (start : Toplevel) (origin : start.clock.AtOrigin true) (calm : start.game.Calm board)
    (played : start.game.play board test keys = true) (n : Nat)
    (bound : n < frameCycles * keys.length) :
    (Toplevel.run board start (keyInputs keys) (n + 1)).game.resetH = false := by
  induction keys generalizing start n with
  | nil => exact absurd bound (Nat.not_lt_zero n)
  | cons key keys ih =>
      simp only [Game.play, Game.force_eq, Game.forceIdle_eq, Bool.and_eq_true, Bool.not_eq_true',
        decide_eq_true_eq] at played
      rcases played with ⟨safe, settled, rest⟩
      rw [List.length_cons, Nat.mul_succ] at bound
      rcases Nat.lt_or_ge n frameCycles with early | late
      · have frame := run_frame_cycle board start (keyInputs (key :: keys)) origin
          (fun _ _ => rfl) calm.resetH safe calm.killMario n early
        have first : (start.game.step board (Pulses.all true) ⟨true, key⟩).resetH = false := by
          rw [Game.step_resetH, calm.killMario]
          rfl
        rw [frame.2]
        exact Game.iterate_idle_resetH board _ safe first n
      · rcases run_keyInputs_frame board start key keys origin calm safe settled with
          ⟨clock, game⟩
        rw [← game] at settled rest
        obtain ⟨k, rfl⟩ := Nat.exists_eq_add_of_le late
        rw [Nat.add_assoc, run_keyInputs_cons]
        exact ih _ clock settled rest k (by omega)

/-- Inputs of a script played from the held board: `KEY[0]` is released at once and the first
frame passes without a key. -/
def scriptInputs (keys : List (BitVec 8)) (n : Nat) : Input :=
  keyInputs (0#8 :: keys) (n - 1)

/-- The cycle, counted from the Reset cycle, of the pulse that follows a script. -/
@[irreducible] def scriptEnd (keys : List (BitVec 8)) : Nat := frameCycles * (keys.length + 1)

theorem scriptEnd_positive (keys : List (BitVec 8)) : 0 < scriptEnd keys := by
  rw [scriptEnd]
  exact Nat.mul_pos (by decide) (Nat.succ_pos _)

abbrev afterScript (board : Board) (keys : List (BitVec 8)) (n : Nat) : Toplevel :=
  sinceReset board (Toplevel.held board) (scriptInputs keys) (scriptEnd keys + n)

def playHeld (board : Board) (test : Game → Bool) (keys : List (BitVec 8)) : Bool :=
  Game.forceIdle board 7 (Game.held board) fun opening =>
    decide (opening.Calm board) && opening.play board test keys

section Opening

variable (board : Board) (inputs : Nat → Input) (released : ∀ k, (inputs k).key0 = true)

include released

theorem held_first :
    (Toplevel.run board (Toplevel.held board) inputs 1).clock.AtOrigin false ∧
      (Toplevel.run board (Toplevel.held board) inputs 1).game = (Game.held board).idle board ∧
      (Toplevel.run board (Toplevel.held board) inputs 1).game.step board (Pulses.all false)
        (inputs 1) = (Game.idle board)^[1] ((Game.held board).idle board) := by
  have game : (Toplevel.run board (Toplevel.held board) inputs 1).game =
      (Game.held board).idle board := Game.step_idle board (Game.held board) _ (released 0)
  refine ⟨⟨FrameClock.synced_step _ _ (held_synced board), rfl, rfl, rfl, rfl⟩, game, ?_⟩
  rw [game]
  exact Game.step_idle board _ _ (released 1)

theorem held_cycle (n : Nat) (bound : n ≤ frameCycles) :
    (Toplevel.run board (Toplevel.held board) inputs (1 + n)).game =
      (Game.idle board)^[n] ((Game.held board).idle board) := by
  rcases held_first board inputs released with ⟨origin, game, second⟩
  cases n with
  | zero => exact game
  | succ n =>
      have frame := run_frame_cycle board _ (fun k => inputs (1 + k)) origin
        (fun k _ => released (1 + k)) (by rw [game]; rfl)
        (by rw [second]; exact Game.iterate_idle_killMario board (Game.held board) rfl 2)
        (by rw [game]; rfl) n bound
      rw [second, ← Function.iterate_add_apply] at frame
      rw [Toplevel.run, run_add]
      exact frame.2

theorem held_opening (calm : ((Game.idle board)^[7] (Game.held board)).Calm board) :
    let first := Toplevel.run board (Toplevel.held board) inputs (1 + frameCycles)
    first.clock.AtOrigin true ∧ first.game = (Game.idle board)^[7] (Game.held board) := by
  rcases held_first board inputs released with ⟨origin, game, second⟩
  have settled : (Game.idle board)^[5] ((Game.idle board)^[1] ((Game.held board).idle board)) =
      (Game.idle board)^[7] (Game.held board) := rfl
  have frame := run_frame board _ (fun k => inputs (1 + k)) origin
    (fun k _ => released (1 + k)) (by rw [game]; rfl) (by rw [game]; rfl)
    (by rw [second]; exact Game.iterate_idle_killMario board (Game.held board) rfl 2) 5 (by decide)
  rw [second, settled] at frame
  simp only [Toplevel.run, run_add]
  exact frame calm

end Opening

theorem run_scriptInputs (board : Board) (start : Toplevel) (keys : List (BitVec 8)) (n : Nat) :
    Toplevel.run board start (scriptInputs keys) (1 + frameCycles + n) =
      Toplevel.run board (Toplevel.run board start (scriptInputs keys) (1 + frameCycles))
        (keyInputs keys) n := by
  have shifted : (fun k => scriptInputs keys (1 + frameCycles + k)) = keyInputs keys := by
    funext k
    have position : 1 + frameCycles + k - 1 = frameCycles + k := by omega
    rw [scriptInputs, position, keyInputs_cons]
  rw [Toplevel.run, run_add, shifted]

theorem playHeld_sound (board : Board) (test : Game → Bool) (keys : List (BitVec 8))
    (played : playHeld board test keys = true) :
    (afterScript board keys 0).clock.AtOrigin true ∧ (afterScript board keys 0).game.Calm board ∧
      test (afterScript board keys 0).game = true := by
  simp only [playHeld, Game.forceIdle_eq, Bool.and_eq_true, decide_eq_true_eq] at played
  rcases played with ⟨calm, rest⟩
  rcases held_opening board (scriptInputs keys) (fun _ => rfl) calm with ⟨origin, game⟩
  rw [← game] at calm rest
  have length : scriptEnd keys + 0 + 1 = 1 + frameCycles + frameCycles * keys.length := by
    rw [scriptEnd, Nat.mul_succ]
    omega
  rw [afterScript, sinceReset, length, run_scriptInputs]
  exact play_sound board test keys _ origin calm rest

theorem playHeld_running (board : Board) (test : Game → Bool) (keys : List (BitVec 8))
    (played : playHeld board test keys = true) (n : Nat) (bound : n ≤ scriptEnd keys) :
    (sinceReset board (Toplevel.held board) (scriptInputs keys) n).game.resetH = false := by
  simp only [playHeld, Game.forceIdle_eq, Bool.and_eq_true, decide_eq_true_eq] at played
  rcases played with ⟨calm, rest⟩
  rcases Nat.lt_or_ge frameCycles n with late | early
  · rcases held_opening board (scriptInputs keys) (fun _ => rfl) calm with ⟨origin, game⟩
    rw [← game] at calm rest
    obtain ⟨k, rfl⟩ := Nat.exists_eq_add_of_lt late
    have position : frameCycles + k + 1 + 1 = 1 + frameCycles + (k + 1) := by omega
    rw [sinceReset, position, run_scriptInputs]
    apply play_running board test keys _ origin calm rest k
    rw [scriptEnd, Nat.mul_succ] at bound
    omega
  · rw [sinceReset, Nat.add_comm n 1, held_cycle board (scriptInputs keys) (fun _ => rfl) n early]
    apply Game.iterate_idle_resetH
    · exact Game.idle_killMario board _ rfl
    · rfl

theorem scriptInputs_end (keys : List (BitVec 8)) (n : Nat) :
    scriptInputs keys (scriptEnd keys + 1 + n) = ⟨true, 0#8⟩ := by
  have past : keys.length ≤ (scriptEnd keys + 1 + n - 1) / frameCycles - 1 := by
    simp only [scriptEnd, frameCycles]
    omega
  have positive : (scriptEnd keys + 1 + n - 1) / frameCycles =
      (scriptEnd keys + 1 + n - 1) / frameCycles - 1 + 1 := by
    simp only [scriptEnd, frameCycles]
    omega
  rw [scriptInputs, keyInputs, positive, List.getD_cons_succ, List.getD_eq_getElem?_getD,
    List.getElem?_eq_none past, Option.getD_none]

theorem afterScript_eq_run (board : Board) (keys : List (BitVec 8)) (n : Nat) :
    afterScript board keys n =
      Toplevel.run board (afterScript board keys 0) (fun _ => ⟨true, 0#8⟩) n := by
  have inputs : (fun k => scriptInputs keys (scriptEnd keys + 1 + k)) = fun _ => ⟨true, 0#8⟩ :=
    funext (scriptInputs_end keys)
  rw [afterScript, sinceReset_add, inputs]

section Throughout

variable (board : Board) (test : Game → Bool)

namespace Game

def always : Nat → Game → Bool
  | 0, g => test g
  | n + 1, g => test g && (g.idle board).force fun later => always n later

theorem always_iterate {n : Nat} {g : Game} (passed : always board test n g = true) (k : Nat)
    (bound : k ≤ n) : test ((idle board)^[k] g) = true := by
  induction n generalizing g k with
  | zero =>
      obtain rfl : k = 0 := Nat.le_zero.mp bound
      exact passed
  | succ n ih =>
      simp only [always, force_eq, Bool.and_eq_true] at passed
      cases k with
      | zero => exact passed.1
      | succ k =>
          rw [Function.iterate_succ_apply]
          exact ih passed.2 k (Nat.le_of_succ_le_succ bound)

def playAll : List (BitVec 8) → Game → Bool
  | [], _ => true
  | key :: keys, g =>
      (g.step board (Pulses.all true) ⟨true, key⟩).force fun first =>
        always board test g.settleCycles first &&
          forceIdle board g.settleCycles first fun settled => playAll keys settled

theorem always_frame {cycles : Nat} {g : Game} (passed : always board test cycles g = true)
    (calm : ((idle board)^[cycles] g).Calm board) (n : Nat) :
    test ((idle board)^[n] g) = true := by
  rcases Nat.le_total n cycles with early | late
  · exact always_iterate board test passed n early
  · rw [iterate_idle_calm board g cycles calm n late]
    exact always_iterate board test passed cycles (Nat.le_refl cycles)

end Game

theorem playAll_sound (last : Game → Bool) (keys : List (BitVec 8)) (start : Toplevel)
    (origin : start.clock.AtOrigin true) (calm : start.game.Calm board)
    (played : start.game.play board last keys = true)
    (passed : start.game.playAll board test keys = true) (n : Nat)
    (bound : n < frameCycles * keys.length) :
    test (Toplevel.run board start (keyInputs keys) (n + 1)).game = true := by
  induction keys generalizing start n with
  | nil => exact absurd bound (Nat.not_lt_zero n)
  | cons key keys ih =>
      simp only [Game.play, Game.playAll, Game.force_eq, Game.forceIdle_eq, Bool.and_eq_true,
        Bool.not_eq_true', decide_eq_true_eq] at played passed
      rcases played with ⟨safe, settled, rest⟩
      rcases passed with ⟨first, later⟩
      rw [List.length_cons, Nat.mul_succ] at bound
      rcases Nat.lt_or_ge n frameCycles with early | late
      · have frame := run_frame_cycle board start (keyInputs (key :: keys)) origin
          (fun _ _ => rfl) calm.resetH safe calm.killMario n early
        rw [frame.2]
        exact Game.always_frame board test first settled n
      · rcases run_keyInputs_frame board start key keys origin calm safe settled with
          ⟨clock, game⟩
        rw [← game] at settled rest later
        obtain ⟨k, rfl⟩ := Nat.exists_eq_add_of_le late
        rw [Nat.add_assoc, run_keyInputs_cons]
        exact ih _ clock settled rest later k (by omega)

end Throughout

section Frame

variable (board : Board) (start : Toplevel) (inputs : Nat → Input) (last : Nat)
  (origin : (sinceReset board start inputs last).clock.AtOrigin true)
  (calm : (sinceReset board start inputs last).game.Calm board)
  (released : ∀ k, (inputs (last + 1 + k)).key0 = true)
  (safe : ((sinceReset board start inputs last).game.step board (Pulses.all true)
    (inputs (last + 1))).goomba.killMario = false)

include origin calm released safe

theorem sinceReset_frame (n : Nat) (bound : n < frameCycles) :
    (∀ k, k < n + 1 → (sinceReset board start inputs (last + k)).game.resetH = false) ∧
      (sinceReset board start inputs (last + (n + 1))).game =
        (Game.idle board)^[n] ((sinceReset board start inputs last).game.step board
          (Pulses.all true) (inputs (last + 1))) := by
  have frame := run_frame_cycle board (sinceReset board start inputs last)
    (fun k => inputs (last + 1 + k)) origin (fun k _ => released k) calm.resetH safe
    calm.killMario n bound
  rw [sinceReset_add]
  refine ⟨?_, frame.2⟩
  intro k small
  rw [sinceReset_add]
  exact frame.1 k small

theorem sinceReset_silent (n : Nat) (positive : 0 < n) (bound : n < frameCycles) :
    ¬ FramePulse board start inputs (last + n) := by
  have quiet := run_frame_quiet board (sinceReset board start inputs last)
    (fun k => inputs (last + 1 + k)) origin (fun k _ => released k) calm.resetH calm.killMario safe
    n positive bound
  rw [FramePulse, sinceReset_add, quiet]
  decide

end Frame

theorem afterScript_cycle (board : Board) (test : Game → Bool) (keys : List (BitVec 8))
    (played : playHeld board test keys = true)
    (safe : ((afterScript board keys 0).game.step board (Pulses.all true)
      ⟨true, 0#8⟩).goomba.killMario = false) (n : Nat) (bound : n < frameCycles) :
    (∀ k, k < n + 1 → (afterScript board keys k).game.resetH = false) ∧
      (afterScript board keys (n + 1)).game =
        (Game.idle board)^[n]
          ((afterScript board keys 0).game.step board (Pulses.all true) ⟨true, 0#8⟩) := by
  rcases playHeld_sound board test keys played with ⟨origin, calm, -⟩
  have input := scriptInputs_end keys 0
  rw [← input] at safe ⊢
  exact sinceReset_frame board (Toplevel.held board) (scriptInputs keys) (scriptEnd keys) origin
    calm (fun _ => rfl) safe n bound

theorem afterScript_one (board : Board) (test : Game → Bool) (keys : List (BitVec 8))
    (played : playHeld board test keys = true) :
    (afterScript board keys 1).game =
        (afterScript board keys 0).game.step board (Pulses.all true) ⟨true, 0#8⟩ ∧
      (afterScript board keys 1).game.resetH = false ∧
      (afterScript board keys 1).shift = false := by
  rcases playHeld_sound board test keys played with ⟨origin, calm, -⟩
  have game : (afterScript board keys 1).game =
      (afterScript board keys 0).game.step board (Pulses.all true) ⟨true, 0#8⟩ := by
    rw [afterScript_eq_run board keys 1, Toplevel.run_game, Toplevel.run_start,
      FrameClock.pulses_of_synced _ origin.synced, origin.marioEdge]
  refine ⟨game, ?_, ?_⟩
  · rw [game, Game.step_resetH, calm.killMario]
    rfl
  · rw [afterScript_eq_run board keys 1, Toplevel.shift, Toplevel.run_clock, Toplevel.run_start]
    simp [FrameClock.step, EdgeDetector.step, origin.marioEdge, Mario.shift]

theorem scriptInputs_append (keys more : List (BitVec 8)) (n : Nat)
    (early : n < scriptEnd keys + 1) :
    scriptInputs (keys ++ more) n = scriptInputs keys n := by
  have inside : (n - 1) / frameCycles < (0#8 :: keys).length := by
    simp only [scriptEnd, frameCycles] at *
    rw [List.length_cons]
    omega
  rw [scriptInputs, scriptInputs, keyInputs, keyInputs, ← List.cons_append,
    List.getD_eq_getElem?_getD, List.getD_eq_getElem?_getD, List.getElem?_append_left inside]

theorem afterScript_append (board : Board) (keys more : List (BitVec 8)) (first : Nat)
    (atFirst : first = scriptEnd keys) :
    sinceReset board (Toplevel.held board) (scriptInputs (keys ++ more)) first =
      afterScript board keys 0 := by
  rw [atFirst]
  apply run_congr
  intro k early
  exact scriptInputs_append keys more k early

theorem scriptInputs_more (keys more : List (BitVec 8)) (n : Nat) :
    scriptInputs (keys ++ more) (scriptEnd keys + 1 + n) = keyInputs more n := by
  have position : (scriptEnd keys + 1 + n - 1) / frameCycles =
      keys.length + n / frameCycles + 1 := by
    simp only [scriptEnd, frameCycles] at *
    omega
  rw [scriptInputs, keyInputs, keyInputs, position, List.getD_cons_succ,
    List.getD_eq_getElem?_getD, List.getD_eq_getElem?_getD,
    List.getElem?_append_right (Nat.le_add_right _ _), Nat.add_sub_cancel_left]

theorem Game.play_append (board : Board) (test : Game → Bool) (keys more : List (BitVec 8))
    (g : Game) :
    g.play board test (keys ++ more) = g.play board (fun later => later.play board test more) keys := by
  induction keys generalizing g with
  | nil => rfl
  | cons key keys ih => simp only [List.cons_append, play, ih]

theorem playHeld_append (board : Board) (test : Game → Bool) (keys more : List (BitVec 8)) :
    playHeld board test (keys ++ more) =
      playHeld board (fun g => g.play board test more) keys := by
  simp only [playHeld, Game.play_append]

/-- A script and what it is continued by: a test of the state in between, one of every state from
there on, in which there is no Reset either, and one of the last. -/
theorem playHeld_more (board : Board) (here test there : Game → Bool) (keys more : List (BitVec 8))
    (played : playHeld board
      (fun g => here g && (g.playAll board test more && g.play board there more)) keys = true)
    (first last : Nat) (atFirst : first = scriptEnd keys)
    (atLast : last = first + frameCycles * more.length) :
    let state := sinceReset board (Toplevel.held board) (scriptInputs (keys ++ more))
    ((state first).clock.AtOrigin true ∧ (state first).game.Calm board ∧
        here (state first).game = true) ∧
      (∀ k, first < k → k ≤ last →
        (state k).game.resetH = false ∧ test (state k).game = true) ∧
      (state last).clock.AtOrigin true ∧ (state last).game.Calm board ∧
      there (state last).game = true := by
  intro state
  rcases playHeld_sound board _ keys played with ⟨origin, calm, passed⟩
  have early : state first = afterScript board keys 0 :=
    afterScript_append board keys more first atFirst
  rw [← early] at origin calm passed
  simp only [Bool.and_eq_true] at passed
  rcases passed with ⟨passed, all, ends⟩
  have later (n : Nat) :
      state (first + n) = Toplevel.run board (state first) (keyInputs more) n := by
    have shifted : (fun k => scriptInputs (keys ++ more) (first + 1 + k)) = keyInputs more := by
      funext k
      rw [atFirst, scriptInputs_more]
    simp only [state]
    rw [sinceReset_add, shifted]
  have final := play_sound board there more (state first) origin calm ends
  rw [← later, ← atLast] at final
  refine ⟨⟨origin, calm, passed⟩, ?_, final⟩
  intro k above below
  obtain ⟨n, rfl⟩ := Nat.exists_eq_add_of_lt above
  rw [Nat.add_assoc, later]
  exact ⟨play_running board there more (state first) origin calm ends n (by omega),
    playAll_sound board test there more (state first) origin calm ends all n (by omega)⟩

theorem scriptEnd_append (keys : List (BitVec 8)) (key : BitVec 8) :
    scriptEnd (keys ++ [key]) = scriptEnd keys + frameCycles := by
  simp only [scriptEnd, List.length_append, List.length_singleton, frameCycles]
  omega

/-- The last frame of a script, with a test at the pulse where it starts and one at the next
pulse. -/
theorem script_frame (board : Board) (here there : Game → Bool) (keys : List (BitVec 8))
    (key : BitVec 8)
    (played : playHeld board (fun g => here g && g.play board there [key]) keys = true)
    (first last : Nat) (atFirst : first = scriptEnd keys) (atLast : last = first + frameCycles) :
    let state := sinceReset board (Toplevel.held board) (scriptInputs (keys ++ [key]))
    here (state first).game = true ∧ there (state last).game = true ∧
      Successive (FramePulse board (Toplevel.held board) (scriptInputs (keys ++ [key])))
        first last := by
  intro state
  rcases playHeld_sound board _ keys played with ⟨origin, calm, passed⟩
  have early : state first = afterScript board keys 0 :=
    afterScript_append board keys [key] first atFirst
  rw [← early] at origin calm passed
  simp only [Game.play, Game.force_eq, Game.forceIdle_eq, Bool.and_eq_true, Bool.not_eq_true',
    decide_eq_true_eq] at passed
  rcases passed with ⟨here, safe, settled, there⟩
  have pressed : scriptInputs (keys ++ [key]) (first + 1) = ⟨true, key⟩ := by
    have more := scriptInputs_more keys [key] 0
    rw [← atFirst] at more
    exact more
  have released (k : Nat) : (scriptInputs (keys ++ [key]) (first + 1 + k)).key0 = true := rfl
  rw [← pressed] at safe settled there
  rcases run_frame board (state first) (fun k => scriptInputs (keys ++ [key]) (first + 1 + k))
    origin (fun k _ => released k) calm.resetH calm.killMario safe (state first).game.settleCycles
    (state first).game.settleCycles_few settled with ⟨clock, game⟩
  rw [← sinceReset_add, ← atLast] at clock game
  rw [Nat.add_zero, ← game] at there
  have positive : 0 < frameCycles := by decide
  refine ⟨here, there, ?_⟩
  constructor
  · exact congrArg EdgeDetector.rising origin.marioEdge
  · exact congrArg EdgeDetector.rising clock.marioEdge
  · omega
  · intro k above below
    obtain ⟨n, rfl⟩ := Nat.exists_eq_add_of_le above.le
    exact sinceReset_silent board (Toplevel.held board) _ first origin calm released safe n
      (by omega) (by omega)

section Walk

/-- Column 10 asks for a coin in slot 0 at height 0, column 11 for nothing at all. -/
def lowBoard : Board where
  levelMem address := if address = 10#8 then 0b100000#6 ++ 0#30 else 0#36
  outside _ _ _ := 0#3

def raisedBoard : Board where
  levelMem address :=
    if address = 10#8 then 0b100000#6 ++ 0#30
    else if address = 11#8 then 0b001100#6 ++ 0#30 else 0#36
  outside _ _ _ := 0#3

def walkKeys : List (BitVec 8) := List.replicate 80 0x07#8

def AtFirstScroll (board : Board) (g : Game) : Prop :=
  g.mario.marioXPos = 300#10 ∧ g.blocks.currentBlockCol = 10#8 ∧
    (g.step board (Pulses.all true) ⟨true, 0#8⟩).goomba.killMario = false

instance (board : Board) (g : Game) : Decidable (AtFirstScroll board g) :=
  inferInstanceAs (Decidable (_ ∧ _ ∧ _))

set_option maxRecDepth 100000 in
theorem low_played :
    playHeld lowBoard (fun g => decide (AtFirstScroll lowBoard g)) walkKeys = true := by
  decide +kernel

set_option maxRecDepth 100000 in
theorem raised_played :
    playHeld raisedBoard (fun g => decide (AtFirstScroll raisedBoard g)) walkKeys = true := by
  decide +kernel

end Walk

end FPGAMario
