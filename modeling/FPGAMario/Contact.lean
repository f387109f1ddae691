import FPGAMario.GoombaBand
import FPGAMario.Score
import FPGAMario.Scrolling
import FPGAMario.Script

/-! Mario against the goomba, from one frame pulse to the next: side contact and squishing. -/

namespace FPGAMario

open Hdl Game

theorem Goomba.resetValue_harmless (reset start pulse shift : Bool) (x y : BitVec 10)
    (polls : GoombaPolls) :
    (resetValue.step reset false start pulse shift 500#10 440#10 x y polls).killMario = false := by
  cases reset <;> cases start <;> cases pulse <;> rfl

namespace Game

def distance (g : Game) : Int :=
  (g.goomba.goombaXPos.toNat : Int) - g.mario.marioXPos.toNat

/-- The goomba is alive and not where it starts. -/
structure Near (g : Game) : Prop where
  alive : g.goomba.isAlive = true
  close : g.distance ≤ 100

structure SamePlace (before after : Game) : Prop where
  marioXPos : after.mario.marioXPos = before.mario.marioXPos
  marioYPos : after.mario.marioYPos = before.mario.marioYPos
  falling : after.mario.falling = before.mario.falling
  goombaXPos : after.goomba.goombaXPos = before.goomba.goombaXPos
  isAlive : after.goomba.isAlive = before.goomba.isAlive

theorem SamePlace.trans {first second third : Game} (left : SamePlace first second)
    (right : SamePlace second third) : SamePlace first third where
  marioXPos := right.marioXPos.trans left.marioXPos
  marioYPos := right.marioYPos.trans left.marioYPos
  falling := right.falling.trans left.falling
  goombaXPos := right.goombaXPos.trans left.goombaXPos
  isAlive := right.isAlive.trans left.isAlive

theorem SamePlace.distance {before after : Game} (same : SamePlace before after) :
    after.distance = before.distance := by
  rw [Game.distance, Game.distance, same.goombaXPos, same.marioXPos]

theorem SamePlace.near {before after : Game} (same : SamePlace before after) (near : after.Near) :
    before.Near where
  alive := same.isAlive.symm.trans near.alive
  close := by
    rw [← same.distance]
    exact near.close

variable (board : Board) (pulses : Pulses) (input : Input) (g : Game)

theorem step_near (band : g.mario.InBand) (near : (g.step board pulses input).Near) :
    g.resetH = false ∧ g.newColControl.getLsbD 0 = false := by
  rcases near with ⟨alive, close⟩
  cases reset : g.resetH with
  | true =>
      rw [step_goomba, reset] at alive
      cases alive
  | false =>
      cases started : g.newColControl.getLsbD 0 with
      | true =>
          have after : (g.step board pulses input).mario.InBand := by
            rw [step_mario]
            apply Mario.step_inBand
            exact band
          have right := after.right
          have goomba : (g.step board pulses input).goomba = Goomba.startValue 500#10 440#10 := by
            rw [step_goomba, reset, started]
            rfl
          have position : (Goomba.startValue 500#10 440#10).goombaXPos.toNat = 500 := rfl
          rw [distance, goomba, position] at close
          omega
      | false => exact ⟨rfl, rfl⟩

theorem step_alive (idle : g.newColControl.getLsbD 0 = false)
    (alive : (g.step board pulses input).goomba.isAlive = true) : g.goomba.isAlive = true := by
  by_contra dead
  rw [Bool.not_eq_true] at dead
  rw [step_goomba, Goomba.step_dead _ _ _ _ _ _ _ _ _ _ dead (Or.inr idle)] at alive
  cases alive

theorem step_samePlace (reset : g.resetH = false)
    (low : g.newColControl.getLsbD 0 = false) :
    SamePlace g (g.step board (Pulses.all false) input) := by
  have mario : (g.step board (Pulses.all false) input).mario =
      { g.mario with marioXMotion := 0#10, marioYMotion := 0#10 } := by
    rw [step_mario, reset]
    rfl
  have goomba : (g.step board (Pulses.all false) input).goomba =
      { g.goomba with goombaYMotion := 0#10, goombaKilled := false } := by
    rw [step_goomba, reset, low]
    rfl
  exact ⟨by rw [mario], by rw [mario], by rw [mario], by rw [goomba], by rw [goomba]⟩

end Game

section Pulses

variable (board : Board) (start : Toplevel) (inputs : Nat → Input)

theorem sinceReset_zero_dead (reset : start.game.resetH = true) :
    (sinceReset board start inputs 0).game.goomba = Goomba.resetValue := by
  rw [sinceReset, Toplevel.run_game, step_goomba, Toplevel.run_start, reset]
  rfl

theorem alive_later (reset : start.game.resetH = true) (n : Nat)
    (alive : (sinceReset board start inputs n).game.goomba.isAlive = true) : 0 < n := by
  cases n with
  | zero =>
      rw [sinceReset_zero_dead board start inputs reset] at alive
      cases alive
  | succ m => exact Nat.succ_pos m

theorem run_pulses (n : Nat) (later : 0 < n) :
    (sinceReset board start inputs n).clock.pulses =
      Pulses.all (sinceReset board start inputs n).clock.marioEdge.rising := by
  rcases Nat.exists_eq_add_one.mpr later with ⟨m, rfl⟩
  exact FrameClock.pulses_of_synced _ (run_synced board start inputs m)

theorem run_frameStep (n : Nat) (later : 0 < n)
    (pulse : FramePulse board start inputs n) :
    (sinceReset board start inputs (n + 1)).game =
      (sinceReset board start inputs n).game.step board (Pulses.all true) (inputs (n + 1)) := by
  rw [sinceReset, Toplevel.run_game, run_pulses board start inputs n later, pulse]

theorem run_quietStep (n : Nat) (later : 0 < n)
    (quiet : ¬ FramePulse board start inputs n) :
    (sinceReset board start inputs (n + 1)).game =
      (sinceReset board start inputs n).game.step board (Pulses.all false) (inputs (n + 1)) := by
  rw [FramePulse, Bool.not_eq_true] at quiet
  rw [sinceReset, Toplevel.run_game, run_pulses board start inputs n later, quiet]

theorem pulse_of_shift {n : Nat} (shift : (sinceReset board start inputs n).shift = true) :
    FramePulse board start inputs n :=
  ((Mario.shift_eq_true _ _).mp shift).1

theorem still_of_silent {n : Nat} (silent : ¬ FramePulse board start inputs n) :
    (sinceReset board start inputs n).shift = false :=
  Bool.eq_false_iff.mpr (fun shift => silent (pulse_of_shift board start inputs shift))

section Goomba

variable {n : Nat} (later : 0 < n) (running : (sinceReset board start inputs n).game.resetH = false)
  (low : (sinceReset board start inputs n).game.newColControl.getLsbD 0 = false)

include later running low

theorem goomba_frame (pulse : FramePulse board start inputs n) :
    (sinceReset board start inputs (n + 1)).game.goomba =
      (sinceReset board start inputs n).game.goomba.frameStep
        (sinceReset board start inputs n).shift
        (sinceReset board start inputs n).game.mario.marioXPos
        (sinceReset board start inputs n).game.mario.marioYPos
        ((sinceReset board start inputs n).game.goombaPolls board) := by
  have edge : (sinceReset board start inputs n).clock.marioEdge.rising = true := pulse
  rw [run_frameStep board start inputs n later pulse, step_goomba, running, low, Toplevel.shift,
    edge]
  rfl

theorem goomba_quiet (silent : ¬ FramePulse board start inputs n) :
    (sinceReset board start inputs (n + 1)).game.goomba =
      { (sinceReset board start inputs n).game.goomba with
        goombaYMotion := 0#10, goombaKilled := false } := by
  rw [run_quietStep board start inputs n later silent, step_goomba, running, low]
  rfl

end Goomba

theorem pulse_alone (n : Nat) (later : 0 < n) (pulse : FramePulse board start inputs n) :
    ¬ FramePulse board start inputs (n + 1) ∧ ¬ FramePulse board start inputs (n + 2) := by
  rcases Nat.exists_eq_add_one.mpr later with ⟨m, rfl⟩
  have origin := pulse_atOrigin board start inputs m pulse
  have first : (sinceReset board start inputs (m + 2)).clock.marioEdge =
      ⟨true, false⟩ := by
    rw [Toplevel.run_clock]
    simp [FrameClock.step, EdgeDetector.step, origin.marioEdge, VgaController.frameClk,
      origin.horizontal, origin.vertical]
  refine ⟨by simp [FramePulse, first], ?_⟩
  rw [FramePulse, Toplevel.run_clock]
  simp [FrameClock.step, first]

/-- A goomba near Mario has been so since the last pulse, which was no Reset. -/
theorem near_since (reset : start.game.resetH = true)
    (first last : Nat) (ordered : first < last)
    (quiet : ∀ k, first < k → k < last → ¬ FramePulse board start inputs k)
    (near : (sinceReset board start inputs last).game.Near) :
    SamePlace (sinceReset board start inputs (first + 1)).game
        (sinceReset board start inputs last).game ∧
      (sinceReset board start inputs first).game.resetH = false ∧
      (sinceReset board start inputs first).game.newColControl.getLsbD 0 = false := by
  induction last, ordered using Nat.le_induction with
  | base =>
      refine ⟨⟨rfl, rfl, rfl, rfl, rfl⟩, ?_⟩
      rw [sinceReset, Toplevel.run_game] at near
      exact step_near board _ _ _ (run_inBand board start inputs reset first) near
  | succ last ordered ih =>
      have step := run_quietStep board start inputs last (by omega)
        (quiet last ordered (Nat.lt_succ_self last))
      rw [step] at near
      rcases step_near board _ _ _
        (run_inBand board start inputs reset last) near with ⟨running, low⟩
      have same := step_samePlace board (inputs (last + 1)) _ running low
      rcases ih (fun k above below => quiet k above (Nat.lt_succ_of_lt below))
        (same.near near) with ⟨place, rest⟩
      rw [step]
      exact ⟨place.trans same, rest⟩

end Pulses

section Frame

variable (board : Board) (input : Input) (g : Game)

/-- In the band of the two sprites the sums of the contact test do not wrap. -/
theorem touches_iff (mario : g.mario.InBand) (goomba : g.goomba.InBand)
    (alive : g.goomba.isAlive = true) :
    g.goomba.Touches g.mario.marioXPos g.mario.marioYPos ↔
      g.distance.natAbs = 40 ∧
        (g.goomba.goombaYPos.toNat : Int) - 20 < g.mario.marioYPos.toNat + 20 := by
  have height := goomba.yPos alive
  have near := goomba.left alive
  have far := goomba.right alive
  have left := mario.left
  have right := mario.right
  have bottom := mario.bottom
  have sides : (g.goomba.goombaXPos - 20#10 = g.mario.marioXPos + 20#10 ∨
      g.goomba.goombaXPos + 20#10 = g.mario.marioXPos - 20#10) ↔ g.distance.natAbs = 40 := by
    rw [distance]
    constructor
    · intro touching
      rcases touching with beside | beside <;> bv_omega
    · intro apart
      by_cases before : g.goomba.goombaXPos.toNat < g.mario.marioXPos.toNat
      · right
        bv_omega
      · left
        bv_omega
  have low : g.goomba.goombaYPos - 20#10 < g.mario.marioYPos + 20#10 ↔
      (g.goomba.goombaYPos.toNat : Int) - 20 < g.mario.marioYPos.toNat + 20 := by
    rw [height]
    bv_omega
  rw [Goomba.Touches, sides, low]

theorem frame_survives (running : g.resetH = false) (idle : g.newColControl.getLsbD 0 = false)
    (alive : (g.step board (Pulses.all true) input).goomba.isAlive = true) :
    g.goomba.isAlive = true ∧ ¬ g.goomba.Squished g.mario.marioXPos g.mario.marioYPos := by
  rw [step_goomba, running, idle] at alive
  simp only [Goomba.step, Pulses.all, Bool.or_self, Bool.false_eq_true, if_false, if_true,
    Goomba.frameStep] at alive
  by_cases before : g.goomba.isAlive = true
  · refine ⟨before, ?_⟩
    intro squished
    rw [if_pos before, if_pos squished] at alive
    cases alive
  · rw [if_neg before] at alive
    cases alive

theorem frame_kill_iff (safe : g.goomba.killMario = false) :
    (g.step board (Pulses.all true) input).goomba.killMario = true ↔
      g.resetH = false ∧ g.newColControl.getLsbD 0 = false ∧ g.goomba.isAlive = true ∧
        ¬ g.goomba.Squished g.mario.marioXPos g.mario.marioYPos ∧
        g.goomba.Touches g.mario.marioXPos g.mario.marioYPos := by
  rw [step_goomba]
  cases running : g.resetH with
  | true => simp [Goomba.step, Goomba.resetValue]
  | false =>
      cases idle : g.newColControl.getLsbD 0 with
      | true => simp [Goomba.step, Goomba.startValue]
      | false =>
          simp only [Goomba.step, Pulses.all, Bool.or_self, Bool.false_eq_true, if_false, if_true,
            Goomba.frameStep, true_and]
          by_cases alive : g.goomba.isAlive = true
          · by_cases squished : g.goomba.Squished g.mario.marioXPos g.mario.marioYPos
            · simp [alive, squished, safe]
            · by_cases touching : g.goomba.Touches g.mario.marioXPos g.mario.marioYPos
              · simp [alive, squished, touching]
              · simp only [alive, squished, touching, if_true, if_false, and_false, iff_false]
                split <;> simp [safe, Goomba.walk]
          · simp [alive, safe]

theorem quiet_kill (kill : (g.step board (Pulses.all false) input).goomba.killMario = true) :
    g.goomba.killMario = true := by
  rw [step_goomba] at kill
  simp only [Goomba.step, Pulses.all] at kill
  split at kill
  · cases kill
  · split at kill
    · cases kill
    · exact kill

end Frame

section Chase

def chaseBoard : Board where
  levelMem address := if address = 10#8 then 0b000001#6 ++ 0#30 else 0#36
  outside _ _ _ := 0#3

def chaseKeys (frames : Nat) : List (BitVec 8) := List.replicate frames 0x07#8

abbrev chase (frames n : Nat) : Toplevel :=
  sinceReset chaseBoard (Toplevel.held chaseBoard) (scriptInputs (chaseKeys frames ++ [0x07#8])) n

end Chase

section SideContact

variable (board : Board) (start : Toplevel) (inputs : Nat → Input)

/-- The goomba is alive, is not being started, and Mario is low enough to touch it. -/
structure Facing (g : Game) : Prop where
  alive : g.goomba.isAlive = true
  idle : g.newColControl.getLsbD 0 = false
  low : (g.goomba.goombaYPos.toNat : Int) - 20 < g.mario.marioYPos.toNat + 20

def KillRaised (n : Nat) : Prop :=
  (sinceReset board start inputs n).game.goomba.killMario = false ∧
    (sinceReset board start inputs (n + 1)).game.goomba.killMario = true

theorem kill_over (n : Nat)
    (kill : (sinceReset board start inputs n).game.goomba.killMario = true) :
    (sinceReset board start inputs (n + 2)).game.goomba.killMario = false := by
  have reset : (sinceReset board start inputs (n + 1)).game.resetH = true := by
    rw [sinceReset, Toplevel.run_game, step_resetH, kill, Bool.or_true]
  rw [sinceReset, Toplevel.run_game, step_goomba, reset]
  rfl

theorem killRaised_later (reset : start.game.resetH = true) (n : Nat)
    (raised : KillRaised board start inputs n) : 0 < n := by
  cases n with
  | zero =>
      have kill := raised.2
      rw [sinceReset, Toplevel.run_game, step_goomba,
        sinceReset_zero_dead board start inputs reset, Goomba.resetValue_harmless] at kill
      cases kill
  | succ m => exact Nat.succ_pos m

theorem killRaised_pulse (reset : start.game.resetH = true) (n : Nat)
    (raised : KillRaised board start inputs n) : FramePulse board start inputs n := by
  have later := killRaised_later board start inputs reset n raised
  rcases raised with ⟨safe, kill⟩
  by_contra quiet
  rw [run_quietStep board start inputs n later quiet] at kill
  rw [quiet_kill board _ _ kill] at safe
  cases safe

theorem kill_recent (reset : start.game.resetH = true) (n : Nat)
    (kill : (sinceReset board start inputs n).game.goomba.killMario = true) :
    ∃ m, KillRaised board start inputs m ∧ (n = m + 1 ∨ n = m + 2) := by
  have home := sinceReset_zero_dead board start inputs reset
  match n with
  | 0 =>
      rw [home] at kill
      cases kill
  | k + 1 =>
      cases before : (sinceReset board start inputs k).game.goomba.killMario with
      | false => exact ⟨k, ⟨before, kill⟩, Or.inl rfl⟩
      | true =>
          match k with
          | 0 =>
              rw [home] at before
              cases before
          | j + 1 =>
              cases earlier : (sinceReset board start inputs j).game.goomba.killMario with
              | false => exact ⟨j, ⟨earlier, before⟩, Or.inr rfl⟩
              | true =>
                  rw [kill_over board start inputs j earlier] at kill
                  cases kill

/-- At a frame pulse `kill_Mario` is low: it lasts for two cycles after the pulse before. -/
theorem pulse_safe (reset : start.game.resetH = true) (n : Nat)
    (pulse : FramePulse board start inputs n) :
    (sinceReset board start inputs n).game.goomba.killMario = false := by
  rw [← Bool.not_eq_true]
  intro high
  rcases kill_recent board start inputs reset n high with ⟨m, raised, recent⟩
  have later := killRaised_later board start inputs reset m raised
  have edge := killRaised_pulse board start inputs reset m raised
  rcases pulse_alone board start inputs m later edge with ⟨first, second⟩
  cases recent with
  | inl next =>
      rw [next] at pulse
      exact first pulse
  | inr next =>
      rw [next] at pulse
      exact second pulse

/-- Between two successive pulses the boxes of Mario and the goomba begin to overlap: apart
or just touching at the first, overlapping at some cycle up to the second. -/
structure Overlaps (first last moment : Nat) : Prop where
  pulses : Successive (FramePulse board start inputs) first last
  after : first < moment
  upTo : moment ≤ last
  facing : Facing (sinceReset board start inputs first).game
  facingThen : Facing (sinceReset board start inputs moment).game
  apart : 40 ≤ (sinceReset board start inputs first).game.distance.natAbs
  overlapping : (sinceReset board start inputs moment).game.distance.natAbs < 40

/-- Where `kill_Mario` is raised, a live goomba touches Mario. -/
structure Collision (g : Game) : Prop where
  running : g.resetH = false
  idle : g.newColControl.getLsbD 0 = false
  alive : g.goomba.isAlive = true
  touching : g.distance.natAbs = 40

theorem killRaised_collision (reset : start.game.resetH = true)
    (n : Nat) (raised : KillRaised board start inputs n) :
    Collision (sinceReset board start inputs n).game := by
  have later := killRaised_later board start inputs reset n raised
  have pulse := killRaised_pulse board start inputs reset n raised
  rcases raised with ⟨safe, kill⟩
  rw [run_frameStep board start inputs n later pulse, frame_kill_iff board _ _ safe] at kill
  rcases kill with ⟨running, idle, alive, -, touching⟩
  have mario := run_inBand board start inputs reset n
  have goomba := run_goomba_inBand board start inputs reset n
  exact ⟨running, idle, alive, ((touches_iff _ mario goomba alive).mp touching).1⟩

/-- When the boxes begin to overlap, `kill_Mario` is raised exactly if they touched side by
side, at a distance of 40, at the first pulse. -/
theorem side_contact_iff (reset : start.game.resetH = true)
    (first last moment : Nat) (overlaps : Overlaps board start inputs first last moment) :
    KillRaised board start inputs first ∨ KillRaised board start inputs last ↔
      (sinceReset board start inputs first).game.distance.natAbs = 40 := by
  rcases overlaps
    with ⟨⟨pulse, -, ordered, between⟩, after, upTo, facing, facingThen, -, overlapping⟩
  have near : (sinceReset board start inputs moment).game.Near :=
    ⟨facingThen.alive, by omega⟩
  rcases near_since board start inputs reset first moment after
    (fun k above below => between k above (Nat.lt_of_lt_of_le below upTo)) near
    with ⟨place, running, idle⟩
  have later := alive_later board start inputs reset first facing.alive
  have step := run_frameStep board start inputs first later pulse
  have safe := pulse_safe board start inputs reset first pulse
  constructor
  · intro kill
    rcases kill with raised | raised
    · exact (killRaised_collision board start inputs reset first raised).touching
    · -- A touch at the second pulse would be one at the moment of the overlap.
      have collision := killRaised_collision board start inputs reset last raised
      have beside := collision.touching
      have nearLast : (sinceReset board start inputs last).game.Near :=
        ⟨collision.alive, by omega⟩
      rcases near_since board start inputs reset first last ordered
        between nearLast with ⟨placeLast, -, -⟩
      rw [placeLast.distance, ← place.distance] at beside
      omega
  · intro beside
    have alive := (place.near near).alive
    rw [step] at alive
    have survived := (frame_survives board _ _ running idle alive).2
    have touching := (touches_iff _ (run_inBand board start inputs reset first)
      (run_goomba_inBand board start inputs reset first) facing.alive).mpr ⟨beside, facing.low⟩
    refine Or.inl ⟨safe, ?_⟩
    rw [step, frame_kill_iff board _ _ safe]
    exact ⟨running, idle, facing.alive, survived, touching⟩

/-- If they overlap at the second pulse itself, `kill_Mario` is never raised: a kill would have reset
both before. -/
theorem side_contact_unnoticed (reset : start.game.resetH = true) (first last : Nat)
    (overlaps : Overlaps board start inputs first last last) :
    ¬ (KillRaised board start inputs first ∨ KillRaised board start inputs last) := by
  rcases overlaps
    with ⟨⟨pulse, again, ordered, between⟩, -, -, facing, facingThen, -, overlapping⟩
  intro kill
  rcases kill with raised | raised
  · have later := alive_later board start inputs reset first facing.alive
    rcases pulse_alone board start inputs first later pulse with ⟨alone, alone2⟩
    have beyond : first + 2 < last := by
      have first1 : last ≠ first + 1 := by
        rintro rfl
        exact alone again
      have first2 : last ≠ first + 2 := by
        rintro rfl
        exact alone2 again
      omega
    have near : (sinceReset board start inputs last).game.Near := ⟨facingThen.alive, by omega⟩
    rcases near_since board start inputs reset (first + 2) last beyond
      (fun k above below => between k (by omega) below) near with ⟨-, running, -⟩
    have down : (sinceReset board start inputs (first + 2)).game.resetH = true := by
      rw [sinceReset, Toplevel.run_game, step_resetH, raised.2, Bool.or_true]
    rw [running] at down
    cases down
  · have beside := (killRaised_collision board start inputs reset last raised).touching
    omega

def FacingAt (distance : Int) (g : Game) : Prop :=
  g.goomba.isAlive = true ∧ g.newColControl.getLsbD 0 = false ∧
    (g.goomba.goombaYPos.toNat : Int) - 20 < g.mario.marioYPos.toNat + 20 ∧
    g.distance = distance

instance (distance : Int) (g : Game) : Decidable (FacingAt distance g) :=
  inferInstanceAs (Decidable (_ ∧ _ ∧ _ ∧ _))

set_option maxRecDepth 100000 in
theorem overlap_played : playHeld chaseBoard (fun g => decide (FacingAt 42 g) &&
    g.play chaseBoard (fun later => decide (FacingAt 39 later)) [0x07#8]) (chaseKeys 149) =
      true := by
  decide +kernel

/-- After 149 frames Mario and the goomba are 42 pixels apart, a frame later 39. -/
theorem chase_overlaps :
    Overlaps chaseBoard (Toplevel.held chaseBoard) (scriptInputs (chaseKeys 149 ++ [0x07#8]))
        (scriptEnd (chaseKeys 149)) (scriptEnd (chaseKeys 149 ++ [0x07#8]))
        (scriptEnd (chaseKeys 149 ++ [0x07#8])) ∧
      (chase 149 (scriptEnd (chaseKeys 149))).game.distance = 42 ∧
      (chase 149 (scriptEnd (chaseKeys 149 ++ [0x07#8]))).game.distance = 39 := by
  have next := scriptEnd_append (chaseKeys 149) 0x07#8
  generalize atLast : scriptEnd (chaseKeys 149 ++ [0x07#8]) = last at next ⊢
  generalize atFirst : scriptEnd (chaseKeys 149) = first at next ⊢
  rcases script_frame chaseBoard _ _ (chaseKeys 149) 0x07#8
    overlap_played first last atFirst.symm next with ⟨here, there, successive⟩
  rcases of_decide_eq_true here with ⟨alive, idle, low, apart⟩
  rcases of_decide_eq_true there with ⟨aliveLast, idleLast, lowLast, close⟩
  exact ⟨⟨successive, successive.ordered, Nat.le_refl _, ⟨alive, idle, low⟩,
    ⟨aliveLast, idleLast, lowLast⟩, by omega, by omega⟩, apart, close⟩

theorem side_contact_iff_chase :
    KillRaised chaseBoard (Toplevel.held chaseBoard) (scriptInputs (chaseKeys 149 ++ [0x07#8]))
          (scriptEnd (chaseKeys 149)) ∨
        KillRaised chaseBoard (Toplevel.held chaseBoard)
          (scriptInputs (chaseKeys 149 ++ [0x07#8])) (scriptEnd (chaseKeys 149 ++ [0x07#8])) ↔
      (chase 149 (scriptEnd (chaseKeys 149))).game.distance.natAbs = 40 :=
  side_contact_iff chaseBoard (Toplevel.held chaseBoard) _ rfl _ _ _
    chase_overlaps.1

/-- The boxes pass from 42 to 39 without a kill. -/
theorem chase_unnoticed :
    Overlaps chaseBoard (Toplevel.held chaseBoard) (scriptInputs (chaseKeys 149 ++ [0x07#8]))
        (scriptEnd (chaseKeys 149)) (scriptEnd (chaseKeys 149 ++ [0x07#8]))
        (scriptEnd (chaseKeys 149 ++ [0x07#8])) ∧
      ¬ (KillRaised chaseBoard (Toplevel.held chaseBoard)
          (scriptInputs (chaseKeys 149 ++ [0x07#8])) (scriptEnd (chaseKeys 149)) ∨
        KillRaised chaseBoard (Toplevel.held chaseBoard)
          (scriptInputs (chaseKeys 149 ++ [0x07#8])) (scriptEnd (chaseKeys 149 ++ [0x07#8]))) := by
  have overlaps := chase_overlaps.1
  exact ⟨overlaps, side_contact_unnoticed chaseBoard _ _ rfl _ _ overlaps⟩

end SideContact

section Squish

variable (board : Board) (start : Toplevel) (inputs : Nat → Input)

def SquishRaised (n : Nat) : Prop :=
  (sinceReset board start inputs n).game.goomba.goombaKilled = false ∧
    (sinceReset board start inputs (n + 1)).game.goomba.goombaKilled = true

def Above (g : Game) : Prop :=
  (g.mario.marioYPos.toNat : Int) + 20 ≤ g.goomba.goombaYPos.toNat - 20

theorem frameStep_falling (keycode : BitVec 16) (polls : MarioPolls) (m : Mario)
    (band : m.InBand) :
    if (m.frameStep keycode polls).falling then
      (m.frameStep keycode polls).marioYPos.toNat = m.marioYPos.toNat + 2
    else (m.frameStep keycode polls).marioYPos.toNat ≤ m.marioYPos.toNat := by
  have vertical := Mario.verticalIn_step keycode polls m
  have height : (m.frameStep keycode polls).marioYPos =
      m.marioYPos + (Mario.verticalIn keycode polls m).motion := rfl
  have fall : (m.frameStep keycode polls).falling =
      (Mario.verticalIn keycode polls m).falling := rfl
  have top := band.top
  have bottom := band.bottom
  have notFalling := band.notFalling
  rw [height, fall]
  generalize Mario.verticalIn keycode polls m = step at *
  cases vertical with
  | jump grounded counter above =>
      rw [grounded, if_neg Bool.false_ne_true]
      bv_omega
  | ceiling counter =>
      rw [if_pos rfl]
      bv_omega
  | rise counter short room above =>
      rw [notFalling counter, if_neg Bool.false_ne_true]
      bv_omega
  | support counter below =>
      rw [if_neg Bool.false_ne_true]
      bv_omega
  | fall counter room below =>
      rw [if_pos rfl]
      bv_omega

theorem squished_reach (g : Game) (mario : g.mario.InBand) (goomba : g.goomba.InBand)
    (alive : g.goomba.isAlive = true)
    (squished : g.goomba.Squished g.mario.marioXPos g.mario.marioYPos) :
    g.Near ∧ 381 ≤ g.mario.marioYPos.toNat := by
  rcases squished with ⟨left, right, low⟩
  have height := goomba.yPos alive
  have near := goomba.left alive
  have odd := mario.odd
  have bottom := mario.bottom
  rw [height] at low
  refine ⟨⟨alive, ?_⟩, ?_⟩
  · rw [distance]
    bv_omega
  · bv_omega

/-- When a squish is counted, Mario was above the goomba at the previous pulse exactly if he
is falling and has just reached its head. -/
theorem squished_from_above_iff (reset : start.game.resetH = true)
    (first last : Nat)
    (pulses : Successive (FramePulse board start inputs) first last)
    (squish : SquishRaised board start inputs last) :
    Above (sinceReset board start inputs first).game ↔
      (sinceReset board start inputs last).game.mario.marioYPos = 381#10 ∧
        (sinceReset board start inputs last).game.mario.falling = true := by
  rcases pulses with ⟨pulse, -, ordered, between⟩
  rcases (goombaKilled_iff board start inputs (last + 1)).mp squish.2
    with ⟨-, -, -, aliveLast, squished⟩
  have mario := run_inBand board start inputs reset
  have goomba := run_goomba_inBand board start inputs reset
  rcases squished_reach _ (mario last) (goomba last) aliveLast squished with ⟨near, low⟩
  rcases near_since board start inputs reset first last ordered
    between near with ⟨place, running, idle⟩
  have alive := (place.near near).alive
  have aliveFirst : (sinceReset board start inputs first).game.goomba.isAlive = true := by
    rw [sinceReset, Toplevel.run_game] at alive
    exact step_alive board _ _ _ idle alive
  have later := alive_later board start inputs reset first aliveFirst
  have step := run_frameStep board start inputs first later pulse
  have height := place.marioYPos
  have falling := place.falling
  rw [step] at height falling
  have frame := frameStep_falling ((inputs (first + 1)).keycode.setWidth 16)
    ((sinceReset board start inputs first).game.marioPolls board) _ (mario first)
  rw [step_mario, running] at height falling
  change _ = (Mario.frameStep _ _ _).marioYPos at height
  change _ = (Mario.frameStep _ _ _).falling at falling
  rw [← height, ← falling] at frame
  have odd := (mario first).odd
  have top : (420#10).toNat = 420 := rfl
  rw [Above, (goomba first).yPos aliveFirst, top]
  constructor
  · intro above
    have fell : (sinceReset board start inputs last).game.mario.falling = true := by
      by_contra grounded
      rw [if_neg grounded] at frame
      omega
    rw [if_pos fell] at frame
    exact ⟨BitVec.eq_of_toNat_eq (by rw [BitVec.toNat_ofNat]; omega), fell⟩
  · intro landing
    rcases landing with ⟨position, fell⟩
    rw [if_pos fell, position, BitVec.toNat_ofNat] at frame
    omega

def Squishes (board : Board) (g : Game) : Prop :=
  g.goomba.goombaKilled = false ∧
    (g.step board (Pulses.all true) ⟨true, 0#8⟩).goomba.goombaKilled = true

instance (g : Game) : Decidable (Above g) := inferInstanceAs (Decidable (_ ≤ _))

instance (board : Board) (g : Game) : Decidable (Squishes board g) :=
  inferInstanceAs (Decidable (_ ∧ _))

set_option maxRecDepth 100000 in
theorem squish_played : playHeld chaseBoard (fun g => decide (¬ Above g) &&
    g.play chaseBoard (fun later => decide (Squishes chaseBoard later)) [0x07#8])
      (chaseKeys 156) = true := by
  decide +kernel

theorem chase_squish :
    Successive (FramePulse chaseBoard (Toplevel.held chaseBoard)
        (scriptInputs (chaseKeys 156 ++ [0x07#8])))
        (scriptEnd (chaseKeys 156)) (scriptEnd (chaseKeys 156 ++ [0x07#8])) ∧
      ¬ Above (chase 156 (scriptEnd (chaseKeys 156))).game ∧
      SquishRaised chaseBoard (Toplevel.held chaseBoard)
        (scriptInputs (chaseKeys 156 ++ [0x07#8])) (scriptEnd (chaseKeys 156 ++ [0x07#8])) := by
  have next := scriptEnd_append (chaseKeys 156) 0x07#8
  generalize scriptEnd (chaseKeys 156 ++ [0x07#8]) = last at next ⊢
  generalize atFirst : scriptEnd (chaseKeys 156) = first at next ⊢
  rcases script_frame chaseBoard _ _ (chaseKeys 156) 0x07#8
    squish_played first last atFirst.symm next with ⟨here, there, successive⟩
  rcases of_decide_eq_true there with ⟨unpaid, squished⟩
  refine ⟨successive, of_decide_eq_true here, unpaid, ?_⟩
  rw [run_frameStep chaseBoard _ _ last (Nat.zero_lt_of_lt successive.ordered)
    successive.at_second]
  exact squished

theorem squished_from_above_iff_chase :
    Above (chase 156 (scriptEnd (chaseKeys 156))).game ↔
      (chase 156 (scriptEnd (chaseKeys 156 ++ [0x07#8]))).game.mario.marioYPos = 381#10 ∧
        (chase 156 (scriptEnd (chaseKeys 156 ++ [0x07#8]))).game.mario.falling = true :=
  squished_from_above_iff chaseBoard (Toplevel.held chaseBoard) _ rfl _ _
    chase_squish.1 chase_squish.2.2

/-- Walking along the ground kills the goomba. -/
theorem chase_squished_beside :
    Successive (FramePulse chaseBoard (Toplevel.held chaseBoard)
        (scriptInputs (chaseKeys 156 ++ [0x07#8])))
        (scriptEnd (chaseKeys 156)) (scriptEnd (chaseKeys 156 ++ [0x07#8])) ∧
      SquishRaised chaseBoard (Toplevel.held chaseBoard)
        (scriptInputs (chaseKeys 156 ++ [0x07#8])) (scriptEnd (chaseKeys 156 ++ [0x07#8])) ∧
      ¬ Above (chase 156 (scriptEnd (chaseKeys 156))).game :=
  ⟨chase_squish.1, chase_squish.2.2, chase_squish.2.1⟩

end Squish

end FPGAMario
