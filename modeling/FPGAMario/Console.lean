import FPGAMario.MarioBand
import FPGAMario.UsbLiveness
import FPGAMario.VideoTiming

/-! The console as a whole: the program on the NIOS, its keycode port, and the game that samples
the port, each at its own pace. -/

namespace FPGAMario

open Hdl Interact

/-- What the program does to `data_out` of `nios_system_keycode` in one step. -/
def keycodePort (software : Driver Driver.Label) (dataOut : BitVec 8) : BitVec 8 :=
  match software with
  | .call (.keycode value) _ => value
  | _ => dataOut

structure Console where
  toplevel : Toplevel
  software : Driver Driver.Label
  dataOut : BitVec 8
  steps : Nat

/-- Inputs of one cycle: `KEY[0]`, and whether the program makes its next step now. -/
structure ConsoleInput where
  key0 : Bool
  proceeds : Bool

namespace Mario

variable (rising : Bool) (keycode : BitVec 8) (polls : MarioPolls) (m : Mario)

theorem key_iff (low : BitVec 8) : keycode.setWidth 16 = low.setWidth 16 ↔ keycode = low := by
  constructor
  · intro same
    bv_omega
  · intro same
    rw [same]

theorem step_marioXPos :
    (m.step false rising (keycode.setWidth 16) polls).marioXPos = m.marioXPos ∨
      rising = true ∧
        (m.PastMiddle ∧
            (m.step false rising (keycode.setWidth 16) polls).marioXPos = m.marioXPos - 40#10 ∨
          keycode = 0x07#8 ∧
            (m.step false rising (keycode.setWidth 16) polls).marioXPos = m.marioXPos + m.stride ∨
          keycode = 0x04#8 ∧
            (m.step false rising (keycode.setWidth 16) polls).marioXPos =
              m.marioXPos - m.stride) := by
  cases rising with
  | false => exact Or.inl rfl
  | true =>
      by_cases past : m.PastMiddle
      · exact Or.inr ⟨rfl, Or.inl ⟨past, if_pos past⟩⟩
      · have moved : (m.step false true (keycode.setWidth 16) polls).marioXPos =
            m.marioXPos + (m.horizontalIn (keycode.setWidth 16) polls).motion := if_neg past
        rw [moved, horizontalIn]
        split
        case isTrue left =>
          rw [walkIn_motion]
          refine Or.inr ⟨rfl, Or.inr (Or.inr ⟨(key_iff keycode 0x04#8).mp left.1, ?_⟩)⟩
          bv_omega
        case isFalse =>
          split
          case isTrue right =>
            rw [walkIn_motion]
            exact Or.inr ⟨rfl, Or.inr (Or.inl ⟨(key_iff keycode 0x07#8).mp right.1, rfl⟩)⟩
          case isFalse => simp

theorem step_jumpCounter (ready : m.jumpCounter = 0#7)
    (jumps : (m.step false rising (keycode.setWidth 16) polls).jumpCounter ≠ 0#7) :
    rising = true ∧ keycode = 0x1A#8 := by
  cases rising with
  | false => exact absurd ready jumps
  | true =>
      have next : (m.step false true (keycode.setWidth 16) polls).jumpCounter =
          (m.verticalIn (keycode.setWidth 16) polls).jumpCounter := rfl
      rw [next, verticalIn] at jumps
      split at jumps
      case isTrue jump => exact ⟨rfl, (key_iff keycode 0x1A#8).mp jump.1⟩
      case isFalse =>
        have grounded : ¬ 1#7 ≤ m.jumpCounter := by
          rw [ready]
          decide
        rw [if_neg grounded, ready] at jumps
        split at jumps
        · exact absurd rfl jumps
        · split at jumps
          · exact absurd rfl jumps
          · exact absurd rfl jumps

end Mario

namespace Console

/-- One edge of `Clk`. `answers` has the answers of the USB chip, step by step. -/
def step (board : Board) (answers : Nat → Answer Request Reply) (input : ConsoleInput)
    (c : Console) : Console where
  toplevel := c.toplevel.step board ⟨input.key0, c.dataOut⟩
  software :=
    if input.proceeds then Interact.step Driver.main (answers c.steps) c.software else c.software
  dataOut := if input.proceeds then keycodePort c.software c.dataOut else c.dataOut
  steps := if input.proceeds then c.steps + 1 else c.steps

def powered (toplevel : Toplevel) : Console := ⟨toplevel, .done Driver.start, 0#8, 0⟩

section Runs

variable (board : Board) (answers : Nat → Answer Request Reply) (toplevel : Toplevel)
  (inputs : Nat → ConsoleInput)

abbrev run : Nat → Console := Hdl.run (step board answers) (powered toplevel) inputs

def portAfter : Nat → BitVec 8
  | 0 => 0#8
  | n + 1 => keycodePort (Interact.run Driver.main Driver.start answers n) (portAfter n)

/-- The last word read from the place of the report, zero before. -/
def lastReport : Nat → BitVec 16
  | 0 => 0#16
  | n + 1 =>
      match Interact.run Driver.main Driver.start answers n with
      | .call (.hpi (.read port)) _ =>
          if port = hpiData ∧ (Driver.progressBefore answers 0#16 n).address = 0x051E#16
            then answers n (.hpi (.read port)) else lastReport n
      | _ => lastReport n

theorem run_software (n : Nat) :
    (run board answers toplevel inputs n).software =
        Interact.run Driver.main Driver.start answers (run board answers toplevel inputs n).steps ∧
      (run board answers toplevel inputs n).dataOut =
        portAfter answers (run board answers toplevel inputs n).steps := by
  induction n with
  | zero => exact ⟨rfl, rfl⟩
  | succ n ih =>
      rcases ih with ⟨software, dataOut⟩
      rw [run, Hdl.run_succ, ← run]
      simp only [step]
      split
      · rw [software, dataOut]
        exact ⟨rfl, rfl⟩
      · exact ⟨software, dataOut⟩

def gameInputs (n : Nat) : Input := ⟨(inputs n).key0, (run board answers toplevel inputs n).dataOut⟩

theorem run_toplevel (n : Nat) : (run board answers toplevel inputs n).toplevel =
    Toplevel.run board toplevel (gameInputs board answers toplevel inputs) n := by
  induction n with
  | zero => rfl
  | succ n ih =>
      rw [run, Hdl.run_succ, ← run, Toplevel.run, Hdl.run_succ, ← Toplevel.run, ← ih]
      rfl

variable {answers}

theorem lastReport_read {n : Nat}
    (reads : Calls Driver.main Driver.start answers n (.hpi (.read hpiData)))
    (place : (Driver.progressBefore answers 0#16 n).address = 0x051E#16) :
    lastReport answers (n + 1) = answers n (.hpi (.read hpiData)) := by
  rcases reads with ⟨next, state⟩
  rw [lastReport, state]
  exact if_pos ⟨rfl, place⟩

theorem lastReport_kept {n : Nat}
    (other : ¬ (Calls Driver.main Driver.start answers n (.hpi (.read hpiData)) ∧
      (Driver.progressBefore answers 0#16 n).address = 0x051E#16)) :
    lastReport answers (n + 1) = lastReport answers n := by
  rw [lastReport]
  split
  case h_1 port next state =>
    apply if_neg
    rintro ⟨rfl, place⟩
    exact other ⟨⟨next, state⟩, place⟩
  case h_2 => rfl

theorem keycodePort_kept {software : Driver Driver.Label} (dataOut : BitVec 8)
    (other : ∀ value next, software ≠ .call (.keycode value) next) :
    keycodePort software dataOut = dataOut := by
  rw [keycodePort]
  exact other

/-- The port is one step behind the reports. -/
theorem portAfter_succ (n : Nat) :
    portAfter answers (n + 1) = Driver.lowByte (lastReport answers n) := by
  induction n with
  | zero =>
      change 0#8 = Driver.lowByte 0#16
      decide
  | succ n ih =>
      rw [portAfter]
      by_cases read : Calls Driver.main Driver.start answers n (.hpi (.read hpiData)) ∧
          (Driver.progressBefore answers 0#16 n).address = 0x051E#16
      · rcases read with ⟨reads, place⟩
        rcases Driver.stored_of_read reads place with ⟨next, stores⟩
        rw [lastReport_read reads place, stores, keycodePort]
      · rw [lastReport_kept read, ← ih]
        apply keycodePort_kept
        intro value next stores
        have before : _ ∧ (Driver.progressBefore answers 0#16 n).address = 0x051E#16 ∧ _ :=
          Driver.read_of_stored ⟨next, stores⟩
        exact read ⟨before.1, before.2.1⟩

variable (answers) in
/-- The key of the last report that had been read before the latest step of the program: what one
step reads the next one stores. -/
def typed (n : Nat) : BitVec 8 :=
  Driver.lowByte (lastReport answers ((run board answers toplevel inputs n).steps - 1))

/-- This is the key of the last report that has been read, or the program is about to store that
one. -/
def UpToDate (answers : Nat → Answer Request Reply) (key : BitVec 8) (c : Console) : Prop :=
  key = Driver.lowByte (lastReport answers c.steps) ∨
    ∃ next, c.software = .call (.keycode (Driver.lowByte (lastReport answers c.steps))) next

theorem dataOut_typed (n : Nat) :
    (run board answers toplevel inputs n).dataOut = typed board answers toplevel inputs n := by
  rw [(run_software board answers toplevel inputs n).2, typed]
  cases (run board answers toplevel inputs n).steps with
  | zero =>
      calc
        portAfter answers 0 = portAfter answers 1 := rfl
        _ = Driver.lowByte (lastReport answers 0) := portAfter_succ 0
  | succ steps => exact portAfter_succ steps

theorem typed_upToDate (n : Nat) : UpToDate answers (typed board answers toplevel inputs n)
    (run board answers toplevel inputs n) := by
  rw [UpToDate, (run_software board answers toplevel inputs n).1, typed]
  cases (run board answers toplevel inputs n).steps with
  | zero => exact Or.inl rfl
  | succ s =>
      rw [Nat.add_sub_cancel]
      by_cases read : Calls Driver.main Driver.start answers s (.hpi (.read hpiData)) ∧
          (Driver.progressBefore answers 0#16 s).address = 0x051E#16
      · right
        rw [lastReport_read read.1 read.2]
        exact Driver.stored_of_read read.1 read.2
      · left
        rw [lastReport_kept read]

theorem steps_succ (n : Nat) : (run board answers toplevel inputs (n + 1)).steps =
    if (inputs n).proceeds then (run board answers toplevel inputs n).steps + 1
    else (run board answers toplevel inputs n).steps := rfl

theorem steps_mono {n m : Nat} (ordered : n ≤ m) :
    (run board answers toplevel inputs n).steps ≤ (run board answers toplevel inputs m).steps := by
  apply monotone_nat_of_le_succ _ ordered
  intro n
  rw [steps_succ]
  split
  · exact Nat.le_succ _
  · exact Nat.le_refl _

theorem steps_unbounded (proceeds : ∀ m, ∃ n, m ≤ n ∧ (inputs n).proceeds = true) (s : Nat) :
    ∃ n, s ≤ (run board answers toplevel inputs n).steps := by
  induction s with
  | zero => exact ⟨0, Nat.le_refl 0⟩
  | succ s ih =>
      rcases ih with ⟨m, reached⟩
      rcases proceeds m with ⟨n, late, now⟩
      refine ⟨n + 1, ?_⟩
      rw [steps_succ, if_pos now]
      exact Nat.succ_le_succ (reached.trans (steps_mono board toplevel inputs late))

theorem portAfter_held {value : BitVec 8} {s : Nat}
    (stores : Calls Driver.main Driver.start answers s (.keycode value))
    (same : ∀ j other, s ≤ j → Calls Driver.main Driver.start answers j (.keycode other) →
      other = value) {j : Nat} (later : s + 1 ≤ j) : portAfter answers j = value := by
  induction j, later using Nat.le_induction with
  | base =>
      rcases stores with ⟨next, state⟩
      rw [portAfter, state, keycodePort]
  | succ j later ih =>
      rw [portAfter, ih]
      by_cases again : ∃ other, Calls Driver.main Driver.start answers j (.keycode other)
      · rcases again with ⟨other, stored⟩
        obtain rfl := same j other (Nat.le_of_succ_le later) stored
        rcases stored with ⟨next, state⟩
        rw [state, keycodePort]
      · apply keycodePort_kept
        intro other next state
        exact again ⟨other, next, state⟩

end Runs

/-- A key that is held reaches the game and stays there: if from some step on the chip does what it is
told and every report says the same, and the program is never stopped for good, then from some cycle
on the port has the key of the reports. -/
theorem held_key_arrives (board : Board) (answers : Nat → Answer Request Reply) (toplevel : Toplevel)
    (inputs : Nat → ConsoleInput) (first : Driver.Watch) (k : Nat) (value : BitVec 8)
    (cooperative : Driver.Cooperative answers first k)
    (held : ∀ j, k ≤ j → Calls Driver.main Driver.start answers j (.hpi (.read hpiData)) →
      (Driver.progressBefore answers 0#16 j).address = 0x051E#16 →
        Driver.lowByte (answers j (.hpi (.read hpiData))) = value)
    (proceeds : ∀ m, ∃ n, m ≤ n ∧ (inputs n).proceeds = true) :
    ∃ N, ∀ n, N ≤ n → (run board answers toplevel inputs n).dataOut = value := by
  have same (j : Nat) (other : BitVec 8) (late : k + 1 ≤ j)
      (stores : Calls Driver.main Driver.start answers j (.keycode other)) : other = value := by
    rcases Driver.exists_read_of_stored 0#16 stores with ⟨i, rfl, reads, place, rfl⟩
    exact held i (Nat.le_of_succ_le_succ late) reads place
  rcases Driver.stores_after cooperative (k + 1) with ⟨s, late, other, stores⟩
  obtain rfl := same s other late stores
  rcases steps_unbounded board toplevel inputs proceeds (s + 1) with ⟨N, reached⟩
  refine ⟨N, fun n after => ?_⟩
  rw [(run_software board answers toplevel inputs n).2]
  apply portAfter_held stores
  · exact fun j next before => same j next (late.trans before)
  · exact reached.trans (steps_mono board toplevel inputs after)

theorem held_key_arrives_attended : ∃ N, ∀ n, N ≤ n →
    (run emptyBoard (Driver.attended 0x001A#16) (Toplevel.held emptyBoard) (fun _ => ⟨true, true⟩)
      n).dataOut = 0x1A#8 := by
  apply held_key_arrives emptyBoard (Driver.attended 0x001A#16) (Toplevel.held emptyBoard)
    (fun _ => ⟨true, true⟩) ⟨0#16, 0#16, 0⟩ 0 0x1A#8 (Driver.cooperative_attended 0x001A#16)
  · intro j _ _ place
    rw [Driver.attended_report 0x001A#16 j place]
    decide
  · exact fun m => ⟨m, Nat.le_refl m, rfl⟩

/-- Whatever the chip answers and whenever the program gets on, Mario moves as typed: he walks right
only while the key is D, left only while it is A, and jumps only when it is W, and the key is that
of the last report that has been read, but for the step between its read and its store. -/
theorem moves_as_typed (board : Board) (answers : Nat → Answer Request Reply) (toplevel : Toplevel)
    (inputs : Nat → ConsoleInput) (n : Nat)
    (running : (run board answers toplevel inputs n).toplevel.game.resetH = false) :
    let key := typed board answers toplevel inputs n
    let rising := (run board answers toplevel inputs n).toplevel.clock.marioEdge.rising
    let mario := (run board answers toplevel inputs n).toplevel.game.mario
    let next := (run board answers toplevel inputs (n + 1)).toplevel.game.mario
    UpToDate answers key (run board answers toplevel inputs n) ∧
      (next.marioXPos = mario.marioXPos ∨
        rising = true ∧
          (mario.PastMiddle ∧ next.marioXPos = mario.marioXPos - 40#10 ∨
            key = 0x07#8 ∧ next.marioXPos = mario.marioXPos + mario.stride ∨
            key = 0x04#8 ∧ next.marioXPos = mario.marioXPos - mario.stride)) ∧
        (mario.jumpCounter = 0#7 → next.jumpCounter ≠ 0#7 → rising = true ∧ key = 0x1A#8) := by
  intro key rising mario next
  have stepped : next = mario.step false rising (key.setWidth 16)
      ((run board answers toplevel inputs n).toplevel.game.marioPolls board) := by
    have state : next = mario.step ((run board answers toplevel inputs n).toplevel.game.resetH) rising
        ((run board answers toplevel inputs n).dataOut.setWidth 16)
        ((run board answers toplevel inputs n).toplevel.game.marioPolls board) := rfl
    rw [state, running, dataOut_typed]
  rw [stepped]
  exact ⟨typed_upToDate board toplevel inputs n, mario.step_marioXPos rising key _,
    mario.step_jumpCounter rising key _⟩

section HoldingD

abbrev pressing : Nat → ConsoleInput := fun _ => ⟨true, true⟩

abbrev holdingD (board : Board) (toplevel : Toplevel) : Nat → Console :=
  run board (Driver.attended 0x0007#16) toplevel pressing

theorem holdingD_steps (board : Board) (toplevel : Toplevel) (n : Nat) :
    (holdingD board toplevel n).steps = n := by
  induction n with
  | zero => rfl
  | succ n ih => rw [holdingD, steps_succ, if_pos rfl, ih]

theorem holdingD_stores : Calls Driver.main Driver.start (Driver.attended 0x0007#16) 524
    (.keycode 0x07#8) :=
  calls_played (by decide +kernel)

theorem holdingD_dataOut (board : Board) (toplevel : Toplevel) (n : Nat) (late : 525 ≤ n) :
    (holdingD board toplevel n).dataOut = 0x07#8 := by
  rw [(run_software ..).2, holdingD_steps]
  apply portAfter_held holdingD_stores _ late
  intro j other later stores
  rcases Driver.exists_read_of_stored 0#16 stores with ⟨i, rfl, -, place, rfl⟩
  rw [Driver.attended_report 0x0007#16 i place]
  decide

abbrev walkingD : Nat → Console := holdingD emptyBoard (Toplevel.held emptyBoard)

theorem walkingD_pulse {n : Nat} (first : n = 1 + frameCycles) :
    (walkingD n).toplevel.clock.AtOrigin true ∧
      (walkingD n).toplevel.game = (Game.idle emptyBoard)^[7] (Game.held emptyBoard) := by
  rw [walkingD, run_toplevel, first]
  exact held_opening emptyBoard _ (fun _ => rfl) (by decide +kernel)

theorem walkingD_walks {n : Nat} (first : n = 1 + frameCycles) :
    (walkingD n).toplevel.game.mario.marioXPos = 140#10 ∧
      (walkingD (n + 1)).toplevel.game.mario.marioXPos = 142#10 := by
  rcases walkingD_pulse first with ⟨origin, game⟩
  have port := holdingD_dataOut emptyBoard (Toplevel.held emptyBoard) n (by rw [first]; decide)
  have next : (walkingD (n + 1)).toplevel.game = (walkingD n).toplevel.game.step emptyBoard
      (walkingD n).toplevel.clock.pulses ⟨true, (walkingD n).dataOut⟩ := rfl
  rw [next, port, FrameClock.pulses_of_synced _ origin.synced, origin.marioEdge, game]
  decide +kernel

end HoldingD

theorem moves_as_typed_walk :
    let n := 1 + frameCycles
    let key := typed emptyBoard (Driver.attended 0x0007#16) (Toplevel.held emptyBoard) pressing n
    let rising := (walkingD n).toplevel.clock.marioEdge.rising
    let mario := (walkingD n).toplevel.game.mario
    let next := (walkingD (n + 1)).toplevel.game.mario
    (key = 0x07#8 ∧ mario.marioXPos = 140#10 ∧ next.marioXPos = 142#10) ∧
      UpToDate (Driver.attended 0x0007#16) key (walkingD n) ∧
        (next.marioXPos = mario.marioXPos ∨
          rising = true ∧
            (mario.PastMiddle ∧ next.marioXPos = mario.marioXPos - 40#10 ∨
              key = 0x07#8 ∧ next.marioXPos = mario.marioXPos + mario.stride ∨
              key = 0x04#8 ∧ next.marioXPos = mario.marioXPos - mario.stride)) ∧
          (mario.jumpCounter = 0#7 → next.jumpCounter ≠ 0#7 → rising = true ∧ key = 0x1A#8) := by
  obtain ⟨n, first⟩ : ∃ n, n = 1 + frameCycles := ⟨_, rfl⟩
  rw [← first]
  intro pulse key rising mario next
  refine ⟨⟨?_, walkingD_walks first⟩, ?_⟩
  · have late : 525 ≤ n := by
      rw [first]
      decide
    exact (dataOut_typed ..).symm.trans
      (holdingD_dataOut emptyBoard (Toplevel.held emptyBoard) n late)
  · apply moves_as_typed emptyBoard (Driver.attended 0x0007#16) (Toplevel.held emptyBoard) pressing
    rw [(walkingD_pulse first).2]
    rfl

end Console

end FPGAMario
