import FPGAMario.Console
import FPGAMario.UsbStrobes
import Mathlib.Data.Nat.Nth

/-! The board down to the pins of the EZ-OTG chip: every call of the program is made access by access
over the ports, and its value is what the bridge has sampled. -/

namespace FPGAMario

open Interact

def hpiCall? (software : Driver Driver.Label) : Option Call :=
  match software with
  | .call (.hpi call) _ => some call
  | _ => none

structure Machine where
  toplevel : Toplevel
  usb : Usb
  software : Driver Driver.Label
  dataOut : BitVec 8

/-- Inputs of one cycle: `KEY[0]`, whether the processor gets on, and what the chip or the floating
bus shows when the FPGA does not drive `OTG_DATA`. -/
structure MachineInput where
  key0 : Bool
  proceeds : Bool
  chipData : BitVec 16

namespace Machine

/-- `IO_init` or a call is under way, and its next access takes effect. -/
def accesses (input : MachineInput) (m : Machine) : Bool :=
  input.proceeds && (m.usb.nios.index == 0 || (hpiCall? m.software).isSome)

/-- The program goes on: a call with its last access, anything else at once. -/
def advances (input : MachineInput) (m : Machine) : Bool :=
  input.proceeds && m.usb.nios.index != 0 &&
    (m.usb.nios.pc + 1 == 7 || (hpiCall? m.software).isNone)

def answer (m : Machine) : Answer Request Reply
  | .hpi (.read _) => m.usb.nios.temp
  | .hpi (.write _ _) => ()
  | .keycode _ => ()

def usbInput (input : MachineInput) (m : Machine) : UsbInput where
  reset := m.toplevel.game.resetH
  access := m.accesses input
  chipData := input.chipData

def step (board : Board) (input : MachineInput) (m : Machine) : Machine where
  toplevel := m.toplevel.step board ⟨input.key0, m.dataOut⟩
  usb := m.usb.step (fun _ => (hpiCall? m.software).getD (.read hpiData)) (m.usbInput input)
  software :=
    if m.advances input then Interact.step Driver.main m.answer m.software else m.software
  dataOut := if m.advances input then keycodePort m.software m.dataOut else m.dataOut

def powered (toplevel : Toplevel) (usb : Usb) : Machine :=
  ⟨toplevel, usb, .done Driver.start, 0#8⟩

end Machine

def hpiCallsBefore (answers : Nat → Answer Request Reply) (steps : Nat) : Nat :=
  steps.count fun k => (hpiCall? (Interact.run Driver.main Driver.start answers k)).isSome

def AreCalls (answers : Nat → Answer Request Reply) (calls : Nat → Call) : Prop :=
  ∀ s call, hpiCall? (Interact.run Driver.main Driver.start answers s) = some call →
    calls (hpiCallsBefore answers s) = call

theorem exists_calls (answers : Nat → Answer Request Reply) : ∃ calls, AreCalls answers calls := by
  refine ⟨fun i => (hpiCall? (Interact.run Driver.main Driver.start answers (Nat.nth
    (fun k => (hpiCall? (Interact.run Driver.main Driver.start answers k)).isSome) i))).getD
      (.read hpiData), ?_⟩
  intro s call found
  have here : (hpiCall? (Interact.run Driver.main Driver.start answers s)).isSome := by
    rw [found]
    rfl
  simp only [hpiCallsBefore]
  rw [Nat.nth_count (p := fun k =>
    ((hpiCall? (Interact.run Driver.main Driver.start answers k)).isSome : Prop)) here, found]
  rfl

theorem Nios.step_index (calls : Nat → Call) (access : Bool) (dataIn : BitVec 16) (s : Nios) :
    (s.step calls access dataIn).index =
      if access = true ∧ s.pc + 1 = (program calls s.index).length then s.index + 1
      else s.index := by
  cases access with
  | false => rfl
  | true =>
      simp only [step, if_true, true_and]
      split
      · rfl
      · next none =>
          rw [List.getElem?_eq_none_iff] at none
          rw [if_neg (by omega)]

theorem Nios.step_congr {calls others : Nat → Call} {access : Bool} (dataIn : BitVec 16) {s : Nios}
    (same : access = true → program calls s.index = program others s.index) :
    s.step calls access dataIn = s.step others access dataIn := by
  cases access with
  | false => rfl
  | true =>
      rw [step, step, same rfl]

namespace Machine

section Refinement

variable (board : Board) (toplevel : Toplevel) (usb : Usb) (inputs : Nat → MachineInput)

abbrev run : Nat → Machine := Hdl.run (step board) (powered toplevel usb) inputs

def paces (n : Nat) : ConsoleInput where
  key0 := (inputs n).key0
  proceeds := (run board toplevel usb inputs n).advances (inputs n)

noncomputable def answers (s : Nat) : Answer Request Reply :=
  (run board toplevel usb inputs
    (Nat.nth (fun k => (run board toplevel usb inputs k).advances (inputs k) = true) s)).answer

noncomputable def console : Nat → Console :=
  Console.run board (answers board toplevel usb inputs) toplevel (paces board toplevel usb inputs)

variable {board toplevel usb inputs} {calls : Nat → Call}

theorem console_steps (n : Nat) : (console board toplevel usb inputs n).steps =
    n.count fun k => (run board toplevel usb inputs k).advances (inputs k) = true := by
  induction n with
  | zero => rfl
  | succ n ih =>
      rw [Nat.count_succ, ← ih, console, Console.steps_succ, ← console]
      cases moves : (run board toplevel usb inputs n).advances (inputs n) with
      | false => simp [paces, moves]
      | true => simp [paces, moves]

theorem answers_now {n : Nat}
    (moves : (run board toplevel usb inputs n).advances (inputs n) = true) :
    answers board toplevel usb inputs (console board toplevel usb inputs n).steps =
      (run board toplevel usb inputs n).answer := by
  rw [answers, console_steps, Nat.nth_count (p := fun k =>
    (run board toplevel usb inputs k).advances (inputs k) = true) moves]

variable (board toplevel usb inputs) in
theorem run_console (n : Nat) :
    (console board toplevel usb inputs n).toplevel = (run board toplevel usb inputs n).toplevel ∧
      (console board toplevel usb inputs n).software =
        (run board toplevel usb inputs n).software ∧
      (console board toplevel usb inputs n).dataOut =
        (run board toplevel usb inputs n).dataOut := by
  induction n with
  | zero => exact ⟨rfl, rfl, rfl⟩
  | succ n ih =>
      rcases ih with ⟨game, software, dataOut⟩
      have now := @answers_now board toplevel usb inputs n
      rw [console, Console.run, Hdl.run_succ, ← Console.run, ← console, run, Hdl.run_succ, ← run]
      simp only [Console.step, step, game, software, dataOut, paces, and_true, true_and]
      split
      case isTrue moves => rw [now moves]
      case isFalse => rfl

def usbInputs (board : Board) (toplevel : Toplevel) (usb : Usb) (inputs : Nat → MachineInput)
    (n : Nat) : UsbInput :=
  (run board toplevel usb inputs n).usbInput (inputs n)

theorem console_software (n : Nat) : (run board toplevel usb inputs n).software =
    Interact.run Driver.main Driver.start (answers board toplevel usb inputs)
      (console board toplevel usb inputs n).steps :=
  (run_console board toplevel usb inputs n).2.1.symm.trans (Console.run_software ..).1

variable (board toplevel usb inputs) in
theorem run_dataOut (n : Nat) : (run board toplevel usb inputs n).dataOut =
    Console.portAfter (answers board toplevel usb inputs)
      (console board toplevel usb inputs n).steps :=
  (run_console board toplevel usb inputs n).2.2.symm.trans (Console.run_software ..).2

/-- Between two edges the bus is where it would be with the calls of the program, and the calls that
have been begun are one more than those that are over. -/
structure Aligned (board : Board) (toplevel : Toplevel) (usb : Usb) (inputs : Nat → MachineInput)
    (calls : Nat → Call) (n : Nat) : Prop where
  bus : (run board toplevel usb inputs n).usb =
    Usb.run calls usb (usbInputs board toplevel usb inputs) n
  waits : (run board toplevel usb inputs n).usb.nios.index = 0 →
    (console board toplevel usb inputs n).steps = 0
  begun : (run board toplevel usb inputs n).usb.nios.index ≠ 0 →
    (run board toplevel usb inputs n).usb.nios.index =
      hpiCallsBefore (answers board toplevel usb inputs)
        (console board toplevel usb inputs n).steps + 1

theorem Aligned.program {n : Nat} (aligned : Aligned board toplevel usb inputs calls n)
    (areCalls : AreCalls (answers board toplevel usb inputs) calls)
    (access : (run board toplevel usb inputs n).accesses (inputs n) = true) :
    program (fun _ => (hpiCall? (run board toplevel usb inputs n).software).getD (.read hpiData))
        (run board toplevel usb inputs n).usb.nios.index =
      program calls (run board toplevel usb inputs n).usb.nios.index := by
  cases part : (run board toplevel usb inputs n).usb.nios.index with
  | zero => rfl
  | succ i =>
      have number := aligned.begun (by omega)
      rw [accesses, part] at access
      cases found : hpiCall? (run board toplevel usb inputs n).software with
      | none =>
          rw [found] at access
          simp at access
      | some call =>
          have same := found
          rw [console_software] at same
          have called := areCalls _ call same
          rw [show hpiCallsBefore _ _ = i by omega] at called
          rw [FPGAMario.program, FPGAMario.program, called]
          rfl

variable (board toplevel usb inputs) in
theorem console_steps_succ (n : Nat) : (console board toplevel usb inputs (n + 1)).steps =
    if (run board toplevel usb inputs n).advances (inputs n) then
      (console board toplevel usb inputs n).steps + 1
    else (console board toplevel usb inputs n).steps :=
  Console.steps_succ ..

variable (board toplevel usb inputs) in
theorem hpiCallsBefore_succ (n : Nat) :
    hpiCallsBefore (answers board toplevel usb inputs)
        ((console board toplevel usb inputs n).steps + 1) =
      hpiCallsBefore (answers board toplevel usb inputs) (console board toplevel usb inputs n).steps +
        if (hpiCall? (run board toplevel usb inputs n).software).isSome then 1 else 0 := by
  rw [hpiCallsBefore, Nat.count_succ, console_software]
  rfl

variable (board toplevel usb inputs) in
theorem run_index (n : Nat) : (run board toplevel usb inputs (n + 1)).usb.nios.index =
    if (run board toplevel usb inputs n).accesses (inputs n) = true ∧
        (run board toplevel usb inputs n).usb.nios.pc + 1 = (program
          (fun _ => (hpiCall? (run board toplevel usb inputs n).software).getD (.read hpiData))
          (run board toplevel usb inputs n).usb.nios.index).length
      then (run board toplevel usb inputs n).usb.nios.index + 1
      else (run board toplevel usb inputs n).usb.nios.index :=
  Nios.step_index ..

theorem Aligned.step {n : Nat} (aligned : Aligned board toplevel usb inputs calls n)
    (areCalls : AreCalls (answers board toplevel usb inputs) calls) :
    Aligned board toplevel usb inputs calls (n + 1) := by
  have bus : (run board toplevel usb inputs (n + 1)).usb =
      Usb.run calls usb (usbInputs board toplevel usb inputs) (n + 1) := by
    rw [Usb.run, Hdl.run_succ, ← Usb.run, ← aligned.bus]
    have nios := Nios.step_congr (run board toplevel usb inputs n).usb.bridge.fromSwDataIn
      (aligned.program areCalls)
    exact congrArg (Usb.mk · _) nios
  have index := run_index board toplevel usb inputs n
  have steps := console_steps_succ board toplevel usb inputs n
  cases part : (run board toplevel usb inputs n).usb.nios.index with
  | zero =>
      have still : (run board toplevel usb inputs n).advances (inputs n) = false := by
        rw [advances, part]
        simp
      rw [still, aligned.waits part] at steps
      rw [part] at index
      refine ⟨bus, fun _ => steps, ?_⟩
      intro begun
      rw [steps]
      split at index
      case isTrue =>
        rw [index]
        rfl
      case isFalse => exact absurd index begun
  | succ i =>
      have number := aligned.begun (by omega)
      have calls := hpiCallsBefore_succ board toplevel usb inputs n
      rw [part] at number
      rw [part, FPGAMario.program, Call.accesses_length, accesses, part] at index
      rw [advances, part] at steps
      refine ⟨bus, ?_, ?_⟩
      · intro none
        rw [none] at index
        split at index <;> omega
      · intro _
        rw [index, steps]
        cases found : hpiCall? (run board toplevel usb inputs n).software with
        | none =>
            rw [found] at calls
            cases (inputs n).proceeds with
            | false => simpa using number
            | true => simpa [calls] using number
        | some call =>
            rw [found] at calls
            cases (inputs n).proceeds with
            | false => simpa using number
            | true =>
                by_cases last : (run board toplevel usb inputs n).usb.nios.pc + 1 = 7
                · simpa [last, calls] using number
                · have unended : (run board toplevel usb inputs n).usb.nios.pc ≠ 6 := by omega
                  simpa [unended] using number

theorem run_aligned (fresh : usb.nios.AtPowerUp)
    (areCalls : AreCalls (answers board toplevel usb inputs) calls) (n : Nat) :
    Aligned board toplevel usb inputs calls n := by
  induction n with
  | zero => exact ⟨rfl, fun _ => rfl, fun begun => absurd fresh.1 begun⟩
  | succ n ih => exact ih.step areCalls

theorem Aligned.raised {n : Nat} (aligned : Aligned board toplevel usb inputs calls n) :
    hpiCallsBefore (answers board toplevel usb inputs) (console board toplevel usb inputs n).steps ≤
        (run board toplevel usb inputs n).usb.nios.raised ∧
      (run board toplevel usb inputs n).usb.nios.raised ≤
        hpiCallsBefore (answers board toplevel usb inputs)
          (console board toplevel usb inputs n).steps + 1 := by
  cases part : (run board toplevel usb inputs n).usb.nios.index with
  | zero =>
      rw [aligned.waits part, Nios.raised_init part]
      exact ⟨Nat.le_refl 0, Nat.zero_le 1⟩
  | succ i =>
      have number := aligned.begun (by omega)
      rw [Nios.raised_call part]
      split <;> omega

end Refinement

/-- The board behaves as the console does that takes the program call by call: for some answers of
the chip and some pace of the program both show the same game, program and port in every cycle,
and the bus is driven by the calls of this program, in order. -/
theorem refines_console (board : Board) (toplevel : Toplevel) (usb : Usb)
    (fresh : usb.nios.AtPowerUp) (inputs : Nat → MachineInput) :
    ∃ (answers : Nat → Answer Request Reply) (paces : Nat → ConsoleInput) (calls : Nat → Call),
      AreCalls answers calls ∧ ∀ n,
        (run board toplevel usb inputs n).toplevel =
            (Console.run board answers toplevel paces n).toplevel ∧
          (run board toplevel usb inputs n).software =
            (Console.run board answers toplevel paces n).software ∧
          (run board toplevel usb inputs n).dataOut =
            (Console.run board answers toplevel paces n).dataOut ∧
          (run board toplevel usb inputs n).usb =
            Usb.run calls usb (usbInputs board toplevel usb inputs) n ∧
          ((run board toplevel usb inputs n).usb.nios.index ≠ 0 →
            (run board toplevel usb inputs n).usb.nios.index =
              hpiCallsBefore answers (Console.run board answers toplevel paces n).steps + 1) := by
  rcases exists_calls (answers board toplevel usb inputs) with ⟨calls, areCalls⟩
  refine ⟨answers board toplevel usb inputs, paces board toplevel usb inputs, calls, areCalls, ?_⟩
  intro n
  rcases run_console board toplevel usb inputs n with ⟨game, software, dataOut⟩
  have aligned := run_aligned fresh areCalls n
  exact ⟨game.symm, software.symm, dataOut.symm, aligned.bus, aligned.begun⟩

abbrev steadyGame : Toplevel := (Toplevel.held emptyBoard).step emptyBoard ⟨true, 0#8⟩

abbrev steadyInputs : Nat → MachineInput := fun _ => ⟨true, true, 0#16⟩

abbrev steady : Nat → Machine := run emptyBoard steadyGame Usb.cleared steadyInputs

theorem refines_console_steady :
    ∃ (answers : Nat → Answer Request Reply) (paces : Nat → ConsoleInput) (calls : Nat → Call),
      AreCalls answers calls ∧ ∀ n,
        (steady n).toplevel = (Console.run emptyBoard answers steadyGame paces n).toplevel ∧
          (steady n).software = (Console.run emptyBoard answers steadyGame paces n).software ∧
          (steady n).dataOut = (Console.run emptyBoard answers steadyGame paces n).dataOut ∧
          (steady n).usb = Usb.run calls Usb.cleared
            (usbInputs emptyBoard steadyGame Usb.cleared steadyInputs) n ∧
          ((steady n).usb.nios.index ≠ 0 → (steady n).usb.nios.index =
            hpiCallsBefore answers (Console.run emptyBoard answers steadyGame paces n).steps + 1) :=
  refines_console emptyBoard steadyGame Usb.cleared ⟨rfl, rfl⟩ steadyInputs

/-- Up to the first Reset of the game the pins carry the calls of the program, in order, each one as
one strobe with its address and data; the program is at most one call behind its strobe. -/
theorem pins_carry_calls (board : Board) (toplevel : Toplevel) (usb : Usb)
    (fresh : usb.nios.AtPowerUp) (inputs : Nat → MachineInput) :
    ∃ (answers : Nat → Answer Request Reply) (calls : Nat → Call),
      AreCalls answers calls ∧ ∀ n,
        (∀ k, k ≤ n → (run board toplevel usb inputs k).toplevel.game.resetH = false) →
          ∃ steps raised,
            (run board toplevel usb inputs n).software =
                Interact.run Driver.main Driver.start answers steps ∧
              Usb.strobes (fun k => (run board toplevel usb inputs k).usb) (n + 1) =
                (List.range raised).map (fun i => (calls i).strobe) ∧
              hpiCallsBefore answers steps ≤ raised ∧
              raised ≤ hpiCallsBefore answers steps + 1 := by
  rcases exists_calls (answers board toplevel usb inputs) with ⟨calls, areCalls⟩
  refine ⟨answers board toplevel usb inputs, calls, areCalls, ?_⟩
  intro n unreset
  have bus : (fun k => (run board toplevel usb inputs k).usb) =
      Usb.run calls usb (usbInputs board toplevel usb inputs) :=
    funext fun k => (run_aligned fresh areCalls k).bus
  have aligned := run_aligned fresh areCalls n
  refine ⟨(console board toplevel usb inputs n).steps,
    (run board toplevel usb inputs n).usb.nios.raised, console_software n, ?_, aligned.raised⟩
  rw [bus, Usb.strobes_in_order calls fresh unreset, ← aligned.bus]

theorem pins_carry_calls_steady :
    ∃ (answers : Nat → Answer Request Reply) (calls : Nat → Call),
      AreCalls answers calls ∧ ∀ n,
        (∀ k, k ≤ n → (steady k).toplevel.game.resetH = false) →
          ∃ steps raised,
            (steady n).software = Interact.run Driver.main Driver.start answers steps ∧
              Usb.strobes (fun k => (steady k).usb) (n + 1) =
                (List.range raised).map (fun i => (calls i).strobe) ∧
              hpiCallsBefore answers steps ≤ raised ∧
              raised ≤ hpiCallsBefore answers steps + 1 :=
  pins_carry_calls emptyBoard steadyGame Usb.cleared ⟨rfl, rfl⟩ steadyInputs

section Progress

variable {board : Board} {toplevel : Toplevel} {usb : Usb} {inputs : Nat → MachineInput}

/-- Accesses that are left of the part under way; after `IO_init` comes a call. -/
def left (m : Machine) : Nat :=
  if m.usb.nios.index = 0 then 17 - m.usb.nios.pc else 7 - m.usb.nios.pc

variable (board toplevel inputs) in
theorem run_inside (fresh : usb.nios.AtPowerUp) (n : Nat) :
    ((run board toplevel usb inputs n).usb.nios.index = 0 →
        (run board toplevel usb inputs n).usb.nios.pc < 10) ∧
      ((run board toplevel usb inputs n).usb.nios.index ≠ 0 →
        (run board toplevel usb inputs n).usb.nios.pc < 7) := by
  rcases exists_calls (answers board toplevel usb inputs) with ⟨calls, areCalls⟩
  rw [(run_aligned fresh areCalls n).bus]
  have phase := Usb.run_phase fresh calls (usbInputs board toplevel usb inputs) n
  cases part : (Usb.run calls usb (usbInputs board toplevel usb inputs) n).nios.index with
  | zero => exact ⟨fun _ => (phase.init part).inside, fun begun => absurd rfl begun⟩
  | succ i => exact ⟨fun none => absurd none (Nat.succ_ne_zero i), fun _ => (phase.call part).inside⟩

theorem run_pc (n : Nat) (access : (run board toplevel usb inputs n).accesses (inputs n) = true)
    (inside : (run board toplevel usb inputs n).usb.nios.pc < (program
      (fun _ => (hpiCall? (run board toplevel usb inputs n).software).getD (.read hpiData))
      (run board toplevel usb inputs n).usb.nios.index).length) :
    (run board toplevel usb inputs (n + 1)).usb.nios.pc =
      if (run board toplevel usb inputs n).usb.nios.pc + 1 = (program
          (fun _ => (hpiCall? (run board toplevel usb inputs n).software).getD (.read hpiData))
          (run board toplevel usb inputs n).usb.nios.index).length
        then 0 else (run board toplevel usb inputs n).usb.nios.pc + 1 := by
  change (Nios.step _ ((run board toplevel usb inputs n).accesses (inputs n)) _ _).pc = _
  rw [access, Nios.step, if_pos rfl, List.getElem?_eq_getElem inside]

theorem run_waits (n : Nat) (idle : (run board toplevel usb inputs n).accesses (inputs n) = false) :
    (run board toplevel usb inputs (n + 1)).usb.nios.index =
        (run board toplevel usb inputs n).usb.nios.index ∧
      (run board toplevel usb inputs (n + 1)).usb.nios.pc =
        (run board toplevel usb inputs n).usb.nios.pc := by
  change (Nios.step _ ((run board toplevel usb inputs n).accesses (inputs n)) _ _).index = _ ∧
    (Nios.step _ ((run board toplevel usb inputs n).accesses (inputs n)) _ _).pc = _
  rw [idle]
  exact ⟨rfl, rfl⟩

theorem left_init (fresh : usb.nios.AtPowerUp) {n : Nat}
    (access : (run board toplevel usb inputs n).accesses (inputs n) = true)
    (part : (run board toplevel usb inputs n).usb.nios.index = 0) :
    (run board toplevel usb inputs (n + 1)).left < (run board toplevel usb inputs n).left := by
  have ten : (program (fun _ => (hpiCall? (run board toplevel usb inputs n).software).getD
    (.read hpiData)) 0).length = 10 := rfl
  have below := (run_inside board toplevel inputs fresh n).1 part
  have index := run_index board toplevel usb inputs n
  have pc := run_pc n access
  rw [access] at index
  rw [part, ten] at index pc
  have next := pc below
  rw [left, left, part, if_pos rfl]
  split at next
  case isTrue last =>
    rw [if_pos ⟨rfl, last⟩] at index
    rw [index, if_neg (by decide), next]
    omega
  case isFalse more =>
    rw [if_neg (fun ended => more ended.2)] at index
    rw [index, if_pos rfl, next]
    omega

theorem left_call (fresh : usb.nios.AtPowerUp) {n i : Nat}
    (access : (run board toplevel usb inputs n).accesses (inputs n) = true)
    (part : (run board toplevel usb inputs n).usb.nios.index = i + 1)
    (still : (run board toplevel usb inputs n).advances (inputs n) = false) :
    (run board toplevel usb inputs (n + 1)).left < (run board toplevel usb inputs n).left := by
  have seven : (program (fun _ => (hpiCall? (run board toplevel usb inputs n).software).getD
    (.read hpiData)) (i + 1)).length = 7 := Call.accesses_length _
  have below := (run_inside board toplevel inputs fresh n).2 (by omega)
  have index := run_index board toplevel usb inputs n
  have pc := run_pc n access
  rw [access] at index
  rw [part, seven] at index pc
  have more : (run board toplevel usb inputs n).usb.nios.pc + 1 ≠ 7 := by
    intro last
    rw [accesses, part] at access
    rw [advances, part, last] at still
    simp only [Bool.and_eq_true] at access
    rw [access.1] at still
    exact Bool.noConfusion still
  have next := pc below
  rw [if_neg more] at next
  rw [if_neg (fun ended => more ended.2)] at index
  rw [left, left, part, index, next, if_neg (Nat.succ_ne_zero i), if_neg (Nat.succ_ne_zero i)]
  omega

/-- Until the program goes on, every access of the processor leaves fewer. -/
theorem left_falls (fresh : usb.nios.AtPowerUp) {n : Nat}
    (still : (run board toplevel usb inputs n).advances (inputs n) = false) :
    (run board toplevel usb inputs (n + 1)).left ≤ (run board toplevel usb inputs n).left ∧
      ((inputs n).proceeds = true →
        (run board toplevel usb inputs (n + 1)).left < (run board toplevel usb inputs n).left) := by
  cases access : (run board toplevel usb inputs n).accesses (inputs n) with
  | false =>
      have same := run_waits n access
      rw [left, left, same.1, same.2]
      refine ⟨Nat.le_refl _, ?_⟩
      intro proceeds
      simp only [accesses, advances, proceeds, Bool.true_and, Bool.or_eq_false_iff] at access still
      rcases access with ⟨begun, other⟩
      simp [bne, begun, ← Option.not_isSome, other] at still
  | true =>
      cases part : (run board toplevel usb inputs n).usb.nios.index with
      | zero =>
          have fewer := left_init fresh access part
          exact ⟨fewer.le, fun _ => fewer⟩
      | succ i =>
          have fewer := left_call fresh access part still
          exact ⟨fewer.le, fun _ => fewer⟩

theorem exists_advance (fresh : usb.nios.AtPowerUp)
    (proceeds : ∀ m, ∃ n, m ≤ n ∧ (inputs n).proceeds = true) (m : Nat) :
    ∃ n, m ≤ n ∧ (run board toplevel usb inputs n).advances (inputs n) = true := by
  by_contra never
  have still (k : Nat) (late : m ≤ k) :
      (run board toplevel usb inputs k).advances (inputs k) = false := by
    rw [← Bool.not_eq_true]
    exact fun moves => never ⟨k, late, moves⟩
  have falls (first last : Nat) (late : m ≤ first) (ordered : first ≤ last) :
      (run board toplevel usb inputs last).left ≤ (run board toplevel usb inputs first).left := by
    induction last, ordered using Nat.le_induction with
    | base => exact Nat.le_refl _
    | succ last ordered ih => exact (left_falls fresh (still last (late.trans ordered))).1.trans ih
  -- every cycle in which the processor gets on leaves fewer accesses than any cycle before it
  have none (r : Nat) : ∀ k, m ≤ k → (run board toplevel usb inputs k).left ≠ r := by
    induction r using Nat.strong_induction_on with
    | _ r ih =>
        intro k late same
        rcases proceeds k with ⟨n, later, now⟩
        have fewer := (left_falls fresh (still n (late.trans later))).2 now
        have least := falls k n late later
        exact ih _ (by omega) (n + 1) (by omega) rfl
  exact none _ m (Nat.le_refl m) rfl

theorem exists_moves {n s : Nat} (made : s < (console board toplevel usb inputs n).steps) :
    ∃ m, m < n ∧ (run board toplevel usb inputs m).advances (inputs m) = true ∧
      (console board toplevel usb inputs m).steps = s := by
  let moves (k : Nat) : Prop := (run board toplevel usb inputs k).advances (inputs k) = true
  rw [console_steps] at made
  have counted : ∀ finite : (Set.ofPred moves).Finite, s < finite.toFinset.card :=
    fun finite => made.trans_le (Nat.count_le_card finite n)
  refine ⟨Nat.nth moves s, Nat.nth_lt_of_lt_count made, Nat.nth_mem s counted, ?_⟩
  rw [console_steps]
  exact Nat.count_nth counted

theorem exists_step (fresh : usb.nios.AtPowerUp)
    (proceeds : ∀ m, ∃ n, m ≤ n ∧ (inputs n).proceeds = true) (s : Nat) :
    ∃ n, (run board toplevel usb inputs n).advances (inputs n) = true ∧
      (console board toplevel usb inputs n).steps = s := by
  obtain ⟨later, made⟩ : ∃ n, s + 1 ≤ (console board toplevel usb inputs n).steps :=
    Console.steps_unbounded board toplevel _ (exists_advance fresh proceeds) (s + 1)
  rcases exists_moves made with ⟨n, -, moves, reached⟩
  exact ⟨n, moves, reached⟩

end Progress

/-- Nothing that the chip shows and no Reset of the game can wedge the program: on a processor that is
never stopped for good it comes to every step of an endless run, with the port as its stores leave
it. -/
theorem program_goes_on (board : Board) (toplevel : Toplevel) (usb : Usb)
    (fresh : usb.nios.AtPowerUp) (inputs : Nat → MachineInput)
    (proceeds : ∀ m, ∃ n, m ≤ n ∧ (inputs n).proceeds = true) :
    ∃ answers : Nat → Answer Request Reply, ∀ s, ∃ n,
      (run board toplevel usb inputs n).software =
          Interact.run Driver.main Driver.start answers s ∧
        (run board toplevel usb inputs n).dataOut = Console.portAfter answers s := by
  refine ⟨answers board toplevel usb inputs, ?_⟩
  intro s
  rcases exists_step fresh proceeds s with ⟨n, -, reached⟩
  refine ⟨n, ?_, ?_⟩
  · rw [console_software, reached]
  · rw [run_dataOut, reached]

theorem program_goes_on_steady :
    ∃ answers : Nat → Answer Request Reply, ∀ s, ∃ n,
      (steady n).software = Interact.run Driver.main Driver.start answers s ∧
        (steady n).dataOut = Console.portAfter answers s :=
  program_goes_on emptyBoard steadyGame Usb.cleared ⟨rfl, rfl⟩ steadyInputs
    fun m => ⟨m, Nat.le_refl m, rfl⟩

end Machine

end FPGAMario
