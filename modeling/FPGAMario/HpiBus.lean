import FPGAMario.HpiIoIntf

/-! The bus of the EZ-OTG chip over whole runs of the software: selection and address around
every strobe, and what is on the data lines while the chip may take it. -/

namespace FPGAMario

open Hdl

namespace CallPhase

variable {call : Call} {pc : Nat} {ports : OtgHpi}

theorem w_low_iff (phase : CallPhase call pc ports) :
    ports.w = false ↔ call.writes = true ∧ 4 ≤ pc ∧ pc < 6 := by
  rw [phase.w]
  simp

theorem r_low_iff (phase : CallPhase call pc ports) :
    ports.r = false ↔ call.writes = false ∧ 4 ≤ pc ∧ pc < 6 := by
  rw [phase.r]
  simp

theorem strobe_inside (phase : CallPhase call pc ports)
    (strobe : ports.r = false ∨ ports.w = false) : 4 ≤ pc ∧ pc < 6 := by
  rcases strobe with read | write
  · exact (phase.r_low_iff.mp read).2
  · exact (phase.w_low_iff.mp write).2

end CallPhase

namespace Usb

section Reached

variable {calls : Nat → Call} {start : Usb} {inputs : Nat → UsbInput}

theorem run_reached {n m : Nat} (ordered : n ≤ m) {index pc : Nat}
    (reached : (run calls start inputs n).nios.Reached index pc) :
    (run calls start inputs m).nios.Reached index pc := by
  induction m, ordered using Nat.le_induction with
  | base => exact reached
  | succ m _ ih => exact (run_advance calls start inputs m).reached ih

theorem run_reaches {n index pc : Nat} (inside : pc + 1 < (program calls index).length)
    (before : ¬ start.nios.Reached index (pc + 1))
    (reached : (run calls start inputs n).nios.Reached index (pc + 1)) :
    ∃ m, m < n ∧ ((run calls start inputs m).nios.index = index ∧
        (run calls start inputs m).nios.pc = pc) ∧
      (run calls start inputs (m + 1)).nios.index = index ∧
      (run calls start inputs (m + 1)).nios.pc = pc + 1 := by
  induction n with
  | zero => exact absurd reached before
  | succ n ih =>
      by_cases earlier : (run calls start inputs n).nios.Reached index (pc + 1)
      · rcases ih earlier with ⟨m, bound, found⟩
        exact ⟨m, Nat.lt_succ_of_lt bound, found⟩
      · exact ⟨n, Nat.lt_succ_self n,
          (run_advance calls start inputs n).reaches inside earlier reached⟩

end Reached

section Calls

variable {start : Usb} (fresh : start.nios.AtPowerUp) (calls : Nat → Call)
  (inputs : Nat → UsbInput)

include fresh

theorem run_phase (n : Nat) : (run calls start inputs n).nios.Phase calls := by
  induction n with
  | zero => exact fresh.phase calls
  | succ n ih => exact (run_advance calls start inputs n).phase ih

variable {calls inputs}

theorem strobe_call {n : Nat} (begun : 0 < (run calls start inputs (n + 1)).nios.index)
    (strobe : (run calls start inputs n).nios.ports.r = false ∨
      (run calls start inputs n).nios.ports.w = false) :
    ∃ i, (run calls start inputs n).nios.index = i + 1 ∧
      CallPhase (calls i) (run calls start inputs n).nios.pc
        (run calls start inputs n).nios.ports := by
  have phase := run_phase fresh calls inputs n
  cases part : (run calls start inputs n).nios.index with
  | zero =>
      have init := phase.init part
      cases run_advance calls start inputs n with
      | waits same _ _ => omega
      | accesses _ _ _ same _ _ => omega
      | ends _ _ last _ _ _ =>
          rw [part] at last
          change _ + 1 = 10 at last
          rcases strobe with low | low
          · rw [init.r (by omega)] at low
            contradiction
          · rw [init.w (by omega)] at low
            contradiction
  | succ i => exact ⟨i, rfl, phase.call part⟩

theorem port_steady {n i : Nat} (index : (run calls start inputs n).nios.index = i + 1)
    (inside : 4 ≤ (run calls start inputs n).nios.pc ∧ (run calls start inputs n).nios.pc < 6) :
    (∃ m, n = m + 1 ∧ (run calls start inputs m).nios.ports.address = (calls i).port) ∧
      (run calls start inputs n).nios.ports.address = (calls i).port ∧
      (run calls start inputs (n + 1)).nios.index = i + 1 ∧
      (run calls start inputs (n + 1)).nios.ports.address = (calls i).port := by
  have now := (run_phase fresh calls inputs n).call index
  refine ⟨?_, now.address (by omega), ?_⟩
  · cases n with
    | zero =>
        have first : start.nios.pc = 0 := fresh.2
        change 4 ≤ start.nios.pc ∧ _ at inside
        omega
    | succ m =>
        refine ⟨m, rfl, ?_⟩
        have back := (run_advance calls start inputs m).inside_previous (by omega)
        exact ((run_phase fresh calls inputs m).call (back.1.trans index)).address (by omega)
  · have forth := (run_advance calls start inputs n).inside_next
      (by rw [index, program, Call.accesses_length]; omega)
    have next := forth.1.trans index
    exact ⟨next, ((run_phase fresh calls inputs (n + 1)).call next).address (by omega)⟩

end Calls

/-- The rules of the bus in cycle `n + 1`: strobes exclude each other, a strobe goes with the
select and with the address of the call from the cycle before to the cycle after, and the FPGA
leaves the data lines alone during a read. -/
structure Respected (calls : Nat → Call) (states : Nat → Usb) (n : Nat) : Prop where
  exclusive : ¬ ((states (n + 1)).bridge.otgRdN = false ∧ (states (n + 1)).bridge.otgWrN = false)
  selected : (states (n + 1)).bridge.otgRdN = false ∨ (states (n + 1)).bridge.otgWrN = false →
    (states (n + 1)).bridge.otgCsN = false
  addressed : (states (n + 1)).bridge.otgRdN = false ∨ (states (n + 1)).bridge.otgWrN = false →
    ∃ call, (states (n + 1)).current calls = some call ∧
      (states n).bridge.otgAddr = call.port ∧ (states (n + 1)).bridge.otgAddr = call.port ∧
      (states (n + 2)).bridge.otgAddr = call.port
  released : (states (n + 1)).bridge.otgRdN = false → (states (n + 1)).otgData = none

theorem current_of_index {calls : Nat → Call} {s : Usb} {i : Nat} (index : s.nios.index = i + 1) :
    s.current calls = some (calls i) := by
  rw [current, Nios.current, index]

theorem bus_respected (calls : Nat → Call) (start : Usb) (fresh : start.nios.AtPowerUp)
    (inputs : Nat → UsbInput) (unreset : ∀ k, (inputs k).reset = false) (n : Nat)
    (begun : 0 < (run calls start inputs (n + 1)).nios.index) :
    Respected calls (run calls start inputs) n := by
  have rd := run_otgRdN calls start inputs n
  have wr := run_otgWrN calls start inputs n
  have cs := run_otgCsN calls start inputs n
  rw [unreset, Bool.false_or] at rd wr cs
  have called := fun low => strobe_call fresh begun (n := n) low
  rw [← rd, ← wr] at called
  constructor
  · intro both
    rcases called (Or.inl both.1) with ⟨i, -, phase⟩
    have writes := phase.w_low_iff.mp (wr ▸ both.2)
    have reads := phase.r_low_iff.mp (rd ▸ both.1)
    rw [writes.1] at reads
    exact Bool.noConfusion reads.1
  · intro low
    rcases called low with ⟨i, -, phase⟩
    have inside := phase.strobe_inside (by rwa [rd, wr] at low)
    rw [cs, phase.cs, decide_eq_false]
    omega
  · intro low
    rcases called low with ⟨i, index, phase⟩
    have inside := phase.strobe_inside (by rwa [rd, wr] at low)
    rcases port_steady fresh index inside with ⟨⟨m, rfl, before⟩, now, next, after⟩
    refine ⟨calls i, current_of_index next, ?_, ?_, ?_⟩
    · rw [run_otgAddr calls start inputs m (unreset m), before]
    · rw [run_otgAddr calls start inputs (m + 1) (unreset (m + 1)), now]
    · rw [run_otgAddr calls start inputs (m + 2) (unreset (m + 2)), after]
  · intro low
    rcases called (Or.inl low) with ⟨i, index, phase⟩
    rcases phase.r_low_iff.mp (rd ▸ low) with ⟨reads, inside⟩
    have next := (port_steady fresh index inside).2.2.1
    have later := (run_phase fresh calls inputs (n + 1)).call next
    have high : (run calls start inputs (n + 1)).nios.ports.w = true := by
      rw [later.w, reads]
      rfl
    rw [otgData, HpiIoIntf.otgData, high]
    rfl

def cleared : Usb where
  nios := ⟨0, 0, ⟨0#2, 0#16, false, false, false, false⟩, 0#16, 0#16⟩
  bridge := ⟨0#16, 0#16, 0#2, false, false, false, false⟩

def steady : Nat → UsbInput := fun _ => ⟨false, true, 0#16⟩

def writing : Nat → Call := fun _ => .write 2#8 0x1234#16

theorem bus_respected_writing : Respected writing (run writing cleared steady) 15 :=
  bus_respected _ cleared ⟨rfl, rfl⟩ steady (fun _ => rfl) 15 (by decide)

/-- In cycle `n` a low write strobe finds the data lines driven, and if it is about to rise they
carry the argument `Data` of the call. -/
structure DataHeld (calls : Nat → Call) (states : Nat → Usb) (n : Nat) : Prop where
  driven : (states n).bridge.otgWrN = false → (states n).otgData.isSome
  final : (states n).bridge.otgWrN = false → (states (n + 1)).bridge.otgWrN = true →
    ∀ address data, (states n).current calls = some (.write address data) →
      (states n).otgData = some data

def WriteEnded (calls : Nat → Call) (s : Usb) : Prop :=
  ∃ i, (calls i).writes = true ∧ s.nios.Reached (i + 1) 6

theorem WriteEnded.later {calls : Nat → Call} {start : Usb} {inputs : Nat → UsbInput} {n m : Nat}
    (ended : WriteEnded calls (run calls start inputs n)) (ordered : n ≤ m) :
    WriteEnded calls (run calls start inputs m) := by
  rcases ended with ⟨i, writes, reached⟩
  exact ⟨i, writes, run_reached ordered reached⟩

section Writes

variable {calls : Nat → Call} {start : Usb} {inputs : Nat → UsbInput}

/-- The tristate enable follows the port at once and the strobe one cycle later, so the bus
floats in the last low cycle of a strobe, and only there. -/
theorem dataHeld_iff_store (unreset : ∀ k, (inputs k).reset = false) (n : Nat) :
    DataHeld calls (run calls start inputs) (n + 1) ↔
      ¬ ((run calls start inputs n).nios.ports.w = false ∧
        (run calls start inputs (n + 1)).nios.ports.w = true) := by
  have strobe := run_otgWrN calls start inputs n
  have later := run_otgWrN calls start inputs (n + 1)
  rw [unreset, Bool.false_or] at strobe later
  constructor
  · intro held store
    have driven := held.driven (strobe.trans store.1)
    rw [otgData, HpiIoIntf.otgData, store.2] at driven
    contradiction
  · intro still
    have low : (run calls start inputs (n + 1)).bridge.otgWrN = false →
        (run calls start inputs (n + 1)).nios.ports.w = false := by
      intro low
      rw [← Bool.not_eq_true]
      exact fun high => still ⟨strobe ▸ low, high⟩
    constructor
    · intro falls
      rw [otgData, HpiIoIntf.otgData, low falls]
      rfl
    · intro falls rises
      rw [later, low falls] at rises
      contradiction

theorem not_dataHeld_of_writeEnded (fresh : start.nios.AtPowerUp)
    (unreset : ∀ k, (inputs k).reset = false) {n : Nat}
    (ended : WriteEnded calls (run calls start inputs n)) :
    ∃ k, k ≤ n ∧ 0 < (run calls start inputs k).nios.index ∧
      ¬ DataHeld calls (run calls start inputs) k := by
  rcases ended with ⟨i, writes, reached⟩
  have before : ¬ start.nios.Reached (i + 1) 6 := by
    rw [Nios.Reached, fresh.1]
    omega
  rcases run_reaches (by rw [program, Call.accesses_length]; omega) before reached with
    ⟨m, bound, ⟨index, pc⟩, next, later⟩
  refine ⟨m + 1, bound, by omega, ?_⟩
  rw [dataHeld_iff_store unreset, not_not]
  constructor
  · apply ((run_phase fresh calls inputs m).call index).w_low_iff.mpr
    exact ⟨writes, by omega, by omega⟩
  · rw [((run_phase fresh calls inputs (m + 1)).call next).w, later]
    simp

theorem dataHeld_of_not_writeEnded (fresh : start.nios.AtPowerUp)
    (unreset : ∀ k, (inputs k).reset = false) {n : Nat}
    (begun : 0 < (run calls start inputs n).nios.index)
    (unended : ¬ WriteEnded calls (run calls start inputs n)) :
    DataHeld calls (run calls start inputs) n := by
  cases n with
  | zero =>
      have none : start.nios.index = 0 := fresh.1
      change 0 < start.nios.index at begun
      omega
  | succ n =>
      rw [dataHeld_iff_store unreset]
      intro store
      rcases strobe_call fresh begun (Or.inr store.1) with ⟨i, index, phase⟩
      rcases phase.w_low_iff.mp store.1 with ⟨writes, inside⟩
      have forth := (run_advance calls start inputs n).inside_next
        (by rw [index, program, Call.accesses_length]; omega)
      have next := forth.1.trans index
      have high := store.2
      rw [((run_phase fresh calls inputs (n + 1)).call next).w, writes] at high
      apply unended
      refine ⟨i, writes, Or.inr ⟨next, ?_⟩⟩
      simp at high
      omega

end Writes

theorem data_held_iff (calls : Nat → Call) (start : Usb) (fresh : start.nios.AtPowerUp)
    (inputs : Nat → UsbInput) (unreset : ∀ k, (inputs k).reset = false) (n : Nat) :
    (∀ k, k ≤ n → 0 < (run calls start inputs k).nios.index →
        DataHeld calls (run calls start inputs) k) ↔
      ¬ WriteEnded calls (run calls start inputs n) := by
  constructor
  · intro held ended
    rcases not_dataHeld_of_writeEnded fresh unreset ended with ⟨k, bound, begun, lost⟩
    exact lost (held k bound begun)
  · intro unended k bound begun
    apply dataHeld_of_not_writeEnded fresh unreset begun
    exact fun ended => unended (ended.later bound)

theorem data_held_iff_writing :
    (∀ k, k ≤ 15 → 0 < (run writing cleared steady k).nios.index →
        DataHeld writing (run writing cleared steady) k) ↔
      ¬ WriteEnded writing (run writing cleared steady 15) :=
  data_held_iff _ cleared ⟨rfl, rfl⟩ steady (fun _ => rfl) 15

/-- In the last low cycle of the first `IO_write` nothing drives the bus. -/
theorem data_floating : ¬ ∀ (calls : Nat → Call) (start : Usb), start.nios.AtPowerUp →
    ∀ inputs : Nat → UsbInput, (∀ k, (inputs k).reset = false) →
      ∀ n, 0 < (run calls start inputs n).nios.index →
        DataHeld calls (run calls start inputs) n := by
  intro held
  have last := (held writing cleared ⟨rfl, rfl⟩ steady (fun _ => rfl) 16
    (by decide)).driven (by decide)
  revert last
  decide

end Usb

end FPGAMario
