import FPGAMario.Hdl.Run
import Mathlib.Tactic.IntervalCases

/-! `io_handler.c`: the accesses of `IO_init`, `IO_write` and `IO_read` to the PIO ports
`otg_hpi_*`, and the NIOS processor that makes them one at a time. -/

namespace FPGAMario

/-- Contents of the PIO output registers; the four one-bit ports are active low. -/
structure OtgHpi where
  address : BitVec 2
  data : BitVec 16
  r : Bool
  w : Bool
  cs : Bool
  reset : Bool
  deriving DecidableEq, Repr

/-- One access of the software: a store to a port, or the load of `*otg_hpi_data`. -/
inductive Access
  | address (value : BitVec 8)
  | data (value : BitVec 16)
  | r (value : Bool)
  | w (value : Bool)
  | cs (value : Bool)
  | reset (value : Bool)
  | loadData
  deriving DecidableEq, Repr

namespace OtgHpi

def access (ports : OtgHpi) : Access → OtgHpi
  | .address value => { ports with address := value.setWidth 2 }
  | .data value => { ports with data := value }
  | .r value => { ports with r := value }
  | .w value => { ports with w := value }
  | .cs value => { ports with cs := value }
  | .reset value => { ports with reset := value }
  | .loadData => ports

end OtgHpi

def ioInit : List Access :=
  [.reset true, .cs true, .r true, .w true, .address 0#8, .data 0#16, .cs false, .reset false,
    .reset true, .cs true]

def ioWrite (address : BitVec 8) (data : BitVec 16) : List Access :=
  [.r true, .address address, .cs false, .w false, .data data, .w true, .cs true]

def ioRead (address : BitVec 8) : List Access :=
  [.w true, .address address, .cs false, .r false, .loadData, .r true, .cs true]

inductive Call
  | write (address : BitVec 8) (data : BitVec 16)
  | read (address : BitVec 8)
  deriving DecidableEq, Repr

namespace Call

def accesses : Call → List Access
  | .write address data => ioWrite address data
  | .read address => ioRead address

def port : Call → BitVec 2
  | .write address _ => address.setWidth 2
  | .read address => address.setWidth 2

def writes : Call → Bool
  | .write _ _ => true
  | .read _ => false

@[simp] theorem accesses_length (call : Call) : call.accesses.length = 7 := by
  cases call <;> rfl

end Call

def program (calls : Nat → Call) : Nat → List Access
  | 0 => ioInit
  | i + 1 => (calls i).accesses

/-- The processor before access `pc` of part `index` of the program. `readdata` is the register
of the data port, `temp` the variable of `IO_read`. -/
structure Nios where
  index : Nat
  pc : Nat
  ports : OtgHpi
  readdata : BitVec 16
  temp : BitVec 16
  deriving DecidableEq, Repr

namespace Nios

def step (calls : Nat → Call) (access : Bool) (dataIn : BitVec 16) (s : Nios) : Nios :=
  let waiting := { s with readdata := dataIn }
  if access then
    match (program calls s.index)[s.pc]? with
    | some next =>
        { waiting with
          index := if s.pc + 1 = (program calls s.index).length then s.index + 1 else s.index
          pc := if s.pc + 1 = (program calls s.index).length then 0 else s.pc + 1
          ports := s.ports.access next
          temp := if next = .loadData then s.readdata else s.temp }
    | none => waiting
  else waiting

def current (calls : Nat → Call) (s : Nios) : Option Call :=
  match s.index with
  | 0 => none
  | i + 1 => some (calls i)

/-- Before the first access of all, whatever the ports hold. -/
def AtPowerUp (s : Nios) : Prop := s.index = 0 ∧ s.pc = 0

end Nios

structure InitPhase (pc : Nat) (ports : OtgHpi) : Prop where
  inside : pc < 10
  r : 3 ≤ pc → ports.r = true
  w : 4 ≤ pc → ports.w = true

/-- What the ports hold before access `pc` of a call that found them idle. -/
structure CallPhase (call : Call) (pc : Nat) (ports : OtgHpi) : Prop where
  inside : pc < 7
  r : ports.r = !(!call.writes && decide (4 ≤ pc ∧ pc < 6))
  w : ports.w = !(call.writes && decide (4 ≤ pc ∧ pc < 6))
  cs : ports.cs = decide (pc < 3)
  address : 2 ≤ pc → ports.address = call.port
  data : ∀ address data, call = .write address data → 5 ≤ pc → ports.data = data

structure OtgHpi.Idle (ports : OtgHpi) : Prop where
  r : ports.r = true
  w : ports.w = true
  cs : ports.cs = true

theorem OtgHpi.Idle.callPhase {ports : OtgHpi} (idle : ports.Idle) (call : Call) :
    CallPhase call 0 ports where
  inside := by omega
  r := by simp [idle.r]
  w := by simp [idle.w]
  cs := by simp [idle.cs]
  address := by omega
  data := by omega

theorem InitPhase.access {pc : Nat} {ports : OtgHpi} (phase : InitPhase pc ports) {next : Access}
    (fetched : ioInit[pc]? = some next) (more : pc + 1 ≠ 10) :
    InitPhase (pc + 1) (ports.access next) := by
  rcases phase with ⟨inside, r, w⟩
  interval_cases pc <;> simp only [ioInit, List.getElem?_cons_zero, List.getElem?_cons_succ,
    Option.some.injEq] at fetched <;> subst fetched <;>
    constructor <;> simp_all [OtgHpi.access]

theorem InitPhase.access_last {ports : OtgHpi} (phase : InitPhase 9 ports) {next : Access}
    (fetched : ioInit[9]? = some next) : (ports.access next).Idle := by
  cases fetched
  exact ⟨phase.r (by omega), phase.w (by omega), rfl⟩

theorem CallPhase.access {call : Call} {pc : Nat} {ports : OtgHpi}
    (phase : CallPhase call pc ports) {next : Access} (fetched : call.accesses[pc]? = some next)
    (more : pc + 1 ≠ 7) : CallPhase call (pc + 1) (ports.access next) := by
  rcases phase with ⟨inside, r, w, cs, address, data⟩
  cases call with
  | write target value =>
      interval_cases pc <;> simp only [Call.accesses, ioWrite, List.getElem?_cons_zero,
        List.getElem?_cons_succ, Option.some.injEq] at fetched <;> subst fetched <;>
        constructor <;> simp_all [OtgHpi.access, Call.writes, Call.port]
  | read target =>
      interval_cases pc <;> simp only [Call.accesses, ioRead, List.getElem?_cons_zero,
        List.getElem?_cons_succ, Option.some.injEq] at fetched <;> subst fetched <;>
        constructor <;> simp_all [OtgHpi.access, Call.writes, Call.port]

theorem CallPhase.access_last {call : Call} {ports : OtgHpi} (phase : CallPhase call 6 ports)
    {next : Access} (fetched : call.accesses[6]? = some next) : (ports.access next).Idle := by
  have r : ports.r = true := by simpa using phase.r
  have w : ports.w = true := by simpa using phase.w
  cases call with
  | write target value =>
      cases fetched
      exact ⟨r, w, rfl⟩
  | read target =>
      cases fetched
      exact ⟨r, w, rfl⟩

namespace Nios

variable (calls : Nat → Call)

def Phase (s : Nios) : Prop :=
  match s.index with
  | 0 => InitPhase s.pc s.ports
  | i + 1 => CallPhase (calls i) s.pc s.ports

theorem AtPowerUp.phase {s : Nios} (fresh : s.AtPowerUp) : s.Phase calls := by
  rw [Phase, fresh.1]
  change InitPhase s.pc s.ports
  rw [fresh.2]
  exact ⟨by omega, by omega, by omega⟩

inductive Advance (s t : Nios) : Prop
  | waits (index : t.index = s.index) (pc : t.pc = s.pc) (ports : t.ports = s.ports)
  | accesses (next : Access) (fetched : (program calls s.index)[s.pc]? = some next)
      (more : s.pc + 1 ≠ (program calls s.index).length) (index : t.index = s.index)
      (pc : t.pc = s.pc + 1) (ports : t.ports = s.ports.access next)
  | ends (next : Access) (fetched : (program calls s.index)[s.pc]? = some next)
      (last : s.pc + 1 = (program calls s.index).length) (index : t.index = s.index + 1)
      (pc : t.pc = 0) (ports : t.ports = s.ports.access next)

theorem step_advance (access : Bool) (dataIn : BitVec 16) (s : Nios) :
    Advance calls s (s.step calls access dataIn) := by
  cases access with
  | false => exact .waits rfl rfl rfl
  | true =>
      simp only [step, if_true]
      split
      · next next fetched =>
          by_cases last : s.pc + 1 = (program calls s.index).length
          · simp only [last, if_true]
            exact .ends next fetched last rfl rfl rfl
          · simp only [last, if_false]
            exact .accesses next fetched last rfl rfl rfl
      · exact .waits rfl rfl rfl

variable {calls}

theorem Phase.init {s : Nios} (phase : s.Phase calls) (index : s.index = 0) :
    InitPhase s.pc s.ports := by
  rw [Phase, index] at phase
  exact phase

theorem Phase.call {s : Nios} (phase : s.Phase calls) {i : Nat} (index : s.index = i + 1) :
    CallPhase (calls i) s.pc s.ports := by
  rw [Phase, index] at phase
  exact phase

theorem phase_of_call {s : Nios} {i : Nat} (index : s.index = i + 1)
    (phase : CallPhase (calls i) s.pc s.ports) : s.Phase calls := by
  rw [Phase, index]
  exact phase

theorem Advance.phase {s t : Nios} (advance : Advance calls s t) (phase : s.Phase calls) :
    t.Phase calls := by
  cases advance with
  | waits index pc ports => rwa [Phase, index, pc, ports]
  | accesses next fetched more index pc ports =>
      rw [Phase, index, pc, ports]
      cases part : s.index with
      | zero =>
          rw [part] at fetched more
          exact (phase.init part).access fetched more
      | succ i =>
          rw [part] at fetched more
          apply (phase.call part).access fetched
          rwa [program, Call.accesses_length] at more
  | ends next fetched last index pc ports =>
      have idle : t.ports.Idle := by
        rw [ports]
        cases part : s.index with
        | zero =>
            rw [part] at fetched last
            have nine : s.pc = 9 := by
              change s.pc + 1 = 10 at last
              omega
            rw [nine] at fetched
            have ended := phase.init part
            rw [nine] at ended
            exact ended.access_last fetched
        | succ i =>
            rw [part, program] at fetched last
            rw [Call.accesses_length] at last
            have six : s.pc = 6 := by omega
            rw [six] at fetched
            have ended := phase.call part
            rw [six] at ended
            exact ended.access_last fetched
      apply phase_of_call index
      rw [pc]
      exact idle.callPhase _

def Reached (index pc : Nat) (s : Nios) : Prop :=
  index < s.index ∨ s.index = index ∧ pc ≤ s.pc

theorem Advance.reached {s t : Nios} (advance : Advance calls s t) {index pc : Nat}
    (before : s.Reached index pc) : t.Reached index pc := by
  cases advance with
  | waits same still _ => rwa [Reached, same, still]
  | accesses _ _ _ same later _ =>
      rw [Reached] at before ⊢
      omega
  | ends _ _ _ next _ _ =>
      rw [Reached] at before ⊢
      omega

theorem Advance.reaches {s t : Nios} (advance : Advance calls s t) {index pc : Nat}
    (inside : pc + 1 < (program calls index).length) (before : ¬ s.Reached index (pc + 1))
    (after : t.Reached index (pc + 1)) :
    (s.index = index ∧ s.pc = pc) ∧ t.index = index ∧ t.pc = pc + 1 := by
  cases advance with
  | waits same still _ =>
      rw [Reached, same, still] at after
      exact absurd after before
  | accesses _ _ _ same later _ =>
      rw [Reached] at before after
      omega
  | ends _ _ last next first _ =>
      rw [Reached] at before after
      have same : s.index = index := by omega
      rw [same] at last
      omega

theorem Advance.inside_next {s t : Nios} (advance : Advance calls s t)
    (inside : s.pc + 1 < (program calls s.index).length) :
    t.index = s.index ∧ s.pc ≤ t.pc ∧ t.pc ≤ s.pc + 1 := by
  cases advance with
  | waits same still _ => omega
  | accesses _ _ _ same later _ => omega
  | ends _ _ last _ _ _ => omega

theorem Advance.inside_previous {s t : Nios} (advance : Advance calls s t) (inside : 0 < t.pc) :
    s.index = t.index ∧ s.pc ≤ t.pc ∧ t.pc ≤ s.pc + 1 := by
  cases advance with
  | waits same still _ => omega
  | accesses _ _ _ same later _ => omega
  | ends _ _ _ _ first _ => omega

end Nios

end FPGAMario
