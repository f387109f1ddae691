import FPGAMario.Hdl.Loop
import FPGAMario.Machine
import FPGAMario.UsbReads

/-! The way of a report from the memory of the EZ-OTG chip to the game, cycle by cycle. -/

namespace FPGAMario

open Hdl Interact

def Strobe.addressAfter (address : BitVec 16) : Strobe → BitVec 16
  | .write port data =>
      if port = 2#2 then data else if port = 0#2 then address + 2#16 else address
  | .read port => if port = 0#2 then address + 2#16 else address

theorem Strobe.addressAfter_call {place : BitVec 16} {call : Call}
    (allowed : Driver.Footprint.whole.observer.allows place (.hpi call)) (address : BitVec 16) :
    call.strobe.addressAfter address = FPGAMario.addressAfter address (.hpi call) := by
  cases call with
  | write port data =>
      rcases allowed with rfl | ⟨rfl, _⟩ | ⟨rfl, _⟩
      · rfl
      · rfl
      · rfl
  | read port =>
      rcases allowed with rfl | rfl | ⟨rfl, _⟩
      · rfl
      · rfl
      · rfl

def addressAfterCalls (address : BitVec 16) (calls : Nat → Call) (count : Nat) : BitVec 16 :=
  ((List.range count).map fun i => (calls i).strobe).foldl Strobe.addressAfter address

theorem addressAfterCalls_succ (address : BitVec 16) (calls : Nat → Call) (count : Nat) :
    addressAfterCalls address calls (count + 1) =
      (calls count).strobe.addressAfter (addressAfterCalls address calls count) := by
  rw [addressAfterCalls, List.range_succ, List.map_append, List.foldl_append]
  rfl

namespace Driver

variable {answers : Nat → Answer Request Reply} {calls : Nat → Call}

theorem allowed_whole (answers : Nat → Answer Request Reply) (address : BitVec 16) {s : Nat}
    {request : Request} (called : Calls main start answers s request) :
    Footprint.whole.observer.allows
      (seenBefore main start answers Footprint.whole.observer address s) request :=
  Keeps.allows (fun label seen _ => Footprint.holds_main label seen) trivial (fun _ _ _ => trivial)
    s request called

/-- The register that the calls set is the one that the protocol speaks of. -/
theorem address_calls (areCalls : AreCalls answers calls) (address : BitVec 16) (s : Nat) :
    addressAfterCalls address calls (hpiCallsBefore answers s) =
      (progressBefore answers address s).address := by
  induction s with
  | zero => rfl
  | succ s ih =>
      rw [hpiCallsBefore, Nat.count_succ, ← hpiCallsBefore]
      cases state : Interact.run main start answers s with
      | done label =>
          rw [progressBefore_done state, ← ih]
          rfl
      | call request next =>
          rw [progressBefore_call state, Progress.see_address, ← ih]
          cases request with
          | keycode value => rfl
          | hpi call =>
              have allowed := allowed_whole answers address ⟨next, state⟩
              have now : calls (hpiCallsBefore answers s) = call :=
                areCalls s call (by rw [state]; rfl)
              calc addressAfterCalls address calls (hpiCallsBefore answers s + 1) =
                    (calls (hpiCallsBefore answers s)).strobe.addressAfter
                      (addressAfterCalls address calls (hpiCallsBefore answers s)) :=
                    addressAfterCalls_succ ..
                _ = call.strobe.addressAfter
                      (addressAfterCalls address calls (hpiCallsBefore answers s)) := by rw [now]
                _ = _ := Strobe.addressAfter_call allowed _

end Driver

namespace Usb

/-- The chip shows the word under its address register while it is read over the data port;
`words` is what its memory holds, cycle by cycle. -/
def Shows (words : Nat → BitVec 16 → BitVec 16) (address : BitVec 16) (states : Nat → Usb)
    (inputs : Nat → UsbInput) : Prop :=
  ∀ n, (states n).bridge.otgRdN = false → (states n).bridge.otgCsN = false →
    (states n).bridge.otgAddr = 0#2 →
      (inputs n).chipData = words n ((strobes states n).foldl Strobe.addressAfter address)

/-- Between the store that lowers the strobe of a read and its load the processor takes four cycles
at least. -/
def Slow (states : Nat → Usb) (inputs : Nat → UsbInput) : Prop :=
  ∀ n, (states (n + 3)).nios.index ≠ 0 → (states (n + 3)).nios.ports.r = false →
    (states (n + 3)).nios.pc = 4 → (inputs (n + 3)).access = true → (states n).nios.pc = 4

/-- The chip is read over a port, with its address register as the strobes before have left it. -/
structure ReadOver (states : Nat → Usb) (address : BitVec 16) (port : BitVec 2)
    (register : BitVec 16) (n : Nat) : Prop where
  otgRdN : (states n).bridge.otgRdN = false
  otgCsN : (states n).bridge.otgCsN = false
  otgAddr : (states n).bridge.otgAddr = port
  register : (strobes states n).foldl Strobe.addressAfter address = register

theorem temp_kept {calls : Nat → Call} {i : Nat} {address : BitVec 8} (access : Bool)
    (dataIn : BitVec 16) {s : Nios} (index : s.index = i + 1) (call : calls i = .read address)
    (loaded : 5 ≤ s.pc) : (s.step calls access dataIn).temp = s.temp := by
  cases access with
  | false => rfl
  | true =>
      simp only [Nios.step, if_true]
      split
      case h_1 next fetched =>
        rw [index, program, call] at fetched
        have inside : s.pc < 7 := (List.getElem?_eq_some_iff.mp fetched).1
        apply if_neg
        rintro rfl
        interval_cases s.pc
        · simp [Call.accesses, ioRead] at fetched
        · simp [Call.accesses, ioRead] at fetched
      case h_2 => rfl

section Sampled

variable {calls : Nat → Call} {start : Usb} {inputs : Nat → UsbInput} {i : Nat}
  {port : BitVec 8}

theorem run_pc_le (fresh : start.nios.AtPowerUp) (calls : Nat → Call) (inputs : Nat → UsbInput)
    (n : Nat) :
    (run calls start inputs n).nios.pc ≤ n := by
  induction n with
  | zero => exact fresh.2.le
  | succ n ih =>
      cases run_advance calls start inputs n with
      | waits _ pc _ => omega
      | accesses _ _ _ _ pc _ => omega
      | ends _ _ _ _ pc _ => omega

theorem read_over (fresh : start.nios.AtPowerUp) (address : BitVec 16) {n : Nat}
    (unreset : ∀ k, k ≤ n → (inputs k).reset = false) (call : calls i = .read port)
    (index : (run calls start inputs n).nios.index = i + 1)
    (pc : (run calls start inputs n).nios.pc = 4) :
    ReadOver (run calls start inputs) address (port.setWidth 2)
      (addressAfterCalls address calls i) (n + 1) := by
  have phase := (run_phase fresh calls inputs n).call index
  rw [pc, call] at phase
  have now := unreset n (Nat.le_refl n)
  constructor
  case otgRdN => exact (otgRdN_follows now).trans phase.r
  case otgCsN => exact (otgCsN_follows now).trans phase.cs
  case otgAddr => exact (run_otgAddr calls start inputs n now).trans (phase.address (by decide))
  case register =>
      rw [strobes_in_order calls fresh unreset, Nios.raised_call index, pc]
      rfl

theorem sampled (fresh : start.nios.AtPowerUp) (slow : Slow (run calls start inputs) inputs)
    (address : BitVec 16) {n : Nat} (unreset : ∀ k, k < n → (inputs k).reset = false)
    (call : calls i = .read port) (index : (run calls start inputs n).nios.index = i + 1)
    (loaded : 5 ≤ (run calls start inputs n).nios.pc) :
    ∃ k, k < n ∧
      ReadOver (run calls start inputs) address (port.setWidth 2)
        (addressAfterCalls address calls i) k ∧
      (run calls start inputs n).nios.temp = (inputs k).chipData := by
  induction n with
  | zero =>
      have none : start.nios.index = 0 := fresh.1
      change start.nios.index = i + 1 at index
      omega
  | succ n ih =>
      have back := (run_advance calls start inputs n).inside_previous (by omega)
      have before : (run calls start inputs n).nios.index = i + 1 := back.1.trans index
      by_cases already : 5 ≤ (run calls start inputs n).nios.pc
      · rcases ih (fun k bound => unreset k (Nat.lt_succ_of_lt bound)) before already with
          ⟨k, earlier, aimed, value⟩
        refine ⟨k, Nat.lt_succ_of_lt earlier, aimed, ?_⟩
        rw [← value]
        exact temp_kept (inputs n).access _ before call already
      · have four : (run calls start inputs n).nios.pc = 4 := by omega
        have access : (inputs n).access = true := by
          rw [← Bool.not_eq_false]
          intro idle
          have same : (run calls start inputs (n + 1)).nios =
              (run calls start inputs n).nios.step calls (inputs n).access
                (run calls start inputs n).bridge.fromSwDataIn := rfl
          rw [same, idle] at loaded
          exact already loaded
        have late := run_pc_le fresh calls inputs n
        obtain ⟨m, rfl⟩ : ∃ m, n = m + 3 := ⟨n - 3, by omega⟩
        rcases inside_before before four.ge with ⟨index2, low2, -⟩
        rcases inside_before index2 low2 with ⟨index1, low1, -⟩
        rcases inside_before index1 low1 with ⟨index0, -, -⟩
        have reads : (calls i).writes = false := by
          rw [call]
          rfl
        have strobe : (run calls start inputs (m + 3)).nios.ports.r = false := by
          rw [((run_phase fresh calls inputs (m + 3)).call before).r, reads, four]
          rfl
        have strobing := slow m (by omega) strobe four access
        have floats : (run calls start inputs (m + 1)).nios.ports.w = true := by
          rw [((run_phase fresh calls inputs (m + 1)).call index1).w, reads]
          rfl
        refine ⟨m + 1, by omega,
          read_over fresh address (fun k bound => unreset k (by omega)) call index0 strobing, ?_⟩
        calc (run calls start inputs (m + 4)).nios.temp =
              (run calls start inputs (m + 2)).bridge.fromSwDataIn :=
              temp_of_load before four reads access
          _ = (inputs (m + 1)).chipData := by
              rw [fromSwDataIn_of_released floats, unreset (m + 1) (by omega)]
              rfl

end Sampled

end Usb

namespace Console

theorem portAfter_stored (answers : Nat → Answer Request Reply) (n : Nat) :
    portAfter answers n = 0#8 ∨
      ∃ s, s < n ∧ Calls Driver.main Driver.start answers s (.keycode (portAfter answers n)) := by
  induction n with
  | zero => exact Or.inl rfl
  | succ n ih =>
      rw [portAfter]
      by_cases stores : ∃ value next, Interact.run Driver.main Driver.start answers n =
          .call (.keycode value) next
      · rcases stores with ⟨value, next, state⟩
        rw [state, keycodePort]
        exact Or.inr ⟨n, Nat.lt_succ_self n, next, state⟩
      · rw [keycodePort_kept]
        · rcases ih with none | ⟨s, earlier, stored⟩
          · exact Or.inl none
          · exact Or.inr ⟨s, Nat.lt_succ_of_lt earlier, stored⟩
        · intro value next state
          exact stores ⟨value, next, state⟩

end Console

namespace Machine

section Report

variable {board : Board} {toplevel : Toplevel} {usb : Usb} {inputs : Nat → MachineInput}

/-- When the step is made that reads a port, the value was on the bus while the chip was read over
this port, at the address of the protocol. -/
theorem read_sampled (fresh : usb.nios.AtPowerUp)
    (slow : Usb.Slow (fun k => (run board toplevel usb inputs k).usb)
      (usbInputs board toplevel usb inputs)) (address : BitVec 16) {m : Nat}
    (unreset : ∀ k, k < m → (run board toplevel usb inputs k).toplevel.game.resetH = false)
    (moves : (run board toplevel usb inputs m).advances (inputs m) = true) {port : BitVec 8}
    (reads : Calls Driver.main Driver.start (answers board toplevel usb inputs)
      (console board toplevel usb inputs m).steps (.hpi (.read port))) :
    ∃ k, k < m ∧
      Usb.ReadOver (fun k => (run board toplevel usb inputs k).usb) address (port.setWidth 2)
        (Driver.progressBefore (answers board toplevel usb inputs) address
          (console board toplevel usb inputs m).steps).address k ∧
      answers board toplevel usb inputs (console board toplevel usb inputs m).steps
        (.hpi (.read port)) = (inputs k).chipData := by
  rcases exists_calls (answers board toplevel usb inputs) with ⟨calls, areCalls⟩
  have aligned := run_aligned fresh areCalls m
  have bus : (fun k => (run board toplevel usb inputs k).usb) =
      Usb.run calls usb (usbInputs board toplevel usb inputs) :=
    funext fun k => (run_aligned fresh areCalls k).bus
  rcases reads with ⟨next, state⟩
  have found : hpiCall? (run board toplevel usb inputs m).software = some (.read port) := by
    rw [console_software, state]
    rfl
  have call := areCalls (console board toplevel usb inputs m).steps (.read port)
    (by rw [state]; rfl)
  have value := answers_now moves
  rw [advances, found] at moves
  simp only [Option.isNone_some, Bool.or_false, Bool.and_eq_true, beq_iff_eq, bne_iff_ne] at moves
  rcases moves with ⟨⟨-, begun⟩, last⟩
  rw [bus] at slow
  have index := aligned.begun begun
  rw [aligned.bus] at index last
  rcases Usb.sampled fresh slow address unreset call index (by omega) with
    ⟨k, earlier, aimed, word⟩
  rw [bus, ← Driver.address_calls areCalls]
  refine ⟨k, earlier, aimed, ?_⟩
  rw [value]
  change (run board toplevel usb inputs m).usb.nios.temp = _
  rw [aligned.bus, word]
  rfl

theorem read_fresh (fresh : usb.nios.AtPowerUp) {words : Nat → BitVec 16 → BitVec 16}
    {address : BitVec 16}
    (slow : Usb.Slow (fun k => (run board toplevel usb inputs k).usb)
      (usbInputs board toplevel usb inputs))
    (shows : Usb.Shows words address (fun k => (run board toplevel usb inputs k).usb)
      (usbInputs board toplevel usb inputs)) {m : Nat}
    (unreset : ∀ k, k < m → (run board toplevel usb inputs k).toplevel.game.resetH = false)
    (moves : (run board toplevel usb inputs m).advances (inputs m) = true)
    (reads : Calls Driver.main Driver.start (answers board toplevel usb inputs)
      (console board toplevel usb inputs m).steps (.hpi (.read hpiData))) :
    ∃ k, k < m ∧
      answers board toplevel usb inputs (console board toplevel usb inputs m).steps
          (.hpi (.read hpiData)) =
        words k (Driver.progressBefore (answers board toplevel usb inputs) address
          (console board toplevel usb inputs m).steps).address := by
  rcases read_sampled fresh slow address unreset moves reads with ⟨k, earlier, aimed, value⟩
  refine ⟨k, earlier, ?_⟩
  rw [value, ← aimed.register]
  exact shows k aimed.otgRdN aimed.otgCsN aimed.otgAddr

end Report

/-- Every key that the game gets has been the key of a report in the memory of the chip, as long as
there is no Reset, the processor is not too fast for the bridge, and the chip shows the words that
are read. -/
theorem keycode_was_reported (board : Board) (toplevel : Toplevel) (usb : Usb)
    (fresh : usb.nios.AtPowerUp) (inputs : Nat → MachineInput)
    (words : Nat → BitVec 16 → BitVec 16) (address : BitVec 16)
    (slow : Usb.Slow (fun k => (run board toplevel usb inputs k).usb)
      (usbInputs board toplevel usb inputs))
    (shows : Usb.Shows words address (fun k => (run board toplevel usb inputs k).usb)
      (usbInputs board toplevel usb inputs)) (n : Nat)
    (unreset : ∀ k, k < n → (run board toplevel usb inputs k).toplevel.game.resetH = false) :
    (run board toplevel usb inputs n).dataOut = 0#8 ∨
      ∃ k, k < n ∧ (run board toplevel usb inputs n).dataOut =
        Driver.lowByte (words k 0x051E#16) := by
  rw [run_dataOut]
  rcases Console.portAfter_stored (answers board toplevel usb inputs)
    (console board toplevel usb inputs n).steps with none | ⟨s, made, stored⟩
  · exact Or.inl none
  · right
    rcases Driver.exists_read_of_stored address stored with ⟨s, rfl, reads, place, value⟩
    rcases exists_moves (Nat.lt_of_succ_lt made) with ⟨m, earlier, moves, rfl⟩
    rcases read_fresh fresh slow shows (fun k bound => unreset k (bound.trans earlier)) moves
      reads with ⟨k, before, word⟩
    refine ⟨k, before.trans earlier, ?_⟩
    rw [value, word, place]

section Keyboard

/-- What a chip with a keyboard shows: the word that it answers the read on its pins with. -/
def keyboardData (report : BitVec 16) (machines : Nat → Machine) (n : Nat) : BitVec 16 :=
  Driver.keyboard report
    ((Usb.strobes (fun k => (machines k).usb) n).foldl Strobe.addressAfter 0#16)
    (.hpi (.read ((machines n).usb.bridge.otgAddr.setWidth 8)))

/-- Nobody presses `KEY[0]`, and the processor gets on in every fifth cycle. -/
def attach (report : BitVec 16) (machines : Nat → Machine) (n : Nat) : MachineInput :=
  ⟨true, decide (n % 5 = 0), keyboardData report machines n⟩

theorem attach_causal (report : BitVec 16) : Hdl.Causal (attach report) := by
  intro first second n same
  have strobes : Usb.strobes (fun k => (first k).usb) n = Usb.strobes (fun k => (second k).usb) n :=
    Usb.strobes_congr fun k past => congrArg Machine.usb (same k past)
  rw [attach, attach, keyboardData, keyboardData, strobes, same n (Nat.le_refl n)]

abbrev typingInputs : Nat → MachineInput :=
  Hdl.loopInputs (step emptyBoard) (powered steadyGame Usb.cleared) (attach 0x001A#16)

abbrev typing : Nat → Machine := run emptyBoard steadyGame Usb.cleared typingInputs

theorem typingInputs_eq (n : Nat) : typingInputs n = attach 0x001A#16 typing n :=
  Hdl.loopInputs_eq _ _ _ (attach_causal 0x001A#16) n

theorem typing_peaceful (n : Nat) : (typing n).toplevel.game.Peaceful := by
  induction n with
  | zero => exact ⟨rfl, rfl, rfl⟩
  | succ n ih => exact ih.step emptyBoard_unmarked _ _

theorem typing_running (n : Nat) : (typing n).toplevel.game.resetH = false := by
  cases n with
  | zero => rfl
  | succ n =>
      have next : (typing (n + 1)).toplevel.game.resetH =
          (!(typingInputs n).key0 || (typing n).toplevel.game.goomba.killMario) := rfl
      rw [next, typingInputs_eq, (typing_peaceful n).harmless]
      rfl

theorem typing_waits (n : Nat) (idle : n % 5 ≠ 0) :
    (typing (n + 1)).usb.nios.pc = (typing n).usb.nios.pc := by
  refine (run_waits n ?_).2
  rw [typingInputs_eq, accesses, attach, decide_eq_false idle]
  rfl

theorem typing_slow : Usb.Slow (fun k => (typing k).usb)
    (usbInputs emptyBoard steadyGame Usb.cleared typingInputs) := by
  intro n _ _ four access
  have turn : (n + 3) % 5 = 0 := by
    change (typing (n + 3)).accesses (typingInputs (n + 3)) = true at access
    rw [typingInputs_eq, accesses, attach] at access
    simp only [Bool.and_eq_true, decide_eq_true_eq] at access
    exact access.1
  rw [← four]
  change (typing n).usb.nios.pc = (typing (n + 3)).usb.nios.pc
  rw [typing_waits (n + 2) (by omega), typing_waits (n + 1) (by omega),
    typing_waits n (by omega)]

theorem typing_shows : Usb.Shows
    (fun _ place => Driver.keyboard 0x001A#16 place (.hpi (.read hpiData))) 0#16
    (fun k => (typing k).usb) (usbInputs emptyBoard steadyGame Usb.cleared typingInputs) := by
  intro n _ _ data
  change (typing n).usb.bridge.otgAddr = 0#2 at data
  change (typingInputs n).chipData = _
  rw [typingInputs_eq, attach, keyboardData, data]
  rfl

/-- What the program reads while W is held. -/
noncomputable abbrev typingAnswers : Nat → Answer Request Reply :=
  answers emptyBoard steadyGame Usb.cleared typingInputs

theorem typing_proceeds (m : Nat) : ∃ n, m ≤ n ∧ (typingInputs n).proceeds = true := by
  refine ⟨5 * m, by omega, ?_⟩
  rw [typingInputs_eq, attach, Nat.mul_mod_right]
  rfl

theorem typing_step (s : Nat) : ∃ n, (typing n).advances (typingInputs n) = true ∧
    (console emptyBoard steadyGame Usb.cleared typingInputs n).steps = s :=
  exists_step ⟨rfl, rfl⟩ typing_proceeds s

theorem typing_attends (s : Nat) (port : BitVec 8)
    (calls : Calls Driver.main Driver.start typingAnswers s (.hpi (.read port))) :
    typingAnswers s (.hpi (.read port)) = Driver.keyboard 0x001A#16
      (Driver.watchBefore typingAnswers ⟨0#16, 0#16, 0⟩ s).address (.hpi (.read port)) := by
  rcases typing_step s with ⟨m, moves, rfl⟩
  rcases read_sampled ⟨rfl, rfl⟩ typing_slow 0#16 (fun k _ => typing_running k) moves calls with
    ⟨k, -, aimed, value⟩
  have narrow : (port.setWidth 2).setWidth 8 = port := by
    rcases Driver.allowed_whole typingAnswers 0#16 calls with rfl | rfl | ⟨rfl, _⟩
    · rfl
    · rfl
    · rfl
  have pins : (typing k).usb.bridge.otgAddr = port.setWidth 2 := aimed.otgAddr
  refine value.trans ?_
  rw [typingInputs_eq, attach, keyboardData, aimed.register, pins, narrow,
    Driver.watchBefore_address]

theorem typing_stores {s : Nat} {value : BitVec 8}
    (stores : Calls Driver.main Driver.start typingAnswers s (.keycode value)) :
    value = 0x1A#8 := by
  rcases Driver.exists_read_of_stored 0#16 stores with ⟨k, rfl, reads, place, rfl⟩
  rw [typing_attends k hpiData reads, Driver.watchBefore_address, place]
  decide

theorem typing_arrives : ∃ n, (typing n).dataOut = 0x1A#8 := by
  rcases Driver.stores_after (Driver.cooperative_of_keyboard typing_attends) 0 with
    ⟨s, -, value, stores⟩
  have stored := typing_stores stores
  rcases typing_step (s + 1) with ⟨n, -, reached⟩
  rcases stores with ⟨next, state⟩
  refine ⟨n, ?_⟩
  calc (typing n).dataOut = Console.portAfter typingAnswers (s + 1) := by
        rw [← reached]
        exact run_dataOut ..
    _ = 0x1A#8 := by rw [Console.portAfter, state, keycodePort, stored]

end Keyboard

/-- W held on the keyboard comes to the game by way of the pins. -/
theorem keycode_was_reported_typing : ∃ n, (typing n).dataOut = 0x1A#8 ∧
    ((typing n).dataOut = 0#8 ∨ ∃ k, k < n ∧ (typing n).dataOut =
      Driver.lowByte (Driver.keyboard 0x001A#16 0x051E#16 (.hpi (.read hpiData)))) := by
  rcases typing_arrives with ⟨n, arrived⟩
  refine ⟨n, arrived, ?_⟩
  apply keycode_was_reported emptyBoard steadyGame Usb.cleared ⟨rfl, rfl⟩ typingInputs
    (fun _ place => Driver.keyboard 0x001A#16 place (.hpi (.read hpiData))) 0#16 typing_slow
    typing_shows n
  exact fun k _ => typing_running k

end Machine

end FPGAMario
