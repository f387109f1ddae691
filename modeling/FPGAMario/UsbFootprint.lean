import FPGAMario.UsbKeyboard

/-! Which registers and which memory of the EZ-OTG chip the software touches. -/

namespace FPGAMario

open Interact

def addressAfter (address : BitVec 16) : Request → BitVec 16
  | .hpi (.write port data) =>
      if port = hpiAddr then data else if port = hpiData then address + 2#16 else address
  | .hpi (.read port) => if port = hpiData then address + 2#16 else address
  | .keycode _ => address

theorem Chip.call_address (c : Chip) (call : Call) :
    (c.call call).address = addressAfter c.address (.hpi call) := by
  cases call with
  | write port data =>
      simp only [Chip.call, addressAfter]
      split
      · rfl
      · split <;> rfl
  | read port =>
      simp only [Chip.call, addressAfter]
      split <;> rfl

theorem word_succ (address : BitVec 16) (i : Nat) :
    address + 2#16 + 2#16 * BitVec.ofNat 16 i = address + 2#16 * BitVec.ofNat 16 (i + 1) := by
  rw [BitVec.ofNat_add, BitVec.mul_add, BitVec.add_comm (2#16 * _), BitVec.add_assoc]
  rfl

namespace Driver

/-- Words that may be written and read over the data port, words for the mailbox, and whether there
may be stores to the keycode port. -/
structure Footprint where
  writes : BitVec 16 → Prop
  reads : BitVec 16 → Prop
  mailbox : BitVec 16 → Prop
  keycode : Prop

namespace Footprint

def observer (f : Footprint) : Observer Request Reply (BitVec 16) where
  allows address request :=
    match request with
    | .hpi (.write port data) =>
        port = hpiAddr ∨ port = hpiMailbox ∧ f.mailbox data ∨ port = hpiData ∧ f.writes address
    | .hpi (.read port) =>
        port = hpiStatus ∨ port = hpiMailbox ∨ port = hpiData ∧ f.reads address
    | .keycode _ => f.keycode
  expects _ _ _ := True
  see address request _ := addressAfter address request

def Holds (f : Footprint) {Value : Type} (p : Driver Value) : Prop :=
  ∀ address, p.wp f.observer (fun _ _ => True) address

section Rules

variable {f : Footprint} {Value Result : Type}

theorem holds_pure (value : Value) : f.Holds (pure value) := fun _ => trivial

theorem Holds.bind {p : Driver Result} {q : Result → Driver Value} (first : f.Holds p)
    (rest : ∀ result, f.Holds (q result)) : f.Holds (p >>= q) := by
  intro address
  rw [Program.wp_bind]
  exact Program.wp_mono (first address) (fun result later _ => rest result later)

theorem Holds.ite {c : Prop} [Decidable c] {p q : Driver Value} (yes : f.Holds p)
    (no : f.Holds q) : f.Holds (if c then p else q) := by
  split
  · exact yes
  · exact no

theorem holds_usbWrite {address : BitVec 16} (data : BitVec 16) (writes : f.writes address) :
    f.Holds (usbWrite address data) := by
  intro before
  exact ⟨Or.inl rfl, fun _ _ => ⟨Or.inr (Or.inr ⟨rfl, writes⟩), fun _ _ => trivial⟩⟩

theorem holds_usbRead {address : BitVec 16} (reads : f.reads address) :
    f.Holds (usbRead address) := by
  intro before
  exact ⟨Or.inl rfl, fun _ _ => ⟨Or.inr (Or.inr ⟨rfl, reads⟩), fun _ _ => trivial⟩⟩

theorem holds_mailbox {data : BitVec 16} (mailbox : f.mailbox data) :
    f.Holds (ioWrite hpiMailbox data) := by
  intro before
  exact ⟨Or.inr (Or.inl ⟨rfl, mailbox⟩), fun _ _ => trivial⟩

theorem holds_ioRead {port : BitVec 8} (status : port = hpiStatus ∨ port = hpiMailbox) :
    f.Holds (ioRead port) := by
  intro before
  exact ⟨status.imp id Or.inl, fun _ _ => trivial⟩

theorem holds_findDevice (reads : f.reads usb1CtlReg) (count : Nat) (usbCtlVal : BitVec 16) :
    f.Holds (findDevice count usbCtlVal) := by
  induction count generalizing usbCtlVal with
  | zero => exact holds_pure usbCtlVal
  | succ count ih =>
      apply Holds.bind (holds_usbRead reads)
      exact fun found => .ite (holds_pure found) (ih found)

theorem holds_lookForDevice (reads : f.reads usb1CtlReg) (count : Nat) :
    f.Holds (lookForDevice count) := by
  apply Holds.bind (holds_usbRead reads)
  intro found
  apply Holds.ite (holds_pure true)
  exact .bind (holds_findDevice reads count found) (fun _ => holds_pure _)

theorem holds_readRetryCnt (reads : f.reads 0x0508#16) : f.Holds readRetryCnt :=
  .bind (holds_usbRead reads) fun _ => holds_pure ()

theorem holds_readMessageFlag : f.Holds readMessageFlag :=
  .bind (holds_ioRead (Or.inl rfl)) (fun _ => holds_pure _)

theorem holds_enterRetryCnt (writes : f.writes hpiSie1MsgAdr) (reads : f.reads hpiSie1MsgAdr) :
    f.Holds enterRetryCnt := by
  refine .bind (holds_ioRead (Or.inl rfl)) fun _ => ?_
  refine .bind (holds_usbRead reads) fun message => ?_
  apply Holds.ite
  · exact .bind (holds_usbWrite _ writes) fun _ => holds_pure true
  · exact holds_pure false

theorem Holds.mono {g : Footprint} {p : Driver Value} (holds : f.Holds p)
    (included : ∀ address request, f.observer.allows address request →
      g.observer.allows address request) : g.Holds p := by
  intro address
  apply Program.wp_mono (Program.wp_simulate Eq ?_ (holds address) rfl) (fun _ _ _ => trivial)
  rintro seen _ rfl request allowed
  exact ⟨included seen request allowed, fun _ _ => ⟨trivial, rfl⟩⟩

theorem wp_writeWords (words : List (BitVec 16)) (address : BitVec 16)
    (writes : ∀ i, i < words.length → f.writes (address + 2#16 * BitVec.ofNat 16 i)) :
    (writeWords words).wp f.observer (fun _ _ => True) address := by
  induction words generalizing address with
  | nil => exact trivial
  | cons word words ih =>
      have here := writes 0 (Nat.zero_lt_succ _)
      rw [writeWords, Program.wp_bind]
      refine ⟨Or.inr (Or.inr ⟨rfl, ?_⟩), ?_⟩
      · simpa using here
      · intro _ _
        apply ih
        intro i bound
        have later := writes (i + 1) (Nat.succ_lt_succ bound)
        change f.writes (address + 2#16 + 2#16 * BitVec.ofNat 16 i)
        rw [word_succ]
        exact later

end Rules

def registers : List (BitVec 16) :=
  [hpiSie1MsgAdr, hpiSie2MsgAdr, host1StatReg, host2StatReg, husbPEOT, hpiIrqRoutingReg,
    host1IrqEnReg, commIntNum] ++ (List.range 14).map commR

def housekeeping : Footprint where
  writes address := address ∈ registers
  reads address := address = hpiSie1MsgAdr ∨ address = hpiSie2MsgAdr ∨ address = usb1CtlReg
  mailbox word := word = commExecInt
  keycode := False

def looks : Footprint where
  writes _ := False
  reads address := address = usb1CtlReg
  mailbox _ := False
  keycode := False

def failure : Footprint where
  writes address := address = hpiSie1MsgAdr
  reads address := address = hpiSie1MsgAdr ∨ address = 0x0508#16
  mailbox _ := False
  keycode := False

def whole : Footprint where
  writes address := address ∈ husbSie1PCurrentTDPtr :: registers ∨
    0x0500#16 ≤ address ∧ address < 0x0580#16
  reads address := address ∈ [hpiSie1MsgAdr, hpiSie2MsgAdr, usb1CtlReg, 0x0506#16, 0x0508#16,
    0x051E#16, 0x056C#16, 0x057C#16]
  mailbox word := word = commReset ∨ word = commExecInt
  keycode := True

theorem Holds.whole {Value : Type} {p : Driver Value} (holds : housekeeping.Holds p) :
    whole.Holds p := by
  apply holds.mono
  intro address request allowed
  cases request with
  | keycode value => exact trivial
  | hpi call =>
      cases call with
      | write port data =>
          rcases allowed with aims | ⟨mailbox, command⟩ | ⟨data, register⟩
          · exact Or.inl aims
          · exact Or.inr (Or.inl ⟨mailbox, Or.inr command⟩)
          · exact Or.inr (Or.inr ⟨data, Or.inl (List.mem_cons_of_mem _ register)⟩)
      | read port =>
          rcases allowed with status | mailbox | ⟨data, register⟩
          · exact Or.inl status
          · exact Or.inr (Or.inl mailbox)
          · refine Or.inr (Or.inr ⟨data, ?_⟩)
            change address ∈ _
            rcases register with rfl | rfl | rfl
            · decide
            · decide
            · decide

section Housekeeping

theorem holds_register {address : BitVec 16} (data : BitVec 16) (member : address ∈ registers) :
    housekeeping.Holds (usbWrite address data) := holds_usbWrite data member

theorem holds_clearCommR (numbers : List Nat) (few : ∀ i ∈ numbers, i < 14) :
    housekeeping.Holds (clearCommR numbers) := by
  induction numbers with
  | nil => exact holds_pure ()
  | cons i rest ih =>
      have bound := few i List.mem_cons_self
      have register : commR i ∈ registers :=
        List.mem_append_right _ (List.mem_map_of_mem (List.mem_range.mpr bound))
      apply Holds.bind (holds_register _ register)
      exact fun _ => ih (fun j member => few j (List.mem_cons_of_mem i member))

theorem holds_clearUpInterrupt : housekeeping.Holds clearUpInterrupt := by
  refine .bind (holds_ioRead (Or.inr rfl)) fun _ => ?_
  refine .bind (holds_ioRead (Or.inl rfl)) fun _ => ?_
  refine .bind (holds_usbRead (Or.inl rfl)) fun _ => ?_
  refine .bind (holds_register _ (by decide)) fun _ => ?_
  refine .bind (holds_usbRead (Or.inr (Or.inl rfl))) fun _ => ?_
  refine .bind (holds_register _ (by decide)) fun _ => ?_
  refine .bind (holds_register _ (by decide)) fun _ => ?_
  exact holds_register _ (by decide)

theorem holds_initSie1 : housekeeping.Holds initSie1 := by
  have cleared := holds_clearCommR (List.range 14) (fun i => List.mem_range.mp)
  refine .bind (holds_register _ (by decide)) fun _ => ?_
  refine .bind (holds_register _ (by decide)) fun _ => ?_
  refine .bind (holds_register _ (by decide)) fun _ => ?_
  refine .bind (holds_register _ (by decide)) fun _ => ?_
  refine .bind (holds_register _ (by decide)) fun _ => ?_
  refine .bind cleared fun _ => ?_
  refine .bind (holds_register _ (by decide)) fun _ => ?_
  exact holds_mailbox rfl

theorem holds_resetHusb : housekeeping.Holds resetHusb := by
  have cleared := holds_clearCommR ((List.range 14).drop 1)
    (fun i member => List.mem_range.mp (List.mem_of_mem_drop member))
  refine .bind (holds_register _ (by decide)) fun _ => ?_
  refine .bind (holds_register _ (by decide)) fun _ => ?_
  refine .bind cleared fun _ => ?_
  exact holds_mailbox rfl

theorem holds_readAck : housekeeping.Holds readAck := by
  apply Holds.bind (holds_ioRead (Or.inr rfl))
  intro mailbox
  apply Holds.ite (holds_pure true)
  exact .bind (holds_ioRead (Or.inr rfl)) (fun _ => holds_pure false)

end Housekeeping

section Whole

theorem holds_usbSoftReset : whole.Holds usbSoftReset :=
  .bind (holds_mailbox (Or.inl rfl)) fun _ => holds_clearUpInterrupt.whole

theorem holds_pointer (data : BitVec 16) : whole.Holds (usbWrite husbSie1PCurrentTDPtr data) :=
  holds_usbWrite data (Or.inl List.mem_cons_self)

theorem holds_words (address : BitVec 16) (words : List (BitVec 16))
    (above : 0x0500 ≤ address.toNat) (fits : address.toNat + 2 * words.length ≤ 0x0580)
    {Value : Type} {p : Driver Value} (rest : whole.Holds p) :
    whole.Holds (do ioWrite hpiAddr address; writeWords words; p) := by
  have places (i : Nat) (bound : i < words.length) :
      whole.writes (address + 2#16 * BitVec.ofNat 16 i) := by
    right
    bv_omega
  intro before
  refine ⟨Or.inl rfl, ?_⟩
  intro _ _
  change Program.wp whole.observer (writeWords words >>= fun _ => p) _ address
  rw [Program.wp_bind]
  exact Program.wp_mono (wp_writeWords words address places) (fun _ after _ => rest after)

theorem holds_sendList (words : List (BitVec 16)) (fits : words.length ≤ 64) :
    whole.Holds (sendList words) :=
  holds_words listAddress words (by decide) (by change 0x0500 + _ ≤ _; omega)
    (holds_pointer listAddress)

theorem holds_send (stage : Stage) : whole.Holds stage.send := by
  rw [Stage.send_eq]
  apply holds_sendList
  cases stage <;> decide

theorem holds_sendPoll (toggle dataSize : BitVec 8) : whole.Holds (sendPoll toggle dataSize) :=
  holds_sendList _ (by simp [pollList])

theorem holds_readTdListDone : whole.Holds readTdListDone := by
  refine .bind (holds_usbRead (by simp [whole])) fun _ => ?_
  exact .bind (holds_register _ (by decide)).whole fun _ => holds_pure _

theorem holds_readControlByte : whole.Holds readControlByte :=
  .bind (holds_usbRead (by simp [whole])) fun _ => holds_usbRead (by simp [whole])

theorem holds_getDeviceInfo : whole.Holds getDeviceInfo := by
  refine .bind (holds_usbRead (by simp [whole])) fun _ => ?_
  apply holds_words 0x0576#16 _ (by decide) (by decide)
  refine .bind (holds_pointer _) fun _ => ?_
  exact .bind (holds_usbRead (by simp [whole])) fun _ => holds_pure _

theorem holds_keycode (value : BitVec 8) :
    whole.Holds (Program.perform (Request.keycode value)) := fun _ => ⟨trivial, fun _ _ => trivial⟩

theorem holds_main (label : Label) : whole.Holds (main label) := by
  rcases label with ⟨place, toggle, dataSize⟩
  cases place with
  | usbHotPlug =>
      refine .bind holds_usbSoftReset fun _ => ?_
      exact .bind holds_initSie1.whole fun _ => holds_pure _
  | statusLoop =>
      refine .bind (holds_ioRead (Or.inl rfl)) fun status => ?_
      apply Holds.ite (holds_pure _)
      refine .bind holds_readAck.whole fun acknowledged => ?_
      apply Holds.ite (holds_pure _)
      refine .bind holds_resetHusb.whole fun _ => ?_
      refine .bind holds_readAck.whole fun acknowledged => ?_
      apply Holds.ite (holds_pure _)
      exact .bind (holds_lookForDevice (by simp [whole]) 5) fun found => holds_pure _
  | noDeviceLoop => exact .bind (holds_usbRead (by simp [whole])) fun usbCtlVal => holds_pure _
  | send stage => exact .bind (holds_send stage) fun _ => holds_pure _
  | messageLoop stage =>
      refine .bind holds_readMessageFlag fun flag => ?_
      apply Holds.ite (holds_pure _)
      exact .bind (holds_send stage) fun _ => holds_pure _
  | tdListLoop stage =>
      refine .bind holds_readTdListDone fun done => ?_
      apply Holds.ite (holds_pure _)
      refine .bind holds_readControlByte fun usbCtlVal => ?_
      apply Holds.ite
      · refine .bind (holds_enterRetryCnt (by simp [whole, registers]) (by simp [whole])) fun waits => ?_
        apply Holds.ite (holds_pure _)
        exact .bind (holds_readRetryCnt (by simp [whole])) fun _ => holds_pure _
      · cases stage with
        | getConfigDesc2 => exact .bind holds_getDeviceInfo fun dataSize => holds_pure _
        | _ => exact holds_pure _
  | retryLoop =>
      refine .bind holds_readMessageFlag fun flag => ?_
      apply Holds.ite
      · exact .bind (holds_readRetryCnt (by simp [whole])) fun _ => holds_pure _
      · exact holds_pure _
  | poll => exact .bind (holds_sendPoll _ _) fun _ => holds_pure _
  | pollMessageLoop =>
      refine .bind holds_readMessageFlag fun flag => ?_
      apply Holds.ite (holds_pure _)
      exact .bind (holds_sendPoll _ _) fun _ => holds_pure _
  | pollTdListLoop =>
      refine .bind holds_readTdListDone fun done => ?_
      apply Holds.ite (holds_pure _)
      refine .bind (holds_usbRead (by simp [whole])) fun keycode => ?_
      refine .bind (holds_keycode _) fun _ => ?_
      exact .bind (holds_lookForDevice (by simp [whole]) 7) fun found => holds_pure _
  | removedLoop =>
      refine .bind (holds_usbRead (by simp [whole])) fun _ => ?_
      refine .bind (holds_usbRead (by simp [whole])) fun _ => ?_
      exact .bind (holds_usbRead (by simp [whole])) fun usbCtlVal => holds_pure _

end Whole

end Footprint

/-- The chip writes one of its own words, or the software makes a step; what comes over the other
ports is up to the chip. -/
inductive Turn
  | chip (address data : BitVec 16)
  | software (other : BitVec 16)
  deriving DecidableEq, Repr

structure Attached where
  chip : Chip
  software : Driver Label

namespace Attached

def answer (chip : Chip) (other : BitVec 16) : Answer Request Reply
  | .hpi (.read port) => if port = hpiData then chip.memory chip.address else other
  | .hpi (.write _ _) => ()
  | .keycode _ => ()

def touch (software : Driver Label) (chip : Chip) : Chip :=
  match software with
  | .call (.hpi call) _ => chip.call call
  | _ => chip

def step (turn : Turn) (s : Attached) : Attached :=
  match turn with
  | .chip address data => { s with chip := s.chip.store address data }
  | .software other =>
      ⟨touch s.software s.chip, Interact.step main (answer s.chip other) s.software⟩

/-- The same turn with nothing at the port. -/
def alone (turn : Turn) (chip : Chip) : Chip :=
  match turn with
  | .chip address data => chip.store address data
  | .software _ => chip

open Footprint

structure Confined (s : Attached) (chip : Chip) : Prop where
  keeps : s.software.wp whole.observer (fun _ _ => True) s.chip.address
  memory : ∀ address, ¬ whole.writes address → s.chip.memory address = chip.memory address

section Steps

variable {s : Attached} {chip : Chip} {call : Call} {next : Reply (.hpi call) → Driver Label}

theorem call_memory (c : Chip) (allowed : whole.observer.allows c.address (.hpi call))
    {address : BitVec 16} (outside : ¬ whole.writes address) :
    (c.call call).memory address = c.memory address := by
  cases call with
  | read port =>
      rw [Chip.call]
      split <;> rfl
  | write port data =>
      rw [Chip.call]
      split
      case isTrue => rfl
      case isFalse other =>
        split
        case isFalse => rfl
        case isTrue transfer =>
          rcases allowed with aims | ⟨mailbox, _⟩ | ⟨_, writes⟩
          · exact absurd aims other
          · rw [transfer] at mailbox
            exact absurd mailbox (by decide)
          · have different : address ≠ c.address := fun same => outside (same ▸ writes)
            exact if_neg different

theorem Confined.allows (confined : s.Confined chip) (state : s.software = .call (.hpi call) next) :
    whole.observer.allows s.chip.address (.hpi call) := by
  have keeps := confined.keeps
  rw [state] at keeps
  exact keeps.1

theorem Confined.step (confined : s.Confined chip) (turn : Turn) :
    (s.step turn).Confined (alone turn chip) := by
  cases turn with
  | chip place data =>
      refine ⟨confined.keeps, ?_⟩
      intro address outside
      change (if _ then _ else _) = if _ then _ else _
      rw [confined.memory address outside]
  | software other =>
      have keeps := confined.keeps
      cases state : s.software with
      | done label =>
          rw [state] at keeps
          simp only [Attached.step, alone, state]
          exact ⟨holds_main label s.chip.address, confined.memory⟩
      | call request next =>
          rw [state] at keeps
          have rest := keeps.2 (answer s.chip other request) trivial
          simp only [Attached.step, alone, state]
          cases request with
          | keycode value => exact ⟨rest, confined.memory⟩
          | hpi call =>
              have address : (s.chip.call call).address =
                  whole.observer.see s.chip.address (.hpi call) (answer s.chip other (.hpi call)) :=
                s.chip.call_address call
              constructor
              · change ((next _).wp _ _ (s.chip.call call).address)
                rw [address]
                exact rest
              · intro place outside
                calc (s.chip.call call).memory place = s.chip.memory place :=
                      call_memory s.chip keeps.1 outside
                  _ = chip.memory place := confined.memory place outside

end Steps

theorem run_confined (chip : Chip) (turns : Nat → Turn) (n : Nat) :
    (Hdl.run step ⟨chip, .done start⟩ turns n).Confined (Hdl.run alone chip turns n) := by
  induction n with
  | zero => exact ⟨trivial, fun _ _ => rfl⟩
  | succ n ih =>
      rw [Hdl.run_succ, Hdl.run_succ]
      exact ih.step (turns n)

/-- However the software and the chip take turns: outside the list memory and the named registers
the chip finds the words it would find with nothing at its port; over the data port the software
reads only the words listed here, and it gives only two commands. -/
theorem words_undisturbed (chip : Chip) (turns : Nat → Turn) (n : Nat) :
    (∀ address, address ∉ husbSie1PCurrentTDPtr :: registers →
      address < 0x0500#16 ∨ 0x0580#16 ≤ address →
        (Hdl.run step ⟨chip, .done start⟩ turns n).chip.memory address =
          (Hdl.run alone chip turns n).memory address) ∧
      ∀ call next, (Hdl.run step ⟨chip, .done start⟩ turns n).software = .call (.hpi call) next →
        match call with
        | .write port data => port = hpiMailbox → data = commReset ∨ data = commExecInt
        | .read port => port = hpiData →
            (Hdl.run step ⟨chip, .done start⟩ turns n).chip.address ∈
              [hpiSie1MsgAdr, hpiSie2MsgAdr, usb1CtlReg, 0x0506#16, 0x0508#16, 0x051E#16,
                0x056C#16, 0x057C#16] := by
  have confined := run_confined chip turns n
  constructor
  · intro address register apart
    apply confined.memory address
    rintro (member | ⟨above, below⟩)
    · exact register member
    · bv_omega
  · intro call next state
    have allowed := confined.allows state
    cases call with
    | write port data =>
        rintro rfl
        rcases allowed with aims | ⟨-, command⟩ | ⟨transfer, -⟩
        · exact absurd aims (by decide)
        · exact command
        · exact absurd transfer (by decide)
    | read port =>
        rintro rfl
        rcases allowed with status | mailbox | ⟨-, reads⟩
        · exact absurd status (by decide)
        · exact absurd mailbox (by decide)
        · exact reads

end Attached

end Driver

end FPGAMario
