import FPGAMario.UsbFootprint

/-! The order of things on the USB side, as an observer of the calls: transfers one after the other,
polls only after all of them, and every report to the keycode port at once. -/

namespace FPGAMario

open Interact

namespace Driver

/-- How far the transfers have come since the last soft reset. A list that was sent may be sent
again once the status register was read without the flag. -/
inductive Phase
  | ready (stage : Stage)
  | sent (stage : Stage) (again : Bool)
  | flagged (stage : Stage)
  | ended (stage : Stage)
  | failed
  | idle
  | polled (again : Bool)
  | answering
  | answered
  | reported (report : BitVec 16)
  deriving DecidableEq, Repr

namespace Phase

def after (stage : Stage) : Phase :=
  match stage.next with
  | some next => ready next
  | none => idle

def started : Phase → Phase
  | ready stage => sent stage false
  | sent stage _ => sent stage false
  | idle => polled false
  | polled _ => polled false
  | other => other

def status (phase : Phase) (flag : Bool) : Phase :=
  match phase with
  | sent stage _ => if flag then flagged stage else sent stage true
  | polled _ => if flag then answering else polled true
  | other => other

def read (phase : Phase) (address word : BitVec 16) : Phase :=
  match phase with
  | flagged stage =>
      if address = hpiSie1MsgAdr ∧ word = husbTDListDone then ended stage else phase
  | answering => if address = hpiSie1MsgAdr ∧ word = husbTDListDone then answered else phase
  | ended stage =>
      if address = 0x0508#16 then (if word = 0x0003#16 then after stage else failed) else phase
  | answered => if address = 0x051E#16 then reported word else phase
  | other => other

/-- The chip may be reset: before the first transfer, after a failed one, or between two polls. -/
def Resettable (phase : Phase) : Prop := phase = ready .setAddress ∨ phase = failed ∨ phase = idle

def Unreported (phase : Phase) : Prop := ∀ report, phase ≠ reported report

end Phase

/-- What the calls tell: the address register, the words written since the last start of a list,
the phase, how many keycodes were stored, and the packet size read since the last reset. -/
structure Progress where
  address : BitVec 16
  words : BitVec 16 → Option (BitVec 16)
  phase : Phase
  stored : Nat
  size : Option (BitVec 8)

namespace Progress

/-- The chip finds the list at its place, written since the last start. -/
def Carries (p : Progress) (list : List (BitVec 16)) : Prop :=
  ∀ i, (bound : i < list.length) →
    p.words (listAddress + 2#16 * BitVec.ofNat 16 i) = some (list.get ⟨i, bound⟩)

/-- The list that may be started now. The polls count with the keycodes. -/
def Due (p : Progress) (list : List (BitVec 16)) : Prop :=
  match p.phase with
  | .ready stage | .sent stage true => list = stage.list
  | .idle | .polled true =>
      ∃ size, p.size = some size ∧ list = pollList (BitVec.ofNat 8 (p.stored + 1)) size
  | _ => False

def write (data : BitVec 16) (p : Progress) : Progress :=
  if p.address = husbSie1PCurrentTDPtr then
    { p with
      address := p.address + 2#16
      words := fun _ => none
      phase := if data = listAddress then p.phase.started else p.phase }
  else
    { p with
      address := p.address + 2#16
      words := fun a => if a = p.address then some data else p.words a }

def read (word : BitVec 16) (p : Progress) : Progress :=
  { p with
    address := p.address + 2#16
    phase := p.phase.read p.address word
    size := if p.address = 0x057C#16 then some (lowByte word) else p.size }

def see (p : Progress) : (request : Request) → Reply request → Progress
  | .hpi (.write port data), _ =>
      if port = hpiAddr then { p with address := data }
      else if port = hpiData then p.write data
      else if port = hpiMailbox ∧ data = commReset then
        { p with phase := .ready .setAddress, size := none }
      else p
  | .hpi (.read port), word =>
      if port = hpiData then p.read word
      else if port = hpiStatus then
        { p with phase := p.phase.status (decide (word &&& hpiStatusSie1msgFlag ≠ 0#16)) }
      else p
  | .keycode _, _ => { p with phase := .idle, stored := p.stored + 1 }

theorem see_address (p : Progress) (request : Request) (reply : Reply request) :
    (p.see request reply).address = addressAfter p.address request := by
  cases request with
  | keycode value => rfl
  | hpi call =>
      cases call with
      | read port =>
          simp only [see, addressAfter]
          split
          · rfl
          · split <;> rfl
      | write port data =>
          simp only [see, addressAfter]
          split
          · rfl
          · split
            · rw [write]
              split <;> rfl
            · split <;> rfl

def Allows (p : Progress) (request : Request) : Prop :=
  (∀ report, p.phase = .reported report → request = .keycode (lowByte report)) ∧
  match request with
  | .keycode _ => ∃ report, p.phase = .reported report
  | .hpi (.write port data) =>
      port = hpiAddr ∨
      port = hpiMailbox ∧ (data = commReset ∧ p.phase.Resettable ∨
        data = commExecInt ∧ p.phase = .ready .setAddress) ∨
      port = hpiData ∧ (p.address = husbSie1PCurrentTDPtr →
        data = listAddress ∧ (∃ list, p.Due list ∧ p.Carries list) ∨
        data = 0x0576#16 ∧ p.phase = .ready .setConfig)
  | .hpi (.read port) =>
      port = hpiStatus ∨ port = hpiMailbox ∨
        port = hpiData ∧ (p.address = 0x051E#16 → p.phase = .answered)

end Progress

def protocol : Observer Request Reply Progress where
  allows := Progress.Allows
  expects _ _ _ := True
  see := Progress.see

section Rules

variable {p : Progress} {Value : Type}

theorem wp_aim {address : BitVec 16} {post : Unit → Progress → Prop}
    (unreported : p.phase.Unreported) (holds : post () { p with address }) :
    (ioWrite hpiAddr address).wp protocol post p :=
  ⟨⟨fun report now => absurd now (unreported report), Or.inl rfl⟩, fun _ _ => holds⟩

theorem wp_word {data : BitVec 16} {post : Unit → Progress → Prop}
    (unreported : p.phase.Unreported) (word : p.address ≠ husbSie1PCurrentTDPtr)
    (holds : post () (p.write data)) : (ioWrite hpiData data).wp protocol post p := by
  have allowed : p.Allows (.hpi (.write hpiData data)) :=
    ⟨fun report now => absurd now (unreported report),
      Or.inr (Or.inr ⟨rfl, fun start => absurd start word⟩)⟩
  exact ⟨allowed, fun _ _ => holds⟩

theorem wp_mailbox {data : BitVec 16} {post : Unit → Progress → Prop}
    (unreported : p.phase.Unreported)
    (allowed : data = commReset ∧ p.phase.Resettable ∨
      data = commExecInt ∧ p.phase = .ready .setAddress)
    (holds : post () (p.see (.hpi (.write hpiMailbox data)) ())) :
    (ioWrite hpiMailbox data).wp protocol post p :=
  ⟨⟨fun report now => absurd now (unreported report), Or.inr (Or.inl ⟨rfl, allowed⟩)⟩,
    fun _ _ => holds⟩

theorem wp_usbWrite {address data : BitVec 16} {post : Unit → Progress → Prop}
    (unreported : p.phase.Unreported) (word : address ≠ husbSie1PCurrentTDPtr)
    (holds : post () (Progress.write data { p with address })) :
    (usbWrite address data).wp protocol post p := by
  rw [usbWrite, Program.wp_bind]
  apply wp_aim unreported
  exact wp_word unreported word holds

theorem wp_usbRead {address : BitVec 16} {post : BitVec 16 → Progress → Prop}
    (unreported : p.phase.Unreported) (report : address = 0x051E#16 → p.phase = .answered)
    (holds : ∀ word, post word (Progress.read word { p with address })) :
    (usbRead address).wp protocol post p := by
  rw [usbRead, Program.wp_bind]
  apply wp_aim unreported
  exact ⟨⟨fun report now => absurd now (unreported report), Or.inr (Or.inr ⟨rfl, report⟩)⟩,
    fun word _ => holds word⟩

theorem wp_readMessageFlag {post : Bool → Progress → Prop} (unreported : p.phase.Unreported)
    (holds : ∀ flag, post flag { p with phase := p.phase.status flag }) :
    readMessageFlag.wp protocol post p := by
  rw [readMessageFlag, Program.wp_bind]
  refine ⟨⟨fun report now => absurd now (unreported report), Or.inl rfl⟩, ?_⟩
  intro status _
  exact holds (decide (status &&& hpiStatusSie1msgFlag ≠ 0#16))

structure Progress.At (phase : Phase) (stored : Nat) (size : Option (BitVec 8)) (p : Progress) :
    Prop where
  phase : p.phase = phase
  stored : p.stored = stored
  size : p.size = size

structure Progress.Filled (p after : Progress) (list : List (BitVec 16)) : Prop
    extends after.At p.phase p.stored p.size where
  words : ∀ i, (bound : i < list.length) →
    after.words (p.address + 2#16 * BitVec.ofNat 16 i) = some (list.get ⟨i, bound⟩)
  others : ∀ a, (∀ i, i < list.length → a ≠ p.address + 2#16 * BitVec.ofNat 16 i) →
    after.words a = p.words a

theorem Progress.write_word (word : BitVec 16) (other : p.address ≠ husbSie1PCurrentTDPtr) :
    p.write word =
      { p with
        address := p.address + 2#16
        words := fun a => if a = p.address then some word else p.words a } := by
  rw [Progress.write, if_neg other]

theorem Progress.Filled.cons {after : Progress} {word : BitVec 16} {rest : List (BitVec 16)}
    (few : rest.length ≤ 63) (other : p.address ≠ husbSie1PCurrentTDPtr)
    (filled : (p.write word).Filled after rest) : p.Filled after (word :: rest) := by
  rw [Progress.write_word word other] at filled
  refine ⟨⟨filled.phase, filled.stored, filled.size⟩, ?_, ?_⟩
  · intro i bound
    cases i with
    | zero =>
        have kept := filled.others p.address (fun i later => by bv_omega)
        simpa using kept
    | succ i =>
        have later := filled.words i (Nat.lt_of_succ_lt_succ bound)
        rw [word_succ] at later
        exact later
  · intro a outside
    have before : a ≠ p.address := by simpa using outside 0 (Nat.zero_lt_succ _)
    have kept := filled.others a (fun i bound => by
      rw [word_succ]
      exact outside (i + 1) (Nat.succ_lt_succ bound))
    rw [kept]
    exact if_neg before

theorem wp_writeWords {list : List (BitVec 16)} (unreported : p.phase.Unreported)
    (few : list.length ≤ 64)
    (apart : ∀ i, i < list.length →
      p.address + 2#16 * BitVec.ofNat 16 i ≠ husbSie1PCurrentTDPtr) :
    (writeWords list).wp protocol (fun _ after => p.Filled after list) p := by
  induction list generalizing p with
  | nil => exact ⟨⟨rfl, rfl, rfl⟩, fun i bound => absurd bound (Nat.not_lt_zero i), fun _ _ => rfl⟩
  | cons word rest ih =>
      have other : p.address ≠ husbSie1PCurrentTDPtr := by simpa using apart 0 (by simp)
      have fewer : rest.length ≤ 63 := Nat.le_of_succ_le_succ few
      have written := Progress.write_word word other
      rw [writeWords, Program.wp_bind]
      apply wp_word unreported other
      apply Program.wp_mono (ih ?_ (Nat.le_succ_of_le fewer) ?_)
      · exact fun _ after filled => filled.cons fewer other
      · rw [written]
        exact unreported
      · intro i bound
        rw [written, word_succ]
        exact apart (i + 1) (Nat.succ_lt_succ bound)

theorem wp_start {list : List (BitVec 16)} {post : Unit → Progress → Prop}
    (unreported : p.phase.Unreported) (due : p.Due list) (carried : p.Carries list)
    (holds : ∀ address, post ()
      { p with address, words := fun _ => none, phase := p.phase.started }) :
    (usbWrite husbSie1PCurrentTDPtr listAddress).wp protocol post p := by
  rw [usbWrite, Program.wp_bind]
  apply wp_aim unreported
  have allowed : Progress.Allows { p with address := husbSie1PCurrentTDPtr }
      (.hpi (.write hpiData listAddress)) :=
    ⟨fun report now => absurd now (unreported report),
      Or.inr (Or.inr ⟨rfl, fun _ => Or.inl ⟨rfl, list, due, carried⟩⟩)⟩
  exact ⟨allowed, fun _ _ => holds (husbSie1PCurrentTDPtr + 2#16)⟩

theorem wp_sendList {list : List (BitVec 16)} {post : Unit → Progress → Prop}
    (unreported : p.phase.Unreported) (few : list.length ≤ 64) (due : p.Due list)
    (holds : ∀ address, post ()
      { p with address, words := fun _ => none, phase := p.phase.started }) :
    (sendList list).wp protocol post p := by
  have apart (i : Nat) (bound : i < list.length) :
      listAddress + 2#16 * BitVec.ofNat 16 i ≠ husbSie1PCurrentTDPtr := by bv_omega
  have goes := wp_writeWords (p := { p with address := listAddress }) unreported few apart
  rw [sendList, Program.wp_bind]
  apply wp_aim unreported
  rw [Program.wp_bind]
  apply Program.wp_mono goes
  rintro _ ⟨address, words, _, _, _⟩ ⟨⟨rfl, rfl, rfl⟩, filled, _⟩
  exact wp_start (p := { p with address, words }) unreported due filled holds

end Rules

namespace Phase

theorem Unreported.read {phase : Phase} (unreported : phase.Unreported) {address word : BitVec 16}
    (other : address ≠ 0x051E#16) : (phase.read address word).Unreported := by
  intro report
  cases phase with
  | reported report => exact absurd rfl (unreported report)
  | ended stage =>
      simp only [Phase.read, after]
      split
      · split
        · split <;> simp
        · simp
      · simp
  | answered => simp [Phase.read, other]
  | flagged stage =>
      simp only [Phase.read]
      split <;> simp
  | answering =>
      simp only [Phase.read]
      split <;> simp
  | _ => simp [Phase.read]

theorem Unreported.started {phase : Phase} (unreported : phase.Unreported) :
    phase.started.Unreported := by
  intro report
  cases phase with
  | reported report => exact absurd rfl (unreported report)
  | _ => simp [Phase.started]

theorem Unreported.status {phase : Phase} (unreported : phase.Unreported) (flag : Bool) :
    (phase.status flag).Unreported := by
  intro report
  cases phase with
  | reported report => exact absurd rfl (unreported report)
  | _ => cases flag <;> simp [Phase.status]

theorem Unreported.see_write {p : Progress} (unreported : p.phase.Unreported) {port : BitVec 8}
    (data : BitVec 16) : (p.see (.hpi (.write port data)) ()).phase.Unreported := by
  simp only [Progress.see, Progress.write]
  split
  · exact unreported
  · split
    · split
      · dsimp only
        split
        · exact unreported.started
        · exact unreported
      · exact unreported
    · split
      · exact nofun
      · exact unreported

end Phase

structure Footprint.Harmless (f : Footprint) (phase : Phase) : Prop where
  unreported : phase.Unreported
  status : ∀ flag, phase.status flag = phase
  writes : ∀ address, f.writes address → address ≠ husbSie1PCurrentTDPtr
  reads : ∀ address, f.reads address →
    address ≠ 0x051E#16 ∧ address ≠ 0x057C#16 ∧ ∀ word, phase.read address word = phase
  mailbox : ∀ word, f.mailbox word → word = commExecInt ∧ phase = .ready .setAddress
  keycode : ¬ f.keycode

section Specifications

variable {p : Progress} {phase : Phase} {stored : Nat} {size : Option (BitVec 8)}

theorem Footprint.Harmless.follows {f : Footprint} (harmless : f.Harmless phase)
    (now : p.At phase stored size) (request : Request)
    (allowed : f.observer.allows p.address request) :
    p.Allows request ∧ ∀ reply, (p.see request reply).address = addressAfter p.address request ∧
      (p.see request reply).At phase stored size := by
  rcases p with ⟨address, words, phase, stored, size⟩
  obtain ⟨rfl, rfl, rfl⟩ := now
  simp only at harmless allowed ⊢
  have unreported {request : Request} (report : BitVec 16)
      (reported : phase = .reported report) : request = .keycode (lowByte report) :=
    absurd reported (harmless.unreported report)
  cases request with
  | keycode value => exact absurd allowed harmless.keycode
  | hpi call =>
      cases call with
      | write port data =>
          rcases allowed with rfl | ⟨rfl, command⟩ | ⟨rfl, writes⟩
          · exact ⟨⟨unreported, Or.inl rfl⟩, fun _ => ⟨rfl, rfl, rfl, rfl⟩⟩
          · have command := harmless.mailbox data command
            obtain ⟨rfl, rfl⟩ := command
            exact ⟨⟨unreported, Or.inr (Or.inl ⟨rfl, Or.inr ⟨rfl, rfl⟩⟩)⟩,
              fun _ => ⟨rfl, rfl, rfl, rfl⟩⟩
          · have other := harmless.writes address writes
            refine ⟨⟨unreported, Or.inr (Or.inr ⟨rfl, fun start => absurd start other⟩)⟩, ?_⟩
            intro _
            change (Progress.write data _).address = _ ∧ (Progress.write data _).At _ _ _
            rw [Progress.write_word data other]
            exact ⟨rfl, rfl, rfl, rfl⟩
      | read port =>
          rcases allowed with rfl | rfl | ⟨rfl, reads⟩
          · exact ⟨⟨unreported, Or.inl rfl⟩, fun word => ⟨rfl, harmless.status _, rfl, rfl⟩⟩
          · exact ⟨⟨unreported, Or.inr (Or.inl rfl)⟩, fun word => ⟨rfl, rfl, rfl, rfl⟩⟩
          · have other := harmless.reads address reads
            refine ⟨⟨unreported, Or.inr (Or.inr ⟨rfl, fun report => absurd report other.1⟩)⟩, ?_⟩
            exact fun word => ⟨rfl, other.2.2 word, rfl, if_neg other.2.1⟩

theorem Footprint.Holds.wp_at {f : Footprint} {Value : Type} {q : Driver Value}
    {post : Value → Progress → Prop} (holds : f.Holds q) (harmless : f.Harmless phase)
    (now : p.At phase stored size)
    (rest : ∀ value after, after.At phase stored size → post value after) :
    q.wp protocol post p := by
  have follows (address : BitVec 16) (after : Progress)
      (related : after.address = address ∧ after.At phase stored size) (request : Request)
      (allowed : f.observer.allows address request) :
      protocol.allows after request ∧ ∀ reply, protocol.expects after request reply →
        f.observer.expects address request reply ∧
          (protocol.see after request reply).address = f.observer.see address request reply ∧
            (protocol.see after request reply).At phase stored size := by
    obtain ⟨rfl, same⟩ := related
    have later := harmless.follows same request allowed
    exact ⟨later.1, fun reply _ => ⟨trivial, later.2 reply⟩⟩
  have simulated := Program.wp_simulate _ follows (holds p.address) ⟨rfl, now⟩
  apply Program.wp_mono simulated
  rintro value after ⟨_, ⟨_, same⟩, _⟩
  exact rest value after same

theorem harmless_housekeeping : Footprint.housekeeping.Harmless (.ready .setAddress) where
  unreported report := nofun
  status flag := rfl
  writes address member := by
    rintro rfl
    exact absurd member (by change husbSie1PCurrentTDPtr ∉ Footprint.registers; decide)
  reads address member := by
    rcases member with rfl | rfl | rfl
    · exact ⟨by decide, by decide, fun _ => rfl⟩
    · exact ⟨by decide, by decide, fun _ => rfl⟩
    · exact ⟨by decide, by decide, fun _ => rfl⟩
  mailbox word command := ⟨command, rfl⟩
  keycode := id

theorem harmless_looks : Footprint.looks.Harmless .idle where
  unreported report := nofun
  status flag := rfl
  writes address := False.elim
  reads address look := by
    rw [show address = usb1CtlReg from look]
    exact ⟨by decide, by decide, fun _ => rfl⟩
  mailbox word := False.elim
  keycode := id

theorem harmless_failure : Footprint.failure.Harmless .failed where
  unreported report := nofun
  status flag := rfl
  writes address register := by
    rw [show address = hpiSie1MsgAdr from register]
    decide
  reads address member := by
    rcases member with rfl | rfl
    · exact ⟨by decide, by decide, fun _ => rfl⟩
    · exact ⟨by decide, by decide, fun _ => rfl⟩
  mailbox word := False.elim
  keycode := id

theorem wp_usbSoftReset {post : Unit → Progress → Prop} (now : p.At phase stored size)
    (resettable : phase.Resettable)
    (rest : ∀ after, after.At (.ready .setAddress) stored none → post () after) :
    usbSoftReset.wp protocol post p := by
  have unreported : p.phase.Unreported := by
    rw [now.phase]
    rcases resettable with rfl | rfl | rfl <;> exact nofun
  rw [usbSoftReset, Program.wp_bind]
  apply wp_mailbox unreported (Or.inl ⟨rfl, now.phase ▸ resettable⟩)
  have reset : (p.see (.hpi (.write hpiMailbox commReset)) ()).At (.ready .setAddress) stored none :=
    ⟨rfl, now.stored, rfl⟩
  exact Footprint.holds_clearUpInterrupt.wp_at harmless_housekeeping reset fun _ => rest

theorem wp_send {post : Unit → Progress → Prop} {stage : Stage} (now : p.At phase stored size)
    (due : phase = .ready stage ∨ phase = .sent stage true)
    (rest : ∀ after, after.At (.sent stage false) stored size → post () after) :
    stage.send.wp protocol post p := by
  have few : stage.list.length ≤ 64 := by cases stage <;> decide
  rcases p with ⟨address, words, _, _, _⟩
  obtain ⟨rfl, rfl, rfl⟩ := now
  rw [Stage.send_eq]
  rcases due with ready | again
  · subst ready
    exact wp_sendList nofun few rfl fun _ => rest _ ⟨rfl, rfl, rfl⟩
  · subst again
    exact wp_sendList nofun few rfl fun _ => rest _ ⟨rfl, rfl, rfl⟩

theorem wp_sendPoll {post : Unit → Progress → Prop} {toggle dataSize : BitVec 8}
    (now : p.At phase stored (some dataSize)) (due : phase = .idle ∨ phase = .polled true)
    (counts : toggle = BitVec.ofNat 8 (stored + 1))
    (rest : ∀ after, after.At (.polled false) stored (some dataSize) → post () after) :
    (sendPoll toggle dataSize).wp protocol post p := by
  have few : (pollList toggle dataSize).length ≤ 64 := by simp [pollList]
  rcases p with ⟨address, words, _, _, _⟩
  obtain ⟨rfl, rfl, sized⟩ := now
  simp only at sized
  subst sized counts
  rcases due with idle | again
  · simp only at idle
    subst idle
    exact wp_sendList (fun _ => Phase.noConfusion) few ⟨dataSize, rfl, rfl⟩ fun _ =>
      rest _ ⟨rfl, rfl, rfl⟩
  · simp only at again
    subst again
    exact wp_sendList (fun _ => Phase.noConfusion) few ⟨dataSize, rfl, rfl⟩ fun _ =>
      rest _ ⟨rfl, rfl, rfl⟩

theorem wp_readFlag {post : Bool → Progress → Prop} (now : p.At phase stored size)
    (unreported : phase.Unreported)
    (rest : ∀ flag after, after.At (phase.status flag) stored size → post flag after) :
    readMessageFlag.wp protocol post p := by
  obtain ⟨rfl, rfl, rfl⟩ := now
  exact wp_readMessageFlag unreported fun flag => rest flag _ ⟨rfl, rfl, rfl⟩

theorem wp_write_at {address data : BitVec 16} {post : Unit → Progress → Prop}
    (now : p.At phase stored size) (unreported : phase.Unreported)
    (word : address ≠ husbSie1PCurrentTDPtr)
    (rest : ∀ after, after.At phase stored size → post () after) :
    (usbWrite address data).wp protocol post p := by
  obtain ⟨rfl, rfl, rfl⟩ := now
  apply wp_usbWrite unreported word
  rw [Progress.write_word data word]
  exact rest _ ⟨rfl, rfl, rfl⟩

theorem wp_read_at {address : BitVec 16} {post : BitVec 16 → Progress → Prop}
    (now : p.At phase stored size) (unreported : phase.Unreported)
    (report : address = 0x051E#16 → phase = .answered)
    (rest : ∀ word after, after.At (phase.read address word) stored
      (if address = 0x057C#16 then some (lowByte word) else size) → post word after) :
    (usbRead address).wp protocol post p := by
  obtain ⟨rfl, rfl, rfl⟩ := now
  exact wp_usbRead unreported report fun word => rest word _ ⟨rfl, rfl, rfl⟩

theorem wp_readTdListDone {post : Bool → Progress → Prop} (now : p.At phase stored size)
    (unreported : phase.Unreported)
    (rest : ∀ word after, after.At (phase.read hpiSie1MsgAdr word) stored size →
      post (decide (word = husbTDListDone)) after) :
    readTdListDone.wp protocol post p := by
  rw [readTdListDone, Program.wp_bind]
  apply wp_read_at now unreported fun same => absurd same (by decide)
  intro word after cleared
  rw [Program.wp_bind]
  apply wp_write_at cleared (unreported.read (by decide)) (by decide)
  exact rest word

theorem wp_readControlByte {post : BitVec 16 → Progress → Prop} {stage : Stage}
    (now : p.At (.ended stage) stored size)
    (rest : ∀ word after,
      after.At (if word = 0x0003#16 then .after stage else .failed) stored size →
        post word after) :
    readControlByte.wp protocol post p := by
  rw [readControlByte, Program.wp_bind]
  apply wp_read_at now nofun (by simp)
  intro _ before status
  apply wp_read_at status nofun (by simp)
  exact rest

theorem wp_getDeviceInfo {post : BitVec 8 → Progress → Prop}
    (now : p.At (.ready .setConfig) stored size)
    (rest : ∀ dataSize after, after.At (.ready .setConfig) stored (some dataSize) →
      post dataSize after) :
    getDeviceInfo.wp protocol post p := by
  rw [getDeviceInfo, Program.wp_bind]
  apply wp_read_at now nofun (by simp)
  intro _ first info
  have unreported : first.phase.Unreported := by
    rw [info.phase]
    exact nofun
  have apart (i : Nat) (bound : i < endpointDescriptor.length) : 0x0576#16 + 2#16 * BitVec.ofNat 16 i ≠
      husbSie1PCurrentTDPtr := by
    have few : i < 5 := bound
    bv_omega
  have goes : (writeWords endpointDescriptor).wp protocol _ _ :=
    wp_writeWords (p := { first with address := 0x0576#16 }) unreported (by decide) apart
  rw [Program.wp_bind]
  apply wp_aim unreported
  rw [Program.wp_bind]
  apply Program.wp_mono goes
  intro _ second filled
  have ready : second.phase = .ready .setConfig := filled.phase.trans info.phase
  have started : second.phase.Unreported := by
    rw [ready]
    exact nofun
  rw [Program.wp_bind, usbWrite, Program.wp_bind]
  apply wp_aim started
  refine ⟨⟨fun report now => absurd now (started report), ?_⟩, ?_⟩
  · exact Or.inr (Or.inr ⟨rfl, fun _ => Or.inr ⟨rfl, ready⟩⟩)
  · intro _ _
    have third : ((({ second with address := husbSie1PCurrentTDPtr } : Progress)).see
        (.hpi (.write hpiData 0x0576#16)) ()).At (.ready .setConfig) stored size :=
      ⟨ready, filled.stored.trans info.stored, filled.size.trans info.size⟩
    rw [Program.wp_done, Program.wp_bind]
    apply wp_read_at third nofun (by simp)
    exact fun word after sized => rest (lowByte word) after sized

theorem wp_report {post : Unit → Progress → Prop} (now : p.At .answered stored size)
    (rest : ∀ after, after.At .idle (stored + 1) size → post () after) :
    (do
      let keycode ← usbRead 0x051E#16
      Program.perform (Request.keycode (lowByte keycode)) : Driver Unit).wp protocol post p := by
  rw [Program.wp_bind]
  apply wp_read_at now nofun fun _ => rfl
  intro word after reported
  have phase : after.phase = .reported word := reported.phase
  refine ⟨⟨?_, word, phase⟩, fun _ _ => rest _ ⟨rfl, ?_, reported.size⟩⟩
  · intro report same
    rw [phase] at same
    cases same
    rfl
  · exact congrArg (· + 1) reported.stored

end Specifications

end Driver

end FPGAMario
