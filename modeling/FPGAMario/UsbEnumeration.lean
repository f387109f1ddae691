import FPGAMario.UsbProtocol

/-! `main` keeps to the order of the transfers: block by block, and so in every run. -/

namespace FPGAMario

open Interact

namespace Driver

namespace Place

def Fits : Place → Phase → Prop
  | usbHotPlug, phase => phase.Resettable
  | statusLoop, phase => phase = .ready .setAddress
  | noDeviceLoop, phase => phase = .ready .setAddress
  | send stage, phase => phase = .ready stage
  | messageLoop stage, phase => phase = .sent stage false
  | tdListLoop stage, phase => phase = .flagged stage
  | retryLoop, phase => phase = .failed
  | poll, phase => phase = .idle
  | pollMessageLoop, phase => phase = .polled false
  | pollTdListLoop, phase => phase = .answering
  | removedLoop, phase => phase = .idle

/-- `data_size` is read from here on. -/
def Sized : Place → Prop
  | send stage | messageLoop stage | tdListLoop stage =>
      stage = .setConfig ∨ stage = .classRequest ∨ stage = .getHidDesc ∨ stage = .getReportDesc
  | poll | pollMessageLoop | pollTdListLoop => True
  | _ => False

/-- `toggle` counts the polls, and one of them may be under way. -/
def underWay : Place → Nat
  | pollMessageLoop => 1
  | pollTdListLoop => 1
  | _ => 0

end Place

/-- What holds of the variables and of the calls so far whenever `main` comes to a label. -/
structure Settled (label : Label) (p : Progress) : Prop where
  phase : label.place.Fits p.phase
  toggle : label.toggle = BitVec.ofNat 8 (p.stored + label.place.underWay)
  size : label.place.Sized → p.size = some label.dataSize

theorem Settled.of_at {p : Progress} {phase : Phase} {stored : Nat} {size : Option (BitVec 8)}
    {label : Label} (now : p.At phase stored size) (fits : label.place.Fits phase)
    (toggled : label.toggle = BitVec.ofNat 8 (stored + label.place.underWay))
    (sized : label.place.Sized → size = some label.dataSize) : Settled label p := by
  obtain ⟨rfl, rfl, rfl⟩ := now
  exact ⟨fits, toggled, sized⟩

section Blocks

variable {p : Progress} {toggle dataSize : BitVec 8}

theorem settled_usbHotPlug (settled : Settled ⟨.usbHotPlug, toggle, dataSize⟩ p) :
    (main ⟨.usbHotPlug, toggle, dataSize⟩).wp protocol Settled p := by
  rw [main, Program.wp_bind]
  apply wp_usbSoftReset ⟨rfl, rfl, rfl⟩ settled.phase
  intro _ reset
  rw [Program.wp_bind]
  apply Footprint.holds_initSie1.wp_at harmless_housekeeping reset
  intro _ _ ready
  exact .of_at ready rfl settled.toggle False.elim

theorem settled_statusLoop (settled : Settled ⟨.statusLoop, toggle, dataSize⟩ p) :
    (main ⟨.statusLoop, toggle, dataSize⟩).wp protocol Settled p := by
  have now : p.At (.ready .setAddress) p.stored p.size := ⟨settled.phase, rfl, rfl⟩
  have hotPlug {after : Progress} (ready : after.At (.ready .setAddress) p.stored p.size) :
      Settled ⟨.usbHotPlug, toggle, dataSize⟩ after :=
    .of_at ready (Or.inl rfl) settled.toggle False.elim
  have looks : Footprint.housekeeping.Holds (ioRead hpiStatus) :=
    Footprint.holds_ioRead (Or.inl rfl)
  rw [main, Program.wp_bind]
  apply looks.wp_at harmless_housekeeping now
  intro status after ready
  rw [Program.wp_ite]
  split
  · exact .of_at ready rfl settled.toggle False.elim
  · rw [Program.wp_bind]
    apply Footprint.holds_readAck.wp_at harmless_housekeeping ready
    intro acknowledged after ready
    rw [Program.wp_ite]
    split
    · exact hotPlug ready
    · rw [Program.wp_bind]
      apply Footprint.holds_resetHusb.wp_at harmless_housekeeping ready
      intro _ after ready
      rw [Program.wp_bind]
      apply Footprint.holds_readAck.wp_at harmless_housekeeping ready
      intro acknowledged after ready
      rw [Program.wp_ite]
      split
      · exact hotPlug ready
      · rw [Program.wp_bind]
        apply (Footprint.holds_lookForDevice (Or.inr (Or.inr rfl)) 5).wp_at harmless_housekeeping ready
        intro found after ready
        cases found with
        | false => exact .of_at ready rfl settled.toggle False.elim
        | true => exact .of_at ready rfl settled.toggle (by simp [Place.Sized])

theorem settled_noDeviceLoop (settled : Settled ⟨.noDeviceLoop, toggle, dataSize⟩ p) :
    (main ⟨.noDeviceLoop, toggle, dataSize⟩).wp protocol Settled p := by
  rw [main, Program.wp_bind]
  apply wp_read_at ⟨settled.phase, rfl, rfl⟩ nofun fun same => absurd same (by decide)
  intro usbCtlVal after ready
  rw [Program.wp_pure]
  dsimp only
  split
  · exact .of_at ready (Or.inl rfl) settled.toggle False.elim
  · exact .of_at ready rfl settled.toggle False.elim

theorem settled_send {stage : Stage} (settled : Settled ⟨.send stage, toggle, dataSize⟩ p) :
    (main ⟨.send stage, toggle, dataSize⟩).wp protocol Settled p := by
  rw [main, Program.wp_bind]
  apply wp_send ⟨settled.phase, rfl, rfl⟩ (Or.inl rfl)
  intro after sent
  exact .of_at sent rfl settled.toggle settled.size

theorem settled_messageLoop {stage : Stage}
    (settled : Settled ⟨.messageLoop stage, toggle, dataSize⟩ p) :
    (main ⟨.messageLoop stage, toggle, dataSize⟩).wp protocol Settled p := by
  rw [main, Program.wp_bind]
  apply wp_readFlag ⟨settled.phase, rfl, rfl⟩ nofun
  intro flag after read
  cases flag with
  | true => exact .of_at read rfl settled.toggle settled.size
  | false =>
      change Program.wp protocol (stage.send >>= _) _ _
      rw [Program.wp_bind]
      apply wp_send read (Or.inr rfl)
      intro after sent
      exact .of_at sent rfl settled.toggle settled.size

theorem settled_failed (after : Progress) (failed : after.At .failed p.stored p.size)
    (toggled : toggle = BitVec.ofNat 8 p.stored) :
    (do
      let waits ← enterRetryCnt
      if waits then pure ⟨.retryLoop, toggle, dataSize⟩
      else do
        readRetryCnt
        pure ⟨.usbHotPlug, toggle, dataSize⟩ : Driver Label).wp protocol Settled after := by
  have enter := Footprint.holds_enterRetryCnt (f := .failure) rfl (Or.inl rfl)
  have leave := Footprint.holds_readRetryCnt (f := .failure) (Or.inr rfl)
  rw [Program.wp_bind]
  apply enter.wp_at harmless_failure failed
  intro waits after failed
  cases waits with
  | true => exact .of_at failed rfl toggled False.elim
  | false =>
      change Program.wp protocol (readRetryCnt >>= _) _ _
      rw [Program.wp_bind]
      apply leave.wp_at harmless_failure failed
      intro _ after failed
      exact .of_at failed (Or.inr (Or.inl rfl)) toggled False.elim

theorem settled_tdListLoop {stage : Stage}
    (settled : Settled ⟨.tdListLoop stage, toggle, dataSize⟩ p) :
    (main ⟨.tdListLoop stage, toggle, dataSize⟩).wp protocol Settled p := by
  rw [main, Program.wp_bind]
  apply wp_readTdListDone ⟨settled.phase, rfl, rfl⟩ nofun
  intro word after read
  by_cases done : word = husbTDListDone
  · have ended : after.At (.ended stage) p.stored p.size := by simpa [Phase.read, done] using read
    rw [decide_eq_true done, Program.wp_ite, if_neg Bool.noConfusion, Program.wp_bind]
    apply wp_readControlByte ended
    intro control after outcome
    rw [Program.wp_ite]
    split
    case isTrue wrong =>
      rw [if_neg wrong] at outcome
      exact settled_failed after outcome settled.toggle
    case isFalse right =>
      rw [if_pos (not_not.mp right)] at outcome
      have sized := settled.size
      cases stage with
      | getConfigDesc2 =>
          change Program.wp protocol (getDeviceInfo >>= _) _ _
          rw [Program.wp_bind]
          apply wp_getDeviceInfo outcome
          intro size after ready
          exact .of_at ready rfl settled.toggle fun _ => rfl
      | setAddress => exact .of_at outcome rfl settled.toggle (by simp [Place.Sized])
      | getDeviceDesc1 => exact .of_at outcome rfl settled.toggle (by simp [Place.Sized])
      | getDeviceDesc2 => exact .of_at outcome rfl settled.toggle (by simp [Place.Sized])
      | getConfigDesc1 => exact .of_at outcome rfl settled.toggle (by simp [Place.Sized])
      | _ => exact .of_at outcome rfl settled.toggle fun _ => sized (by simp [Place.Sized])
  · have flagged : after.At (.flagged stage) p.stored p.size := by
      simpa [Phase.read, done] using read
    rw [decide_eq_false done, Program.wp_ite, if_pos rfl]
    exact .of_at flagged rfl settled.toggle settled.size

theorem settled_retryLoop (settled : Settled ⟨.retryLoop, toggle, dataSize⟩ p) :
    (main ⟨.retryLoop, toggle, dataSize⟩).wp protocol Settled p := by
  have leave := Footprint.holds_readRetryCnt (f := .failure) (Or.inr rfl)
  rw [main, Program.wp_bind]
  apply wp_readFlag ⟨settled.phase, rfl, rfl⟩ nofun
  intro flag after failed
  cases flag with
  | false => exact .of_at failed rfl settled.toggle False.elim
  | true =>
      change Program.wp protocol (readRetryCnt >>= _) _ _
      rw [Program.wp_bind]
      apply leave.wp_at harmless_failure failed
      intro _ after failed
      exact .of_at failed (Or.inr (Or.inl rfl)) settled.toggle False.elim

theorem settled_poll (settled : Settled ⟨.poll, toggle, dataSize⟩ p) :
    (main ⟨.poll, toggle, dataSize⟩).wp protocol Settled p := by
  have counts : toggle + 1#8 = BitVec.ofNat 8 (p.stored + 1) := by
    rw [BitVec.ofNat_add]
    exact congrArg (· + 1#8) settled.toggle
  rw [main, Program.wp_bind]
  apply wp_sendPoll ⟨settled.phase, rfl, settled.size trivial⟩ (Or.inl rfl) counts
  intro after polled
  exact .of_at polled rfl counts fun _ => rfl

theorem settled_pollMessageLoop (settled : Settled ⟨.pollMessageLoop, toggle, dataSize⟩ p) :
    (main ⟨.pollMessageLoop, toggle, dataSize⟩).wp protocol Settled p := by
  rw [main, Program.wp_bind]
  apply wp_readFlag ⟨settled.phase, rfl, settled.size trivial⟩ nofun
  intro flag after read
  cases flag with
  | true => exact .of_at read rfl settled.toggle fun _ => rfl
  | false =>
      change Program.wp protocol (sendPoll toggle dataSize >>= _) _ _
      rw [Program.wp_bind]
      apply wp_sendPoll read (Or.inr rfl) settled.toggle
      intro after polled
      exact .of_at polled rfl settled.toggle fun _ => rfl

theorem settled_pollTdListLoop (settled : Settled ⟨.pollTdListLoop, toggle, dataSize⟩ p) :
    (main ⟨.pollTdListLoop, toggle, dataSize⟩).wp protocol Settled p := by
  rw [main, Program.wp_bind]
  apply wp_readTdListDone ⟨settled.phase, rfl, settled.size trivial⟩ nofun
  intro word after read
  by_cases done : word = husbTDListDone
  · have answered : after.At .answered p.stored (some dataSize) := by
      simpa [Phase.read, done] using read
    rw [decide_eq_true done, Program.wp_ite, if_neg Bool.noConfusion]
    rw [← Program.bind_bind, Program.wp_bind]
    apply wp_report answered
    intro after idle
    rw [Program.wp_bind]
    apply (Footprint.holds_lookForDevice (f := .looks) rfl 7).wp_at harmless_looks idle
    intro found after idle
    cases found with
    | true => exact .of_at idle rfl settled.toggle fun _ => rfl
    | false => exact .of_at idle rfl settled.toggle False.elim
  · have waiting : after.At .answering p.stored (some dataSize) := by
      simpa [Phase.read, done] using read
    rw [decide_eq_false done, Program.wp_ite, if_pos rfl]
    exact .of_at waiting rfl settled.toggle fun _ => rfl

theorem settled_removedLoop (settled : Settled ⟨.removedLoop, toggle, dataSize⟩ p) :
    (main ⟨.removedLoop, toggle, dataSize⟩).wp protocol Settled p := by
  have look := Footprint.holds_usbRead (f := .looks) rfl
  rw [main, Program.wp_bind]
  apply look.wp_at harmless_looks ⟨settled.phase, rfl, rfl⟩
  intro _ after idle
  rw [Program.wp_bind]
  apply look.wp_at harmless_looks idle
  intro _ after idle
  rw [Program.wp_bind]
  apply look.wp_at harmless_looks idle
  intro usbCtlVal after idle
  rw [Program.wp_pure]
  dsimp only
  split
  · exact .of_at idle (Or.inr (Or.inr rfl)) settled.toggle False.elim
  · exact .of_at idle rfl settled.toggle False.elim

end Blocks

theorem main_keeps : Keeps main protocol Settled := by
  rintro ⟨place, toggle, dataSize⟩ p settled
  cases place with
  | usbHotPlug => exact settled_usbHotPlug settled
  | statusLoop => exact settled_statusLoop settled
  | noDeviceLoop => exact settled_noDeviceLoop settled
  | send stage => exact settled_send settled
  | messageLoop stage => exact settled_messageLoop settled
  | tdListLoop stage => exact settled_tdListLoop settled
  | retryLoop => exact settled_retryLoop settled
  | poll => exact settled_poll settled
  | pollMessageLoop => exact settled_pollMessageLoop settled
  | pollTdListLoop => exact settled_pollTdListLoop settled
  | removedLoop => exact settled_removedLoop settled

def unknown (address : BitVec 16) : Progress :=
  ⟨address, fun _ => none, .ready .setAddress, 0, none⟩

/-- A chip that is done with every list at once, and a keyboard that reports this word. -/
def keyboard (report address : BitVec 16) : Answer Request Reply
  | .hpi (.read port) =>
      if port = hpiStatus then hpiStatusSie1msgFlag
      else if port = hpiMailbox then commAck
      else if address = hpiSie1MsgAdr then husbTDListDone
      else if address = 0x0508#16 then 0x0003#16
      else if address = 0x057C#16 then 0x0008#16
      else if address = usb1CtlReg then aDpStat
      else report
  | .hpi (.write _ _) => ()
  | .keycode _ => ()

def typing : Nat → Answer Request Reply :=
  played main start protocol (fun p => keyboard 0x001A#16 p.address) (unknown 0#16)

section Runs

variable (answers : Nat → Answer Request Reply) (address : BitVec 16)

def progressBefore : Nat → Progress := seenBefore main start answers protocol (unknown address)

variable {answers address} {n : Nat}

theorem settled_unknown : Settled start (unknown address) := ⟨Or.inl rfl, rfl, False.elim⟩

theorem allowed_of_calls {request : Request} (calls : Calls main start answers n request) :
    (progressBefore answers address n).Allows request :=
  main_keeps.allows settled_unknown (fun _ _ _ => trivial) n request calls

theorem unreported_of_done {label : Label} (done : run main start answers n = .done label) :
    (progressBefore answers address n).phase.Unreported := by
  have settled : Settled label (progressBefore answers address n) :=
    main_keeps.at_label settled_unknown (fun _ _ _ => trivial) n label done
  have fits := settled.phase
  intro report reported
  rw [reported] at fits
  rcases label with ⟨place, toggle, dataSize⟩
  cases place with
  | usbHotPlug => exact absurd fits (by simp [Place.Fits, Phase.Resettable])
  | _ => exact Phase.noConfusion fits

theorem progressBefore_call {request : Request} {next : Reply request → Driver Label}
    (call : run main start answers n = .call request next) :
    progressBefore answers address (n + 1) =
      (progressBefore answers address n).see request (answers n request) := by
  rw [progressBefore, seenBefore, call]
  rfl

theorem progressBefore_done {label : Label} (done : run main start answers n = .done label) :
    progressBefore answers address (n + 1) = progressBefore answers address n := by
  rw [progressBefore, seenBefore, done]
  rfl

theorem read_of_reported {p : Progress} {request : Request} {answer : Answer Request Reply}
    {report : BitVec 16} (allowed : p.Allows request)
    (reported : (p.see request (answer request)).phase = .reported report) :
    request = .hpi (.read hpiData) ∧ p.address = 0x051E#16 ∧
      report = answer (.hpi (.read hpiData)) := by
  cases request with
  | keycode value => exact absurd reported Phase.noConfusion
  | hpi call =>
      have unreported : p.phase.Unreported := by
        intro report now
        exact absurd (allowed.1 report now) Request.noConfusion
      cases call with
      | write port data => exact absurd reported (unreported.see_write data report)
      | read port =>
          rcases allowed.2 with rfl | rfl | ⟨rfl, answered⟩
          · exact absurd reported (unreported.status _ report)
          · exact absurd reported (unreported report)
          · by_cases place : p.address = 0x051E#16
            · have word : p.phase.read p.address (answer (.hpi (.read hpiData))) =
                  .reported report := reported
              rw [answered place, place] at word
              cases word
              exact ⟨rfl, place, rfl⟩
            · exact absurd reported (unreported.read place report)

theorem read_of_stored {value : BitVec 8}
    (stores : Calls main start answers (n + 1) (.keycode value)) :
    Calls main start answers n (.hpi (.read hpiData)) ∧
      (progressBefore answers address n).address = 0x051E#16 ∧
        value = lowByte (answers n (.hpi (.read hpiData))) := by
  have allowed : (progressBefore answers address (n + 1)).Allows (.keycode value) :=
    allowed_of_calls stores
  rcases allowed.2 with ⟨report, reported⟩
  have same := allowed.1 report reported
  cases state : run main start answers n with
  | done label =>
      rw [progressBefore_done state] at reported
      exact absurd reported (unreported_of_done state report)
  | call request next =>
      have calls : Calls main start answers n request := ⟨next, state⟩
      rw [progressBefore_call state] at reported
      rcases read_of_reported (allowed_of_calls calls) reported with ⟨rfl, place, rfl⟩
      cases same
      exact ⟨calls, place, rfl⟩

theorem exists_read_of_stored (address : BitVec 16) {value : BitVec 8}
    (stores : Calls main start answers n (.keycode value)) :
    ∃ k, n = k + 1 ∧ Calls main start answers k (.hpi (.read hpiData)) ∧
      (progressBefore answers address k).address = 0x051E#16 ∧
        value = lowByte (answers k (.hpi (.read hpiData))) := by
  cases n with
  | zero =>
      rcases stores with ⟨next, state⟩
      cases state
  | succ k => exact ⟨k, rfl, read_of_stored stores⟩

theorem stored_of_read (reads : Calls main start answers n (.hpi (.read hpiData)))
    (place : (progressBefore answers address n).address = 0x051E#16) :
    Calls main start answers (n + 1) (.keycode (lowByte (answers n (.hpi (.read hpiData))))) := by
  have allowed : (progressBefore answers address n).Allows (.hpi (.read hpiData)) :=
    allowed_of_calls reads
  rcases reads with ⟨next, state⟩
  have answered : (progressBefore answers address n).phase = .answered := by
    rcases allowed.2 with status | mailbox | ⟨_, answered⟩
    · exact absurd status (by decide)
    · exact absurd mailbox (by decide)
    · exact answered place
  have reported : (progressBefore answers address (n + 1)).phase =
      .reported (answers n (.hpi (.read hpiData))) := by
    rw [progressBefore_call state]
    simp [Progress.see, Progress.read, answered, place, Phase.read]
  cases later : run main start answers (n + 1) with
  | done label => exact absurd reported (unreported_of_done later _)
  | call request rest =>
      have calls : Calls main start answers (n + 1) request := ⟨rest, later⟩
      have allowed : (progressBefore answers address (n + 1)).Allows request :=
        allowed_of_calls calls
      have stored := allowed.1 _ reported
      rw [← stored]
      exact calls

/-- Every report that is read goes to the keycode port in the next step, its low byte, and nothing
else ever does. -/
theorem stores_iff_reads (value : BitVec 8) :
    Calls main start answers (n + 1) (.keycode value) ↔
      Calls main start answers n (.hpi (.read hpiData)) ∧
        (progressBefore answers address n).address = 0x051E#16 ∧
          value = lowByte (answers n (.hpi (.read hpiData))) := by
  constructor
  · exact read_of_stored
  · rintro ⟨reads, place, rfl⟩
    exact stored_of_read reads place

theorem due_of_started (starts : Calls main start answers n (.hpi (.write hpiData listAddress)))
    (aimed : (progressBefore answers address n).address = husbSie1PCurrentTDPtr) :
    ∃ list, (progressBefore answers address n).Due list ∧
      (progressBefore answers address n).Carries list := by
  have allowed : (progressBefore answers address n).Allows (.hpi (.write hpiData listAddress)) :=
    allowed_of_calls starts
  rcases allowed.2 with aims | ⟨mailbox, _⟩ | ⟨_, due⟩
  · exact absurd aims (by decide)
  · exact absurd mailbox (by decide)
  · rcases due aimed with ⟨_, due⟩ | ⟨other, _⟩
    · exact due
    · exact absurd other (by decide)

theorem Progress.Due.cases {p : Progress} {list : List (BitVec 16)} (due : p.Due list) :
    (∃ stage, (p.phase = .ready stage ∨ p.phase = .sent stage true) ∧ list = stage.list) ∨
      (p.phase = .idle ∨ p.phase = .polled true) ∧
        ∃ size, p.size = some size ∧ list = pollList (BitVec.ofNat 8 (p.stored + 1)) size := by
  rcases p with ⟨address, words, phase, stored, size⟩
  cases phase with
  | ready stage => exact Or.inl ⟨stage, Or.inl rfl, due⟩
  | sent stage again =>
      cases again with
      | true => exact Or.inl ⟨stage, Or.inr rfl, due⟩
      | false => exact False.elim due
  | idle => exact Or.inr ⟨Or.inl rfl, due⟩
  | polled again =>
      cases again with
      | true => exact Or.inr ⟨Or.inr rfl, due⟩
      | false => exact False.elim due
  | _ => exact False.elim due

theorem odd_succ_iff (stored : Nat) :
    BitVec.ofNat 8 (stored + 1) % 2#8 ≠ 0#8 ↔ stored % 2 = 0 := by
  have value : (BitVec.ofNat 8 (stored + 1) % 2#8).toNat = (stored + 1) % 256 % 2 := rfl
  rw [ne_eq, ← BitVec.toNat_inj, value, BitVec.toNat_ofNat]
  omega

theorem token_ne (stage : Stage) : stage.list[2]? ≠ some 0x0291#16 := by
  cases stage <;> decide

/-- `DATA0` and `DATA1` take turns with the keycodes stored, however often a poll is sent again and
the keyboard comes and goes. -/
theorem poll_toggles (starts : Calls main start answers n (.hpi (.write hpiData listAddress)))
    (aimed : (progressBefore answers address n).address = husbSie1PCurrentTDPtr)
    (poll : (progressBefore answers address n).words 0x0504#16 = some 0x0291#16) :
    (progressBefore answers address n).words 0x0506#16 =
      some (if (progressBefore answers address n).stored % 2 = 0 then 0x0001#16
        else 0x0041#16) := by
  rcases due_of_started starts aimed with ⟨list, due, carried⟩
  rcases due.cases with ⟨stage, _, rfl⟩ | ⟨_, size, _, rfl⟩
  · have few : 2 < stage.list.length := by cases stage <;> decide
    have token : _ = some (stage.list.get ⟨2, few⟩) := carried 2 few
    have same : some (stage.list.get ⟨2, few⟩) = some 0x0291#16 := token.symm.trans poll
    rw [List.get_eq_getElem, ← List.getElem?_eq_getElem] at same
    exact absurd same (token_ne stage)
  · have control := carried 3 (by simp [pollList])
    have alternates := odd_succ_iff (progressBefore answers address n).stored
    simp only [pollList, List.get_eq_getElem, List.getElem_cons_succ, List.getElem_cons_zero,
      alternates] at control
    exact control

theorem poll_toggles_second : (progressBefore typing 0#16 558).words 0x0506#16 =
    some (if (progressBefore typing 0#16 558).stored % 2 = 0 then 0x0001#16 else 0x0041#16) := by
  have seen : progressBefore typing 0#16 558 = (play main start protocol
      (fun p => keyboard 0x001A#16 p.address) (unknown 0#16) 558).2 := seenBefore_played main start protocol _ _ 558
  have starts : Calls main start typing 558 (.hpi (.write hpiData listAddress)) :=
    calls_played (by decide +kernel)
  have aimed : (progressBefore typing 0#16 558).address = husbSie1PCurrentTDPtr := by
    rw [seen]
    decide +kernel
  have poll : (progressBefore typing 0#16 558).words 0x0504#16 = some 0x0291#16 := by
    rw [seen]
    decide +kernel
  exact poll_toggles starts aimed poll

end Runs

end Driver

end FPGAMario
