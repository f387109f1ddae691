import FPGAMario.Interact.Fair
import FPGAMario.UsbEnumeration

/-! Keycodes go on coming as long as the chip does what it is told and a keyboard is there,
whatever happened before. -/

namespace FPGAMario

open Interact

namespace Driver

/-- The address register, the last command, and how many keycodes were stored. -/
structure Watch where
  address : BitVec 16
  command : BitVec 16
  stored : Nat

namespace Watch

def see (w : Watch) (request : Request) (_ : Reply request) : Watch where
  address := addressAfter w.address request
  command :=
    match request with
    | .hpi (.write port data) => if port = hpiMailbox then data else w.command
    | _ => w.command
  stored :=
    match request with
    | .keycode _ => w.stored + 1
    | _ => w.stored

/-- A command is acknowledged, a device is there, and a transfer that ended is right. -/
def Cooperates (w : Watch) : (request : Request) → Reply request → Prop
  | .hpi (.read port), word =>
      (port = hpiMailbox → w.command = commExecInt → word = commAck) ∧
      (port = hpiData → w.address = usb1CtlReg → word &&& noDevice ≠ 0#16) ∧
      (port = hpiData → w.address = 0x0508#16 → word = 0x0003#16)
  | _, _ => True

end Watch

def cooperation : Observer Request Reply Watch where
  allows _ _ := True
  expects := Watch.Cooperates
  see := Watch.see

def AsksStatus (_ : Watch) (request : Request) : Prop := request = .hpi (.read hpiStatus)

def GrantsFlag (_ : Watch) : (request : Request) → Reply request → Prop
  | .hpi (.read _), word => word &&& hpiStatusSie1msgFlag ≠ 0#16
  | _, _ => False

def AsksMessage (w : Watch) (request : Request) : Prop :=
  request = .hpi (.read hpiData) ∧ w.address = hpiSie1MsgAdr

def GrantsTdListDone (_ : Watch) : (request : Request) → Reply request → Prop
  | .hpi (.read _), word => word = husbTDListDone
  | _, _ => False

namespace Stage

def left : Stage → Nat
  | setAddress => 9
  | getDeviceDesc1 => 8
  | getDeviceDesc2 => 7
  | getConfigDesc1 => 6
  | getConfigDesc2 => 5
  | setConfig => 4
  | classRequest => 3
  | getHidDesc => 2
  | getReportDesc => 1

end Stage

def rank (label : Label) (w : Watch) : Nat :=
  match label.place with
  | .statusLoop => if w.command = commExecInt then 31 else 33
  | .usbHotPlug => 32
  | .noDeviceLoop => 33
  | .retryLoop => 33
  | .removedLoop => 33
  | .send stage => 3 * stage.left + 3
  | .messageLoop stage => 3 * stage.left + 2
  | .tdListLoop stage => 3 * stage.left + 1
  | .poll => 3
  | .pollMessageLoop => 2
  | .pollTdListLoop => 1

def Nearer (label : Label) (w : Watch) (next : Label) (after : Watch) : Prop :=
  rank next after < rank label w ∨ w.stored < after.stored

section Rules

variable {asks : Watch → Request → Prop}
  {grants : Watch → (request : Request) → Reply request → Prop} {h : Heard Watch} {Value : Type}

theorem wp_skip {Result : Type} {p : Driver Result} {q : Result → Driver Value}
    {post : Value → Heard Watch → Prop}
    (rest : ∀ result h, (q result).wp (cooperation.listen asks grants) post h) :
    (p >>= q).wp (cooperation.listen asks grants) post h := by
  rw [Program.wp_bind]
  exact Program.wp_of_allows (fun _ _ => trivial) rest

theorem wp_execInt {post : Unit → Heard Watch → Prop}
    (rest : ∀ h : Heard Watch, h.seen.command = commExecInt → post () h) :
    (ioWrite hpiMailbox commExecInt).wp (cooperation.listen asks grants) post h :=
  ⟨trivial, fun _ _ => rest _ rfl⟩

theorem wp_initSie1 {post : Unit → Heard Watch → Prop}
    (rest : ∀ h : Heard Watch, h.seen.command = commExecInt → post () h) :
    initSie1.wp (cooperation.listen asks grants) post h := by
  iterate 7 apply wp_skip; intro _ h
  exact wp_execInt rest

theorem wp_resetHusb {post : Unit → Heard Watch → Prop}
    (rest : ∀ h : Heard Watch, h.seen.command = commExecInt → post () h) :
    resetHusb.wp (cooperation.listen asks grants) post h := by
  iterate 3 apply wp_skip; intro _ h
  exact wp_execInt rest

theorem wp_readAck {post : Bool → Heard Watch → Prop} (told : h.seen.command = commExecInt)
    (rest : ∀ h, post true h) : readAck.wp (cooperation.listen asks grants) post h := by
  rw [readAck, Program.wp_bind]
  refine ⟨trivial, ?_⟩
  intro mailbox answered
  have acknowledged : mailbox = commAck := answered.1 rfl told
  rw [Program.wp_done, if_pos acknowledged]
  exact rest _

theorem wp_usbCtl {post : BitVec 16 → Heard Watch → Prop}
    (rest : ∀ usbCtlVal after, usbCtlVal &&& noDevice ≠ 0#16 →
      after.seen.stored = h.seen.stored → post usbCtlVal after) :
    (usbRead usb1CtlReg).wp (cooperation.listen asks grants) post h := by
  rw [usbRead, Program.wp_bind]
  refine ⟨trivial, fun _ _ => ⟨trivial, ?_⟩⟩
  intro usbCtlVal answered
  exact rest usbCtlVal _ (answered.2.1 rfl rfl) rfl

theorem wp_lookForDevice {count : Nat} {post : Bool → Heard Watch → Prop}
    (rest : ∀ after, after.seen.stored = h.seen.stored → post true after) :
    (lookForDevice count).wp (cooperation.listen asks grants) post h := by
  rw [lookForDevice, Program.wp_bind]
  apply wp_usbCtl
  intro usbCtlVal after there same
  rw [if_pos there]
  exact rest after same

theorem wp_control {post : BitVec 16 → Heard Watch → Prop} (rest : ∀ h, post 0x0003#16 h) :
    readControlByte.wp (cooperation.listen asks grants) post h := by
  apply wp_skip
  intro _ h
  refine ⟨trivial, fun _ _ => ⟨trivial, ?_⟩⟩
  intro control answered
  have right : control = 0x0003#16 := answered.2.2 rfl rfl
  subst right
  exact rest _

def writing : Observer Request Reply Unit where
  allows _ request := ∃ port data, request = .hpi (.write port data)
  expects _ _ _ := True
  see _ _ _ := ()

theorem writes_usbWrite (address data : BitVec 16) :
    (usbWrite address data).wp writing (fun _ _ => True) () :=
  ⟨⟨_, _, rfl⟩, fun _ _ => ⟨⟨_, _, rfl⟩, fun _ _ => trivial⟩⟩

theorem writes_writeWords (words : List (BitVec 16)) :
    (writeWords words).wp writing (fun _ _ => True) () := by
  induction words with
  | nil => exact trivial
  | cons word words ih => exact ⟨⟨_, _, rfl⟩, fun _ _ => ih⟩

theorem writes_sendList (words : List (BitVec 16)) :
    (sendList words).wp writing (fun _ _ => True) () := by
  rw [sendList, Program.wp_bind]
  refine ⟨⟨_, _, rfl⟩, fun _ _ => ?_⟩
  rw [Program.wp_done, Program.wp_bind]
  exact Program.wp_mono (writes_writeWords words) fun _ _ _ => writes_usbWrite _ _

theorem wp_writing {p : Driver Unit} {post : Unit → Heard Watch → Prop}
    (writes : p.wp writing (fun _ _ => True) ())
    (silent : ∀ w port data, ¬ asks w (.hpi (.write port data)))
    (rest : ∀ after, after.asked = h.asked → after.granted = h.granted →
      after.seen.stored = h.seen.stored → post () after) :
    p.wp (cooperation.listen asks grants) post h := by
  let related (_ : Unit) (after : Heard Watch) : Prop :=
    after.asked = h.asked ∧ after.granted = h.granted ∧ after.seen.stored = h.seen.stored
  have follows (seen : Unit) (before : Heard Watch) (same : related seen before)
      (request : Request) (written : writing.allows seen request) :
      (cooperation.listen asks grants).allows before request ∧
        ∀ reply, (cooperation.listen asks grants).expects before request reply →
          writing.expects seen request reply ∧ related (writing.see seen request reply)
            ((cooperation.listen asks grants).see before request reply) := by
    rcases same with ⟨asked, granted, stored⟩
    rcases written with ⟨port, data, rfl⟩
    refine ⟨trivial, fun _ _ => ⟨trivial, ?_, ?_, stored⟩⟩
    · simp [Observer.listen, silent, asked]
    · simp [Observer.listen, silent, granted]
  have simulated := Program.wp_simulate related follows writes ⟨rfl, rfl, rfl⟩
  apply Program.wp_mono simulated
  rintro _ after ⟨_, ⟨asked, granted, stored⟩, _⟩
  exact rest after asked granted stored

end Rules

/-- A block brings the next keycode nearer, or it waits at its label and what it asked for was not
granted. -/
def Outcome (label : Label) (w : Watch) (next : Label) (h : Heard Watch) : Prop :=
  Nearer label w next h.seen ∨
    next = label ∧ (rank label h.seen = rank label w ∧ w.stored ≤ h.seen.stored) ∧
      h.asked ∧ ¬ h.granted

section Blocks

variable {w : Watch} {toggle dataSize : BitVec 8}

theorem outcome_usbHotPlug {asks : Watch → Request → Prop}
    {grants : Watch → (request : Request) → Reply request → Prop} :
    (main ⟨.usbHotPlug, toggle, dataSize⟩).wp (cooperation.listen asks grants)
      (Outcome ⟨.usbHotPlug, toggle, dataSize⟩ w) ⟨w, False, False⟩ := by
  rw [main]
  apply wp_skip
  intro _ h
  rw [Program.wp_bind]
  apply wp_initSie1
  intro h told
  left
  left
  simp [rank, told]

theorem outcome_resetHusb (h : Heard Watch) :
    (do
      resetHusb
      let acknowledged ← readAck
      if acknowledged = false then pure ⟨.usbHotPlug, toggle, dataSize⟩
      else do
        let found ← lookForDevice 5
        pure ⟨if found then .send .setAddress else .noDeviceLoop, toggle, dataSize⟩ :
      Driver Label).wp (cooperation.listen AsksStatus GrantsFlag)
        (Outcome ⟨.statusLoop, toggle, dataSize⟩ w) h := by
  rw [Program.wp_bind]
  apply wp_resetHusb
  intro h told
  rw [Program.wp_bind]
  apply wp_readAck told
  intro h
  rw [Program.wp_ite, if_neg Bool.noConfusion, Program.wp_bind]
  apply wp_lookForDevice
  intro after _
  left
  left
  change 30 < if w.command = commExecInt then 31 else 33
  split
  · decide
  · decide

theorem outcome_statusLoop :
    (main ⟨.statusLoop, toggle, dataSize⟩).wp (cooperation.listen AsksStatus GrantsFlag)
      (Outcome ⟨.statusLoop, toggle, dataSize⟩ w) ⟨w, False, False⟩ := by
  rw [main, Program.wp_bind]
  refine ⟨trivial, ?_⟩
  intro status _
  rw [Program.wp_done, Program.wp_ite]
  split
  case isTrue silent =>
    have whole : status &&& 0xFFFF#16 = status := BitVec.and_allOnes
    have zero : status = 0#16 := whole.symm.trans silent
    right
    refine ⟨rfl, ⟨rfl, Nat.le_refl _⟩, Or.inr rfl, ?_⟩
    rintro (early | ⟨_, granted⟩)
    · exact early
    · exact granted (by rw [zero]; rfl)
  case isFalse =>
    rw [Program.wp_bind]
    by_cases told : w.command = commExecInt
    · apply wp_readAck told
      intro h
      rw [Program.wp_ite, if_neg Bool.noConfusion]
      exact outcome_resetHusb h
    · apply Program.wp_of_allows (fun _ _ => trivial)
      intro acknowledged h
      rw [Program.wp_ite]
      split
      · left
        left
        simp [rank, told]
      · exact outcome_resetHusb h

theorem outcome_noDeviceLoop {asks : Watch → Request → Prop}
    {grants : Watch → (request : Request) → Reply request → Prop} :
    (main ⟨.noDeviceLoop, toggle, dataSize⟩).wp (cooperation.listen asks grants)
      (Outcome ⟨.noDeviceLoop, toggle, dataSize⟩ w) ⟨w, False, False⟩ := by
  rw [main, Program.wp_bind]
  apply wp_usbCtl
  intro usbCtlVal after there _
  left
  left
  simp [rank, there]

theorem outcome_removedLoop {asks : Watch → Request → Prop}
    {grants : Watch → (request : Request) → Reply request → Prop} :
    (main ⟨.removedLoop, toggle, dataSize⟩).wp (cooperation.listen asks grants)
      (Outcome ⟨.removedLoop, toggle, dataSize⟩ w) ⟨w, False, False⟩ := by
  rw [main]
  iterate 2 apply wp_skip; intro _ h
  rw [Program.wp_bind]
  apply wp_usbCtl
  intro usbCtlVal after there _
  left
  left
  simp [rank, there]

theorem outcome_send {asks : Watch → Request → Prop}
    {grants : Watch → (request : Request) → Reply request → Prop} {stage : Stage} :
    (main ⟨.send stage, toggle, dataSize⟩).wp (cooperation.listen asks grants)
      (Outcome ⟨.send stage, toggle, dataSize⟩ w) ⟨w, False, False⟩ := by
  rw [main]
  apply wp_skip
  intro _ h
  left
  left
  simp [rank]

theorem outcome_poll {asks : Watch → Request → Prop}
    {grants : Watch → (request : Request) → Reply request → Prop} :
    (main ⟨.poll, toggle, dataSize⟩).wp (cooperation.listen asks grants)
      (Outcome ⟨.poll, toggle, dataSize⟩ w) ⟨w, False, False⟩ := by
  rw [main]
  apply wp_skip
  intro _ h
  left
  left
  simp [rank]

theorem outcome_resend {label next : Label} (list : List (BitVec 16))
    (nearer : ∀ after, Nearer label w next after)
    (steady : ∀ after, rank label after = rank label w) :
    (do
      let flag ← readMessageFlag
      if flag then pure next
      else do
        sendList list
        pure label : Driver Label).wp (cooperation.listen AsksStatus GrantsFlag)
      (Outcome label w) ⟨w, False, False⟩ := by
  rw [Program.wp_bind, readMessageFlag, Program.wp_bind]
  refine ⟨trivial, ?_⟩
  intro status _
  rw [Program.wp_done, Program.wp_pure]
  by_cases flag : status &&& hpiStatusSie1msgFlag ≠ 0#16
  · rw [decide_eq_true flag]
    exact Or.inl (nearer _)
  · rw [decide_eq_false flag, Program.wp_ite, if_neg Bool.noConfusion, Program.wp_bind]
    apply wp_writing (writes_sendList _) (by simp [AsksStatus])
    intro after asked granted stored
    right
    refine ⟨rfl, ⟨steady _, stored.ge⟩, ?_, ?_⟩
    · rw [asked]
      exact Or.inr rfl
    · rw [granted]
      rintro (early | ⟨_, granted⟩)
      · exact early
      · exact flag granted

theorem outcome_messageLoop {stage : Stage} :
    (main ⟨.messageLoop stage, toggle, dataSize⟩).wp (cooperation.listen AsksStatus GrantsFlag)
      (Outcome ⟨.messageLoop stage, toggle, dataSize⟩ w) ⟨w, False, False⟩ := by
  have nearer (after : Watch) : Nearer ⟨.messageLoop stage, toggle, dataSize⟩ w
      ⟨.tdListLoop stage, toggle, dataSize⟩ after := Or.inl (by simp [rank])
  have block := outcome_resend stage.list nearer fun _ => rfl
  rw [← Stage.send_eq] at block
  exact block

theorem outcome_pollMessageLoop :
    (main ⟨.pollMessageLoop, toggle, dataSize⟩).wp (cooperation.listen AsksStatus GrantsFlag)
      (Outcome ⟨.pollMessageLoop, toggle, dataSize⟩ w) ⟨w, False, False⟩ :=
  outcome_resend _ (fun _ => Or.inl (by simp [rank])) (fun _ => rfl)

theorem outcome_retryLoop :
    (main ⟨.retryLoop, toggle, dataSize⟩).wp (cooperation.listen AsksStatus GrantsFlag)
      (Outcome ⟨.retryLoop, toggle, dataSize⟩ w) ⟨w, False, False⟩ := by
  rw [main, Program.wp_bind, readMessageFlag, Program.wp_bind]
  refine ⟨trivial, ?_⟩
  intro status _
  rw [Program.wp_done, Program.wp_pure]
  by_cases flag : status &&& hpiStatusSie1msgFlag ≠ 0#16
  · rw [decide_eq_true flag, Program.wp_ite, if_pos rfl]
    apply wp_skip
    intro _ h
    left
    left
    simp [rank]
  · rw [decide_eq_false flag]
    right
    refine ⟨rfl, ⟨rfl, Nat.le_refl _⟩, Or.inr rfl, ?_⟩
    rintro (early | ⟨_, granted⟩)
    · exact early
    · exact flag granted

theorem wp_askTdListDone {post : Bool → Heard Watch → Prop}
    (granted : ∀ after : Heard Watch, after.seen.stored = w.stored → post true after)
    (refused : ∀ after : Heard Watch, after.seen.stored = w.stored → after.asked →
      ¬ after.granted → post false after) :
    readTdListDone.wp (cooperation.listen AsksMessage GrantsTdListDone) post
      ⟨w, False, False⟩ := by
  rw [readTdListDone, Program.wp_bind]
  refine ⟨trivial, fun _ _ => ⟨trivial, ?_⟩⟩
  intro usbCtlVal _
  rw [Program.wp_done, Program.wp_bind]
  apply wp_writing (writes_usbWrite _ _) (by simp [AsksMessage])
  intro after asked heard stored
  by_cases done : usbCtlVal = husbTDListDone
  · rw [decide_eq_true done]
    exact granted after stored
  · rw [decide_eq_false done]
    apply refused after stored
    · rw [asked]
      exact Or.inr ⟨rfl, rfl⟩
    · rw [heard]
      rintro ((early | ⟨⟨other, _⟩, _⟩) | ⟨_, granted⟩)
      · exact early
      · exact absurd other (by simp)
      · exact done granted

theorem outcome_tdListLoop {stage : Stage} :
    (main ⟨.tdListLoop stage, toggle, dataSize⟩).wp
      (cooperation.listen AsksMessage GrantsTdListDone)
      (Outcome ⟨.tdListLoop stage, toggle, dataSize⟩ w) ⟨w, False, False⟩ := by
  rw [main, Program.wp_bind]
  apply wp_askTdListDone
  · intro after _
    rw [Program.wp_ite, if_neg Bool.noConfusion, Program.wp_bind]
    apply wp_control
    intro h
    rw [Program.wp_ite, if_neg (not_not.mpr rfl)]
    cases stage with
    | getConfigDesc2 =>
        apply wp_skip
        intro size h
        left
        left
        simp [rank, Stage.left]
    | _ =>
        left
        left
        simp [rank, Stage.left]
  · intro after stored asked refused
    exact Or.inr ⟨rfl, ⟨rfl, stored.ge⟩, asked, refused⟩

theorem outcome_pollTdListLoop :
    (main ⟨.pollTdListLoop, toggle, dataSize⟩).wp
      (cooperation.listen AsksMessage GrantsTdListDone)
      (Outcome ⟨.pollTdListLoop, toggle, dataSize⟩ w) ⟨w, False, False⟩ := by
  rw [main, Program.wp_bind]
  apply wp_askTdListDone
  · intro after stored
    rw [Program.wp_ite, if_neg Bool.noConfusion, Program.wp_bind, usbRead, Program.wp_bind]
    refine ⟨trivial, fun _ _ => ⟨trivial, fun keycode _ => ?_⟩⟩
    rw [Program.wp_done, Program.wp_bind]
    refine ⟨trivial, fun _ _ => ?_⟩
    rw [Program.wp_done, Program.wp_bind]
    apply wp_lookForDevice
    intro last same
    left
    right
    have counted : last.seen.stored = after.seen.stored + 1 := same
    rw [counted, stored]
    exact Nat.lt_succ_self _
  · intro after stored asked refused
    exact Or.inr ⟨rfl, ⟨rfl, stored.ge⟩, asked, refused⟩

end Blocks

section Runs

variable {answers : Nat → Answer Request Reply} {first : Watch}

/-- From step `n` on the chip does what it is told, and it is not late for ever. -/
structure Cooperative (answers : Nat → Answer Request Reply) (first : Watch) (n : Nat) : Prop where
  expected : ExpectedFrom cooperation main start answers first n
  flags : FairAnswers cooperation AsksStatus GrantsFlag main start answers first
  lists : FairAnswers cooperation AsksMessage GrantsTdListDone main start answers first

abbrev watchBefore (answers : Nat → Answer Request Reply) (first : Watch) : Nat → Watch :=
  seenBefore main start answers cooperation first

theorem watchBefore_address (n : Nat) : (watchBefore answers first n).address =
    (progressBefore answers first.address n).address := by
  induction n with
  | zero => rfl
  | succ n ih =>
      cases state : run main start answers n with
      | done label =>
          rw [progressBefore_done state, watchBefore, seenBefore, state]
          exact ih
      | call request next =>
          rw [progressBefore_call state, Progress.see_address, ← ih, watchBefore, seenBefore, state]
          rfl

theorem leaves_of_outcome {asks : Watch → Request → Prop}
    {grants : Watch → (request : Request) → Reply request → Prop} {label : Label} {n : Nat}
    (block : ∀ w, (main label).wp (cooperation.listen asks grants) (Outcome label w)
      ⟨w, False, False⟩)
    (fair : FairAnswers cooperation asks grants main start answers first)
    (expected : ExpectedFrom cooperation main start answers first n)
    (now : run main start answers n = .done label) :
    ∃ m, n ≤ m ∧ ∃ next, run main start answers m = .done next ∧
      Nearer label (watchBefore answers first n) next (watchBefore answers first m) := by
  let kept (w : Watch) : Prop :=
    rank label w = rank label (watchBefore answers first n) ∧
      (watchBefore answers first n).stored ≤ w.stored
  have stays (w : Watch) (same : kept w) : (main label).wp (cooperation.listen asks grants)
      (fun next h => Nearer label (watchBefore answers first n) next h.seen ∨
        next = label ∧ kept h.seen ∧ h.asked ∧ ¬ h.granted) ⟨w, False, False⟩ := by
    rcases same with ⟨sameRank, more⟩
    apply Program.wp_mono (block w)
    rintro next h ((lower | stored) | ⟨same, ⟨steady, later⟩, asked, refused⟩)
    · exact Or.inl (Or.inl (sameRank ▸ lower))
    · exact Or.inl (Or.inr (Nat.lt_of_le_of_lt more stored))
    · exact Or.inr ⟨same, ⟨steady.trans sameRank, more.trans later⟩, asked, refused⟩
  exact leaves stays fair expected now ⟨rfl, Nat.le_refl _⟩

theorem comes_nearer {n : Nat} (cooperative : Cooperative answers first n) {label : Label}
    (now : run main start answers n = .done label) :
    ∃ m, n ≤ m ∧ ∃ next, run main start answers m = .done next ∧
      Nearer label (watchBefore answers first n) next (watchBefore answers first m) := by
  rcases label with ⟨place, toggle, dataSize⟩
  rcases cooperative with ⟨expected, flags, lists⟩
  cases place with
  | usbHotPlug => exact leaves_of_outcome (fun _ => outcome_usbHotPlug) flags expected now
  | statusLoop => exact leaves_of_outcome (fun _ => outcome_statusLoop) flags expected now
  | noDeviceLoop => exact leaves_of_outcome (fun _ => outcome_noDeviceLoop) flags expected now
  | send stage => exact leaves_of_outcome (fun _ => outcome_send) flags expected now
  | messageLoop stage => exact leaves_of_outcome (fun _ => outcome_messageLoop) flags expected now
  | tdListLoop stage => exact leaves_of_outcome (fun _ => outcome_tdListLoop) lists expected now
  | retryLoop => exact leaves_of_outcome (fun _ => outcome_retryLoop) flags expected now
  | poll => exact leaves_of_outcome (fun _ => outcome_poll) flags expected now
  | pollMessageLoop =>
      exact leaves_of_outcome (fun _ => outcome_pollMessageLoop) flags expected now
  | pollTdListLoop => exact leaves_of_outcome (fun _ => outcome_pollTdListLoop) lists expected now
  | removedLoop => exact leaves_of_outcome (fun _ => outcome_removedLoop) flags expected now

theorem stored_succ (n : Nat) :
    (watchBefore answers first n).stored ≤ (watchBefore answers first (n + 1)).stored ∧
      ((watchBefore answers first n).stored < (watchBefore answers first (n + 1)).stored →
        ∃ value, Calls main start answers n (.keycode value)) := by
  rw [watchBefore, seenBefore]
  cases state : run main start answers n with
  | done label => exact ⟨Nat.le_refl _, fun more => absurd more (Nat.lt_irrefl _)⟩
  | call request next =>
      cases request with
      | keycode value => exact ⟨Nat.le_succ _, fun _ => ⟨value, next, state⟩⟩
      | hpi call => exact ⟨Nat.le_refl _, fun more => absurd more (Nat.lt_irrefl _)⟩

theorem stored_mono {n m : Nat} (ordered : n ≤ m) :
    (watchBefore answers first n).stored ≤ (watchBefore answers first m).stored :=
  monotone_nat_of_le_succ (fun k => (stored_succ k).1) ordered

theorem store_between {n m : Nat} (ordered : n ≤ m)
    (more : (watchBefore answers first n).stored < (watchBefore answers first m).stored) :
    ∃ k, n ≤ k ∧ ∃ value, Calls main start answers k (.keycode value) := by
  induction m, ordered using Nat.le_induction with
  | base => exact absurd more (Nat.lt_irrefl _)
  | succ m ordered ih =>
      by_cases earlier : (watchBefore answers first n).stored < (watchBefore answers first m).stored
      · exact ih earlier
      · have here := (stored_succ m).2 (Nat.lt_of_le_of_lt (Nat.le_of_not_lt earlier) more)
        exact ⟨m, ordered, here⟩

theorem stores_more {n : Nat} (cooperative : Cooperative answers first n) {label : Label}
    (now : run main start answers n = .done label) :
    ∃ m, n ≤ m ∧ (watchBefore answers first n).stored < (watchBefore answers first m).stored := by
  generalize distance : rank label (watchBefore answers first n) = r
  induction r using Nat.strong_induction_on generalizing n label with
  | _ r ih =>
      subst distance
      rcases comes_nearer cooperative now with ⟨m, later, next, reached, lower | stored⟩
      · have still : Cooperative answers first m :=
          { cooperative with expected := fun k late => cooperative.expected k (later.trans late) }
        rcases ih _ lower still reached rfl with ⟨k, last, stored⟩
        exact ⟨k, later.trans last, Nat.lt_of_le_of_lt (stored_mono later) stored⟩
      · exact ⟨m, later, stored⟩

theorem stores_after {n : Nat} (cooperative : Cooperative answers first n) (m : Nat) :
    ∃ k, m ≤ k ∧ ∃ value, Calls main start answers k (.keycode value) := by
  rcases reaches_label main start answers (max n m) with ⟨k, late, label, now⟩
  have still : Cooperative answers first k :=
    { cooperative with
      expected := fun j after => cooperative.expected j ((le_max_left n m).trans (late.trans after)) }
  rcases stores_more still now with ⟨last, later, stored⟩
  rcases store_between later stored with ⟨j, after, stores⟩
  exact ⟨j, (le_max_right n m).trans (late.trans after), stores⟩

/-- Once the chip does what it is told and a keyboard is there, reports are read and stored again and
again, whatever went wrong before. -/
theorem keycodes_forever {n : Nat} (cooperative : Cooperative answers first n)
    (address : BitVec 16) (m : Nat) :
    ∃ k, m ≤ k ∧ Calls main start answers k (.hpi (.read hpiData)) ∧
      (progressBefore answers address k).address = 0x051E#16 ∧
        Calls main start answers (k + 1)
          (.keycode (lowByte (answers k (.hpi (.read hpiData))))) := by
  rcases stores_after cooperative (m + 1) with ⟨k, late, value, stores⟩
  rcases exists_read_of_stored address stores with ⟨j, rfl, reads, place, rfl⟩
  exact ⟨j, Nat.le_of_succ_le_succ late, reads, place, stores⟩

theorem keyboard_cooperates (report : BitVec 16) (w : Watch) (request : Request) :
    w.Cooperates request (keyboard report w.address request) := by
  cases request with
  | keycode value => exact trivial
  | hpi call =>
      cases call with
      | write port data => exact trivial
      | read port =>
          refine ⟨?_, ?_, ?_⟩
          · rintro rfl _
            rfl
          · rintro rfl same
            rw [same]
            exact (by decide : aDpStat &&& noDevice ≠ 0#16)
          · rintro rfl same
            rw [same]
            rfl

theorem keyboard_grants (report : BitVec 16) (w : Watch) (request : Request) :
    (AsksStatus w request → GrantsFlag w request (keyboard report w.address request)) ∧
      (AsksMessage w request → GrantsTdListDone w request (keyboard report w.address request)) := by
  constructor
  · rintro rfl
    exact (by decide : hpiStatusSie1msgFlag &&& hpiStatusSie1msgFlag ≠ 0#16)
  · rintro ⟨rfl, same⟩
    rw [same]
    rfl

theorem cooperative_of_keyboard {report : BitVec 16}
    (attends : ∀ k port, Calls main start answers k (.hpi (.read port)) →
      answers k (.hpi (.read port)) =
        keyboard report (watchBefore answers ⟨0#16, 0#16, 0⟩ k).address (.hpi (.read port))) :
    Cooperative answers ⟨0#16, 0#16, 0⟩ 0 := by
  refine ⟨?_, ?_, ?_⟩
  · intro k _ request calls
    rcases request with (⟨port, data⟩ | port) | value
    · exact trivial
    · rw [attends k port calls]
      exact keyboard_cooperates report _ (.hpi (.read port))
    · exact trivial
  · intro n again
    rcases again n (Nat.le_refl n) with ⟨k, late, request, calls, rfl⟩
    refine ⟨k, late, _, calls, rfl, ?_⟩
    rw [attends k hpiStatus calls]
    exact (keyboard_grants report _ _).1 rfl
  · intro n again
    rcases again n (Nat.le_refl n) with ⟨k, late, request, calls, rfl, place⟩
    refine ⟨k, late, _, calls, ⟨rfl, place⟩, ?_⟩
    rw [attends k hpiData calls]
    exact (keyboard_grants report _ _).2 ⟨rfl, place⟩

/-- The answers of a chip that is done at once, with a keyboard that is always there. -/
def attended (report : BitVec 16) : Nat → Answer Request Reply :=
  played main start cooperation (fun w => keyboard report w.address) ⟨0#16, 0#16, 0⟩

theorem attended_eq (report : BitVec 16) (k : Nat) : attended report k =
    keyboard report (watchBefore (attended report) ⟨0#16, 0#16, 0⟩ k).address :=
  congrArg (fun w : Watch => keyboard report w.address) (seenBefore_played main start cooperation
    (fun w => keyboard report w.address) ⟨0#16, 0#16, 0⟩ k).symm

theorem cooperative_attended (report : BitVec 16) :
    Cooperative (attended report) ⟨0#16, 0#16, 0⟩ 0 :=
  cooperative_of_keyboard fun k _ _ => congrFun (attended_eq report k) _

theorem attended_report (report : BitVec 16) (n : Nat)
    (place : (progressBefore (attended report) 0#16 n).address = 0x051E#16) :
    attended report n (.hpi (.read hpiData)) = report := by
  rw [attended_eq, watchBefore_address, place]
  rfl

theorem keycodes_forever_typing :
    ∃ k, 1000 ≤ k ∧ Calls main start (attended 0x001A#16) k (.hpi (.read hpiData)) ∧
      (progressBefore (attended 0x001A#16) 0#16 k).address = 0x051E#16 ∧
        Calls main start (attended 0x001A#16) (k + 1)
          (.keycode (lowByte (attended 0x001A#16 k (.hpi (.read hpiData))))) :=
  keycodes_forever (cooperative_attended 0x001A#16) 0#16 1000

end Runs

end Driver

end FPGAMario
