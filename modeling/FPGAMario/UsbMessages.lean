import FPGAMario.IoHandler

/-! `UsbWaitTDListDone` of `usb.c` against the message register of the EZ-OTG chip: the software
reads and clears the register, and the chip posts messages into it at any moment. -/

namespace FPGAMario

open Hdl

abbrev hpiData : BitVec 8 := 0#8
abbrev hpiAddr : BitVec 8 := 2#8
abbrev hpiSie1MsgAdr : BitVec 16 := 0x0144#16

abbrev husbTDListDone : BitVec 16 := 0x1000#16
abbrev husbSof : BitVec 16 := 0x2000#16

def usbWrite (address data : BitVec 16) : List Call :=
  [.write hpiAddr address, .write hpiData data]

def usbRead (address : BitVec 16) : List Call :=
  [.write hpiAddr address, .read hpiData]

/-- What the software sees of the chip: the address register and the memory behind the data
port. -/
structure Chip where
  address : BitVec 16
  memory : BitVec 16 → BitVec 16

namespace Chip

def store (address data : BitVec 16) (c : Chip) : Chip :=
  { c with memory := fun a => if a = address then data else c.memory a }

def call (c : Chip) : Call → Chip
  | .write port data =>
      if port = hpiAddr then { c with address := data }
      else if port = hpiData then { c.store c.address data with address := c.address + 2#16 }
      else c
  | .read port => if port = hpiData then { c with address := c.address + 2#16 } else c

def message (c : Chip) : BitVec 16 := c.memory hpiSie1MsgAdr

def post (bits : BitVec 16) (c : Chip) : Chip :=
  c.store hpiSie1MsgAdr (c.message ||| bits)

@[simp] theorem message_post (bits : BitVec 16) (c : Chip) :
    (c.post bits).message = c.message ||| bits := by
  simp [post, store, message]

end Chip

/-- `usb_ctl_val = UsbRead(HPI_SIE1_MSG_ADR); UsbWrite(HPI_SIE1_MSG_ADR, 0);` -/
def waitRound : List Call := usbRead hpiSie1MsgAdr ++ usbWrite hpiSie1MsgAdr 0#16

/-- `UsbWaitTDListDone` before call `pc` of a round. -/
structure UsbWait where
  chip : Chip
  pc : Nat
  usbCtlVal : BitVec 16
  returned : Bool

/-- The chip posts messages, or the next call of the software takes effect. -/
inductive WaitEvent
  | post (bits : BitVec 16)
  | call
  deriving DecidableEq, Repr

namespace UsbWait

/-- After the last call of a round the loop looks at the value of its read. -/
def step (event : WaitEvent) (s : UsbWait) : UsbWait :=
  match event with
  | .post bits => { s with chip := s.chip.post bits }
  | .call =>
      if s.returned then s
      else
        match waitRound[s.pc]? with
        | some next =>
            { chip := s.chip.call next
              pc := if s.pc + 1 = waitRound.length then 0 else s.pc + 1
              usbCtlVal :=
                if next = .read hpiData then s.chip.memory s.chip.address else s.usbCtlVal
              returned := decide (s.pc + 1 = waitRound.length ∧ s.usbCtlVal = husbTDListDone) }
        | none => s

def enter (chip : Chip) (usbCtlVal : BitVec 16) : UsbWait := ⟨chip, 0, usbCtlVal, false⟩

abbrev run (start : UsbWait) (events : Nat → WaitEvent) : Nat → UsbWait :=
  Hdl.run step start events

@[simp] theorem step_post (bits : BitVec 16) (s : UsbWait) :
    s.step (.post bits) = { s with chip := s.chip.post bits } := rfl

inductive Calls (s t : UsbWait) : Prop
  | aims (place : s.pc = 0 ∨ s.pc = 2) (pc : t.pc = s.pc + 1)
      (address : t.chip.address = hpiSie1MsgAdr) (message : t.chip.message = s.chip.message)
      (value : t.usbCtlVal = s.usbCtlVal) (returned : t.returned = false)
  | reads (place : s.pc = 1) (pc : t.pc = 2) (message : t.chip.message = s.chip.message)
      (value : t.usbCtlVal = s.chip.message) (returned : t.returned = false)
  | clears (place : s.pc = 3) (pc : t.pc = 0) (message : t.chip.message = 0#16)
      (value : t.usbCtlVal = s.usbCtlVal)
      (returned : t.returned = decide (s.usbCtlVal = husbTDListDone))

structure Aimed (s : UsbWait) : Prop where
  inside : s.pc < 4
  address : s.pc = 1 ∨ s.pc = 3 → s.chip.address = hpiSie1MsgAdr

theorem step_calls {s : UsbWait} (aimed : s.Aimed) (running : s.returned = false) :
    Calls s (s.step .call) := by
  rcases s with ⟨⟨address, memory⟩, pc, usbCtlVal, returned⟩
  rcases aimed with ⟨inside, aimed⟩
  simp only at inside aimed running
  subst running
  interval_cases pc
  · exact .aims (Or.inl rfl) rfl rfl rfl rfl rfl
  · obtain rfl := aimed (Or.inl rfl)
    exact .reads rfl rfl rfl rfl rfl
  · exact .aims (Or.inr rfl) rfl rfl rfl rfl rfl
  · obtain rfl := aimed (Or.inr rfl)
    refine .clears rfl rfl rfl rfl ?_
    simp [step, waitRound, usbRead, usbWrite]

theorem step_aimed {s : UsbWait} (aimed : s.Aimed) (event : WaitEvent) : (s.step event).Aimed := by
  cases event with
  | post bits => exact ⟨aimed.inside, aimed.address⟩
  | call =>
      cases running : s.returned with
      | true =>
          have stays : s.step .call = s := by simp [step, running]
          rwa [stays]
      | false =>
          cases step_calls aimed running with
          | aims place pc address _ _ _ => exact ⟨by omega, fun _ => address⟩
          | reads _ pc _ _ _ => exact ⟨by omega, by omega⟩
          | clears _ pc _ _ _ => exact ⟨by omega, by omega⟩

end UsbWait

section Interleaving

variable (events : Nat → WaitEvent)

def WaitEvent.bits : WaitEvent → BitVec 16
  | .post bits => bits
  | .call => 0#16

def callsBefore (n : Nat) : Nat := Nat.count (fun k => events k = .call) n

/-- Event `n` is a read of the message register; the second call of every round is. -/
def Reads (n : Nat) : Prop := events n = .call ∧ callsBefore events n % 4 = 1

/-- Event `n` is a clearing write; the last call of every round is. -/
def Clears (n : Nat) : Prop := events n = .call ∧ callsBefore events n % 4 = 3

def posted (first : Nat) : Nat → BitVec 16
  | 0 => 0#16
  | n + 1 => if first ≤ n then posted first n ||| (events n).bits else 0#16

/-- Everything posted since the last clearing write before event `n`, or since ever. -/
inductive Collected (chip : Chip) (n : Nat) : BitVec 16 → Prop
  | cleared {c : Nat} (last : LastBefore (Clears events) n c) :
      Collected chip n (posted events (c + 1) n)
  | never (uncleared : ∀ c, c < n → ¬ Clears events c) :
      Collected chip n (chip.message ||| posted events 0 n)

variable {events}

theorem callsBefore_post {n : Nat} {bits : BitVec 16} (posts : events n = .post bits) :
    callsBefore events (n + 1) = callsBefore events n := by
  simp [callsBefore, Nat.count_succ, posts]

theorem callsBefore_call {n : Nat} (calls : events n = .call) :
    callsBefore events (n + 1) = callsBefore events n + 1 := by
  simp [callsBefore, Nat.count_succ, calls]

theorem posted_self (n : Nat) : posted events n n = 0#16 := by
  cases n with
  | zero => rfl
  | succ n => exact if_neg (Nat.not_succ_le_self n)

theorem posted_succ {first n : Nat} (ordered : first ≤ n) :
    posted events first (n + 1) = posted events first n ||| (events n).bits := if_pos ordered

namespace Collected

variable {chip : Chip} {n : Nat} {messages : BitVec 16}

theorem initial : Collected events chip 0 chip.message := by
  have nothing : chip.message ||| posted events 0 0 = chip.message := BitVec.or_zero
  have collected : Collected events chip 0 (chip.message ||| posted events 0 0) :=
    .never (fun c before => absurd before (Nat.not_lt_zero c))
  rwa [nothing] at collected

theorem unique {others : BitVec 16} (left : Collected events chip n messages)
    (right : Collected events chip n others) : messages = others := by
  cases left with
  | cleared last =>
      cases right with
      | cleared again => rw [last.unique again]
      | never uncleared => exact absurd last.occurs (uncleared _ last.before)
  | never uncleared =>
      cases right with
      | cleared last => exact absurd last.occurs (uncleared _ last.before)
      | never _ => rfl

theorem next (kept : ¬ Clears events n) (collected : Collected events chip n messages) :
    Collected events chip (n + 1) (messages ||| (events n).bits) := by
  cases collected with
  | cleared last =>
      rw [← posted_succ last.before]
      exact .cleared (last.later kept)
  | never uncleared =>
      rw [BitVec.or_assoc, ← posted_succ (Nat.zero_le n)]
      refine .never ?_
      intro c before
      rcases Nat.lt_succ_iff_lt_or_eq.mp before with earlier | rfl
      · exact uncleared c earlier
      · exact kept

theorem clear (clears : Clears events n) : Collected events chip (n + 1) 0#16 := by
  rw [← posted_self (n + 1)]
  exact .cleared (.here clears)

end Collected

theorem post_or_call (events : Nat → WaitEvent) (n : Nat) :
    (∃ bits, events n = .post bits) ∨ events n = .call := by
  cases events n with
  | post bits => exact Or.inl ⟨bits, rfl⟩
  | call => exact Or.inr rfl

theorem callsBefore_quiet {n m : Nat} (ordered : n ≤ m)
    (quiet : ∀ k, n ≤ k → k < m → events k ≠ .call) :
    callsBefore events m = callsBefore events n := by
  induction m, ordered using Nat.le_induction with
  | base => rfl
  | succ m ordered ih =>
      have before := ih (fun k low high => quiet k low (Nat.lt_succ_of_lt high))
      rcases post_or_call events m with ⟨bits, posts⟩ | calls
      · rw [callsBefore_post posts, before]
      · exact absurd calls (quiet m ordered (Nat.lt_succ_self m))

def Fair (events : Nat → WaitEvent) : Prop := ∀ n, ∃ m, n ≤ m ∧ events m = .call

theorem Fair.next_call (fair : Fair events) (n : Nat) :
    ∃ m, n ≤ m ∧ events m = .call ∧ callsBefore events m = callsBefore events n ∧
      ∀ k, n ≤ k → k < m → events k ≠ .call := by
  have due := fair n
  have found := Nat.find_spec due
  have earliest : ∀ k, n ≤ k → k < Nat.find due → events k ≠ .call := by
    intro k low high calls
    exact Nat.find_min due high ⟨low, calls⟩
  exact ⟨Nat.find due, found.1, found.2, callsBefore_quiet found.1 earliest, earliest⟩

/-- Two calls, and no others before the second. -/
theorem Fair.next_calls (fair : Fair events) (n : Nat) :
    ∃ first second, n ≤ first ∧ first < second ∧
      (events first = .call ∧ callsBefore events first = callsBefore events n) ∧
      (events second = .call ∧ callsBefore events second = callsBefore events n + 1) ∧
      ∀ j, n ≤ j → j < second → events j = .call → j = first := by
  rcases fair.next_call n with ⟨first, after, calls, place, quiet⟩
  rcases fair.next_call (first + 1) with ⟨second, later, again, placeAgain, quietAgain⟩
  have number := callsBefore_call calls
  refine ⟨first, second, after, later, ⟨calls, place⟩, ⟨again, by omega⟩, ?_⟩
  intro j low high called
  rcases Nat.lt_trichotomy j first with earlier | same | beyond
  · exact absurd called (quiet j low earlier)
  · exact same
  · exact absurd called (quietAgain j beyond high)

theorem Fair.next_clear (fair : Fair events) {r : Nat} (reads : Reads events r) :
    ∃ m, Clears events m ∧ LastBefore (Reads events) m r ∧
      ∀ c, r < c → c < m → ¬ Clears events c := by
  have odd := reads.2
  have number := callsBefore_call reads.1
  rcases fair.next_calls (r + 1) with
    ⟨aim, m, after, later, ⟨-, place⟩, ⟨clears, last⟩, only⟩
  refine ⟨m, ⟨clears, by omega⟩, ⟨by omega, reads, ?_⟩, ?_⟩
  · rintro j beyond before ⟨calls, other⟩
    obtain rfl := only j beyond before calls
    omega
  · rintro c beyond before ⟨calls, other⟩
    obtain rfl := only c beyond before calls
    omega

/-- Read `r` sees what event `p` has posted: no clearing write comes between. -/
def Catches (events : Nat → WaitEvent) (p r : Nat) : Prop :=
  p < r ∧ Reads events r ∧ ∀ c, p < c → c < r → ¬ Clears events c

theorem ne_of_post {p n : Nat} {bits : BitVec 16} (posts : events p = .post bits)
    (calls : events n = .call) : n ≠ p := by
  rintro rfl
  rw [posts] at calls
  cases calls

/-- A post is seen by some read exactly if it does not fall between the read of a round and the
clearing write after it. -/
theorem post_caught_iff (fair : Fair events) {p : Nat} {bits : BitVec 16}
    (posts : events p = .post bits) :
    (∃ r, Catches events p r) ↔ callsBefore events p % 4 < 2 := by
  rcases fair.next_calls p with
    ⟨first, second, after, later, ⟨calls, place⟩, ⟨again, placeAgain⟩, only⟩
  have beyond : first ≠ p := ne_of_post posts calls
  constructor
  · rintro ⟨r, seen, ⟨reads, odd⟩, uncleared⟩
    by_contra late
    -- The clearing write of the round comes first or second, and the read is neither.
    have behind : second < r := by
      by_contra before
      rcases Nat.lt_or_eq_of_le (Nat.not_lt.mp before) with earlier | rfl
      · obtain rfl := only r seen.le earlier reads
        omega
      · omega
    have aims : ¬ Clears events first := uncleared first (by omega) (by omega)
    have clears : ¬ Clears events second := uncleared second (by omega) behind
    rw [Clears, place] at aims
    rw [Clears, placeAgain] at clears
    have unclearing : callsBefore events p % 4 ≠ 3 := fun same => aims ⟨calls, same⟩
    have unaimed : (callsBefore events p + 1) % 4 ≠ 3 := fun same => clears ⟨again, same⟩
    omega
  · intro early
    by_cases aimed : callsBefore events p % 4 = 1
    · refine ⟨first, by omega, ⟨calls, by omega⟩, ?_⟩
      rintro c beyond before ⟨called, -⟩
      exact absurd (only c beyond.le (before.trans later) called) before.ne
    · refine ⟨second, by omega, ⟨again, by omega⟩, ?_⟩
      rintro c beyond before ⟨called, third⟩
      obtain rfl := only c beyond.le before called
      omega

end Interleaving

namespace UsbWait

variable {chip : Chip} {events : Nat → WaitEvent} {s : UsbWait} {n : Nat}

structure Waits (chip : Chip) (events : Nat → WaitEvent) (n : Nat) (s : UsbWait) : Prop where
  aimed : s.Aimed
  place : s.pc = callsBefore events n % 4
  collected : Collected events chip n s.chip.message
  value : s.pc = 2 ∨ s.pc = 3 →
    ∃ r, LastBefore (Reads events) n r ∧ Collected events chip r s.usbCtlVal

theorem enter_waits (usbCtlVal : BitVec 16) : (enter chip usbCtlVal).Waits chip events 0 where
  aimed := ⟨Nat.zero_lt_succ 3, fun middle => by simp [enter] at middle⟩
  place := rfl
  collected := .initial
  value middle := by simp [enter] at middle

theorem Waits.step (waits : s.Waits chip events n) (running : s.returned = false) :
    (s.step (events n)).Waits chip events (n + 1) := by
  have aimed := step_aimed waits.aimed (events n)
  have place := waits.place
  rcases post_or_call events n with ⟨bits, posts⟩ | calls
  · have silent : ¬ Reads events n := fun reads => by simp [Reads, posts] at reads
    have kept : ¬ Clears events n := fun clears => by simp [Clears, posts] at clears
    have collected := waits.collected.next kept
    rw [posts] at aimed collected ⊢
    refine ⟨aimed, ?_, ?_, ?_⟩
    · rw [callsBefore_post posts]
      exact place
    · rw [step_post, Chip.message_post]
      exact collected
    · intro middle
      rcases waits.value middle with ⟨r, last, value⟩
      exact ⟨r, last.later silent, value⟩
  · have number := callsBefore_call calls
    have collected (kept : ¬ Clears events n) :
        Collected events chip (n + 1) s.chip.message := by
      have next := waits.collected.next kept
      rwa [calls, WaitEvent.bits, BitVec.or_zero] at next
    have next := step_calls waits.aimed running
    rw [calls] at aimed ⊢
    generalize s.step .call = t at *
    cases next with
    | aims even pc _ message value _ =>
        have silent : ¬ Reads events n := fun reads => by
          have odd := reads.2
          omega
        have kept : ¬ Clears events n := fun clears => by
          have odd := clears.2
          omega
        refine ⟨aimed, by omega, message ▸ collected kept, ?_⟩
        intro middle
        rcases waits.value (by omega) with ⟨r, last, now⟩
        exact ⟨r, last.later silent, value ▸ now⟩
    | reads first pc message value _ =>
        have reads : Reads events n := ⟨calls, by omega⟩
        have kept : ¬ Clears events n := fun clears => by
          have third := clears.2
          omega
        exact ⟨aimed, by omega, message ▸ collected kept,
          fun _ => ⟨n, .here reads, value ▸ waits.collected⟩⟩
    | clears third pc message _ _ =>
        have clears : Clears events n := ⟨calls, by omega⟩
        exact ⟨aimed, by omega, message ▸ .clear clears, by omega⟩

theorem Waits.returns_iff (waits : s.Waits chip events n) (running : s.returned = false) :
    (s.step (events n)).returned = true ↔ Clears events n ∧ s.usbCtlVal = husbTDListDone := by
  have place := waits.place
  rcases post_or_call events n with ⟨bits, posts⟩ | calls
  · rw [posts, step_post]
    refine iff_of_false (by simp [running]) ?_
    intro both
    simp [Clears, posts] at both
  · have next := step_calls waits.aimed running
    rw [calls]
    generalize s.step .call = t at *
    cases next with
    | aims even _ _ _ _ returned =>
        refine iff_of_false (by simp [returned]) ?_
        intro both
        have odd := both.1.2
        omega
    | reads first _ _ _ returned =>
        refine iff_of_false (by simp [returned]) ?_
        intro both
        have third := both.1.2
        omega
    | clears third _ _ _ returned =>
        rw [returned, decide_eq_true_iff]
        exact ⟨fun done => ⟨⟨calls, by omega⟩, done⟩, fun both => both.2⟩

section Runs

variable (chip events) (usbCtlVal : BitVec 16)

theorem returned_later {n : Nat} (returned : (run (enter chip usbCtlVal) events n).returned = true) :
    (run (enter chip usbCtlVal) events (n + 1)).returned = true := by
  rw [run, Hdl.run_succ]
  cases events n with
  | post bits => exact returned
  | call => simp [step, returned]

theorem run_waits (n : Nat) (running : (run (enter chip usbCtlVal) events n).returned = false) :
    (run (enter chip usbCtlVal) events n).Waits chip events n := by
  induction n with
  | zero => exact enter_waits usbCtlVal
  | succ n ih =>
      have before : (run (enter chip usbCtlVal) events n).returned = false := by
        rw [← Bool.not_eq_true]
        intro returned
        have later := returned_later chip events usbCtlVal returned
        rw [running] at later
        exact Bool.noConfusion later
      exact (ih before).step before

def ReadsAlone (r : Nat) : Prop := Reads events r ∧ Collected events chip r husbTDListDone

theorem readsAlone_of_returned (n : Nat)
    (returned : (run (enter chip usbCtlVal) events n).returned = true) :
    ∃ r, ReadsAlone chip events r := by
  induction n with
  | zero => exact Bool.noConfusion returned
  | succ n ih =>
      cases before : (run (enter chip usbCtlVal) events n).returned with
      | true => exact ih before
      | false =>
          have waits := run_waits chip events usbCtlVal n before
          rcases (waits.returns_iff before).mp returned with ⟨clears, done⟩
          have place := waits.place
          have third := clears.2
          rcases waits.value (by omega) with ⟨r, last, value⟩
          exact ⟨r, last.occurs, done ▸ value⟩

theorem returned_of_readsAlone (fair : Fair events) (r : Nat)
    (alone : ReadsAlone chip events r) :
    ∃ n, (run (enter chip usbCtlVal) events n).returned = true := by
  rcases fair.next_clear alone.1 with ⟨m, clears, last, -⟩
  cases running : (run (enter chip usbCtlVal) events m).returned with
  | true => exact ⟨m, running⟩
  | false =>
      have waits := run_waits chip events usbCtlVal m running
      have place := waits.place
      have third := clears.2
      rcases waits.value (by omega) with ⟨r', again, value⟩
      rw [again.unique last] at value
      have done := value.unique alone.2
      exact ⟨m + 1, (waits.returns_iff running).mpr ⟨clears, done⟩⟩

def Carries (messages : BitVec 16) : Prop := messages &&& husbTDListDone ≠ 0#16

instance (messages : BitVec 16) : Decidable (Carries messages) :=
  inferInstanceAs (Decidable (_ ≠ _))

/-- If `HUSB_TDListDone` is in the register when the function is called, or is posted before it
returns, it does return. -/
def Delivered : Prop :=
  (Carries chip.message ∨ ∃ n, (run (enter chip usbCtlVal) events n).returned = false ∧
      Carries (events n).bits) →
    ∃ n, (run (enter chip usbCtlVal) events n).returned = true

def Posted : Prop := Carries chip.message ∨ ∃ n, Carries (events n).bits

variable {chip events}

theorem delivered_iff_readsAlone (fair : Fair events) (posted : Posted chip events) :
    Delivered chip events usbCtlVal ↔ ∃ r, ReadsAlone chip events r := by
  constructor
  · intro delivered
    have returns : ∃ n, (run (enter chip usbCtlVal) events n).returned = true := by
      by_contra never
      apply never
      apply delivered
      rcases posted with before | ⟨n, now⟩
      · exact Or.inl before
      · refine Or.inr ⟨n, ?_, now⟩
        rw [← Bool.not_eq_true]
        exact fun returned => never ⟨n, returned⟩
    rcases returns with ⟨n, returned⟩
    exact readsAlone_of_returned chip events usbCtlVal n returned
  · intro alone _
    rcases alone with ⟨r, reads⟩
    exact returned_of_readsAlone chip events usbCtlVal fair r reads

variable (chip events)

/-- However the posts of the chip fall between the steps of the software, the message is not lost
exactly if it is not posted at all or some read finds it alone: posted, and nothing else, since
the clearing write before that read. -/
theorem tdListDone_delivered_iff (fair : Fair events) :
    Delivered chip events usbCtlVal ↔
      (Posted chip events → ∃ r, ReadsAlone chip events r) := by
  by_cases posted : Posted chip events
  · rw [delivered_iff_readsAlone usbCtlVal fair posted]
    exact ⟨fun alone _ => alone, fun alone => alone posted⟩
  · refine iff_of_true ?_ (fun now => absurd now posted)
    intro present
    apply absurd _ posted
    rcases present with before | ⟨n, -, now⟩
    · exact Or.inl before
    · exact Or.inr ⟨n, now⟩

def holding (messages : BitVec 16) : Chip := ⟨0#16, fun _ => messages⟩

def postedOnce (moment : Nat) (messages : BitVec 16) (n : Nat) : WaitEvent :=
  if n = moment then .post messages else .call

theorem postedOnce_fair (moment : Nat) (messages : BitVec 16) :
    Fair (postedOnce moment messages) := by
  intro n
  by_cases before : n ≤ moment
  · exact ⟨moment + 1, by omega, if_neg (Nat.succ_ne_self moment)⟩
  · exact ⟨n, Nat.le_refl n, if_neg (by omega)⟩

theorem tdListDone_delivered_iff_prompt :
    Delivered (holding 0#16) (postedOnce 0 husbTDListDone) 0#16 ↔
      (Posted (holding 0#16) (postedOnce 0 husbTDListDone) →
        ∃ r, ReadsAlone (holding 0#16) (postedOnce 0 husbTDListDone) r) :=
  tdListDone_delivered_iff _ _ 0#16 (postedOnce_fair 0 husbTDListDone)

/-- The loop is left at the clearing write after read `r`, so by the value of this read. -/
def LeftBy (r : Nat) : Prop :=
  ∃ n, LastBefore (Reads events) n r ∧
    (run (enter chip usbCtlVal) events n).returned = false ∧
    (run (enter chip usbCtlVal) events (n + 1)).returned = true

variable {chip events}

theorem running_until {p m : Nat} (ordered : p ≤ m)
    (running : (run (enter chip usbCtlVal) events p).returned = false)
    (uncleared : ∀ c, p ≤ c → c < m → ¬ Clears events c) :
    (run (enter chip usbCtlVal) events m).returned = false := by
  induction m, ordered using Nat.le_induction with
  | base => exact running
  | succ m ordered ih =>
      have before := ih fun c after earlier => uncleared c after (Nat.lt_succ_of_lt earlier)
      rw [← Bool.not_eq_true]
      intro returned
      have clears := ((run_waits chip events usbCtlVal m before).returns_iff before).mp returned
      exact uncleared m ordered (Nat.lt_succ_self m) clears.1

/-- One message: while the loop runs, it is left by the read that sees the message exactly if this
read finds `HUSB_TDListDone` and nothing else. -/
theorem post_received_iff (fair : Fair events) {p r : Nat} {bits : BitVec 16}
    (posts : events p = .post bits)
    (running : (run (enter chip usbCtlVal) events p).returned = false)
    (catches : Catches events p r) :
    LeftBy chip events usbCtlVal r ↔ Collected events chip r husbTDListDone := by
  rcases catches with ⟨after, reads, uncleared⟩
  constructor
  · rintro ⟨n, last, before, returned⟩
    have waits := run_waits chip events usbCtlVal n before
    rcases (waits.returns_iff before).mp returned with ⟨clears, done⟩
    have place := waits.place
    have third := clears.2
    rcases waits.value (by omega) with ⟨r', again, value⟩
    rwa [again.unique last, done] at value
  · intro alone
    rcases fair.next_clear reads with ⟨m, clears, last, rest⟩
    have before : (run (enter chip usbCtlVal) events m).returned = false := by
      apply running_until usbCtlVal (after.trans last.before).le running
      intro c later earlier called
      rcases Nat.lt_or_eq_of_le later with beyond | rfl
      · rcases Nat.lt_trichotomy c r with soon | rfl | late
        · exact uncleared c beyond soon called
        · have odd := reads.2
          have third := called.2
          omega
        · exact rest c late earlier called
      · exact absurd rfl (ne_of_post posts called.1)
    have waits := run_waits chip events usbCtlVal m before
    have place := waits.place
    have third := clears.2
    rcases waits.value (by omega) with ⟨r', again, value⟩
    rw [again.unique last] at value
    exact ⟨m, last, before, (waits.returns_iff before).mpr ⟨clears, value.unique alone⟩⟩

end Runs

section Lost

variable (moment : Nat) (messages : BitVec 16)

theorem posted_postedOnce (first n : Nat) : posted (postedOnce moment messages) first n =
    if first ≤ moment ∧ moment < n then messages else 0#16 := by
  induction n with
  | zero => rw [posted, if_neg (by omega)]
  | succ n ih =>
      have bits : (postedOnce moment messages n).bits =
          if n = moment then messages else 0#16 := by
        rw [postedOnce]
        split <;> rfl
      rw [posted, ih, bits]
      by_cases now : n = moment
      · subst now
        by_cases ordered : first ≤ n <;> simp [ordered]
      · rw [if_neg now, BitVec.or_zero]
        by_cases earlier : first ≤ moment ∧ moment < n
        · rw [if_pos earlier, if_pos (by omega), if_pos (by omega)]
        · rw [if_neg earlier, ite_self, if_neg (by omega)]

theorem callsBefore_postedOnce (n : Nat) :
    callsBefore (postedOnce moment messages) n = if n ≤ moment then n else n - 1 := by
  induction n with
  | zero => simp [callsBefore]
  | succ n ih =>
      by_cases now : n = moment
      · have posts : postedOnce moment messages n = .post messages := if_pos now
        rw [callsBefore_post posts, ih, if_pos now.le, if_neg (by omega)]
        rfl
      · have calls : postedOnce moment messages n = .call := if_neg now
        rw [callsBefore_call calls, ih]
        split <;> split <;> omega

theorem clears_postedOnce (n : Nat) : Clears (postedOnce moment messages) n ↔
    n < moment ∧ n % 4 = 3 ∨ moment < n ∧ (n - 1) % 4 = 3 := by
  rw [Clears, callsBefore_postedOnce, postedOnce]
  split
  · simp_all
  · split
    · simp
      omega
    · simp
      omega

/-- A message posted into the empty register arrives exactly if it comes before the read of a
round, and alone. -/
theorem postedOnce_readsAlone_iff :
    (∃ r, ReadsAlone (holding 0#16) (postedOnce moment messages) r) ↔
      moment % 4 < 2 ∧ messages = husbTDListDone := by
  have number := callsBefore_postedOnce moment messages
  have clears := clears_postedOnce moment messages
  constructor
  · intro arrives
    rcases arrives with ⟨r, ⟨calls, odd⟩, collected⟩
    rw [number] at odd
    generalize alone : husbTDListDone = done at collected
    cases collected with
    | cleared last =>
        rename_i c
        rw [posted_postedOnce] at alone
        split at alone
        · next inside =>
            rw [if_neg (by omega)] at odd
            refine ⟨?_, by rw [posted_postedOnce, if_pos inside]⟩
            by_contra late
            have again : Clears (postedOnce moment messages) (r - 2) :=
              (clears (r - 2)).mpr (Or.inr (by omega))
            exact last.after (r - 2) (by omega) (by omega) again
        · exact absurd alone (by decide)
    | never uncleared =>
        have empty : (holding 0#16).message = 0#16 := rfl
        rw [posted_postedOnce, empty, BitVec.zero_or] at alone
        split at alone
        · next inside =>
            rw [if_neg (by omega)] at odd
            refine ⟨?_, by rw [posted_postedOnce, if_pos inside, empty, BitVec.zero_or]⟩
            by_contra late
            have cleared : Clears (postedOnce moment messages) (r - 2) :=
              (clears (r - 2)).mpr (Or.inr (by omega))
            exact uncleared (r - 2) (by omega) cleared
        · exact absurd alone (by decide)
  · intro alone
    rcases alone with ⟨early, rfl⟩
    refine ⟨4 * (moment / 4) + 2, ⟨if_neg (by omega), ?_⟩, ?_⟩
    · rw [number, if_neg (by omega)]
      omega
    · by_cases first : moment < 4
      · have collected : Collected (postedOnce moment husbTDListDone) (holding 0#16)
            (4 * (moment / 4) + 2) _ := .never (by
          intro c before
          rw [clears]
          omega)
        rw [posted_postedOnce, if_pos (by omega)] at collected
        exact collected
      · have last : LastBefore (Clears (postedOnce moment husbTDListDone))
            (4 * (moment / 4) + 2) (4 * (moment / 4) - 1) := by
          refine ⟨by omega, (clears _).mpr (by omega), ?_⟩
          intro j after before
          rw [clears]
          omega
        have collected : Collected (postedOnce moment husbTDListDone) (holding 0#16)
            (4 * (moment / 4) + 2) _ := .cleared last
        rw [posted_postedOnce, if_pos (by omega)] at collected
        exact collected

theorem postedOnce_delivered_iff (carries : Carries messages) (usbCtlVal : BitVec 16) :
    Delivered (holding 0#16) (postedOnce moment messages) usbCtlVal ↔
      moment % 4 < 2 ∧ messages = husbTDListDone := by
  have posted : Posted (holding 0#16) (postedOnce moment messages) := by
    refine Or.inr ⟨moment, ?_⟩
    rwa [postedOnce, if_pos rfl]
  rw [delivered_iff_readsAlone usbCtlVal (postedOnce_fair moment messages) posted,
    postedOnce_readsAlone_iff]

/-- What is posted between the first read and the clearing write after it is lost; so is what
shares the register with another message. -/
theorem tdListDone_lost : ¬ Delivered (holding 0#16) (postedOnce 2 husbTDListDone) 0#16 ∧
    ¬ Delivered (holding 0#16) (postedOnce 0 (husbTDListDone ||| husbSof)) 0#16 := by
  rw [postedOnce_delivered_iff, postedOnce_delivered_iff]
  all_goals decide

end Lost

end UsbWait

end FPGAMario
