import FPGAMario.Hdl.Strobe
import FPGAMario.HpiBus
import FPGAMario.Restart

/-! The bridge under the resets of the game: which `IO_write` calls still reach the chip as one
strobe. -/

namespace FPGAMario

open Hdl

namespace Usb

structure Span (states : Nat → Usb) (i first last : Nat) : Prop where
  indexFirst : (states first).nios.index = i + 1
  pcFirst : (states first).nios.pc = 0
  indexLast : (states last).nios.index = i + 2
  pcLast : (states last).nios.pc = 0

/-- What the chip sees of an `IO_write`: one strobe, with the select and the right address. -/
structure StrobedOnce (calls : Nat → Call) (states : Nat → Usb) (i first last : Nat) : Prop where
  once : ∃! ends : Nat × Nat,
    LowPulse (fun k => (states k).bridge.otgWrN) ends.1 ends.2 ∧ first ≤ ends.1 ∧ ends.2 ≤ last
  selected : ∀ k, first ≤ k → k ≤ last → (states k).bridge.otgWrN = false →
    (states k).bridge.otgCsN = false ∧ (states k).bridge.otgAddr = (calls i).port

/-- Every finished `IO_write` is one strobe, and after `IO_init` the strobe is low for an
`IO_write` only. -/
structure Uncorrupted (calls : Nat → Call) (states : Nat → Usb) : Prop where
  strobed : ∀ i first last, (calls i).writes = true → Span states i first last →
    StrobedOnce calls states i first last
  otherwise : ∀ n, 0 < (states n).nios.index → (states n).bridge.otgWrN = false →
    ∃ call, (states n).current calls = some call ∧ call.writes = true

/-- Some cycle in which the software holds its strobe low is free of Reset, and no Reset comes
between two such cycles. -/
structure Spared (resets : Nat → Bool) (states : Nat → Usb) (first last : Nat) : Prop where
  seen : ∃ k, first ≤ k ∧ k < last ∧ (states k).nios.ports.w = false ∧ resets k = false
  whole : ∀ i j k, first ≤ i → i < j → j < k → k < last →
    (states i).nios.ports.w = false → resets i = false →
    (states k).nios.ports.w = false → resets k = false → resets j = false

theorem wrN_low_iff {calls : Nat → Call} {start : Usb} {inputs : Nat → UsbInput} (k : Nat) :
    (run calls start inputs (k + 1)).bridge.otgWrN = false ↔
      (inputs k).reset = false ∧ (run calls start inputs k).nios.ports.w = false := by
  rw [run_otgWrN, Bool.or_eq_false_iff]

section Span

variable {calls : Nat → Call} {start : Usb} (fresh : start.nios.AtPowerUp)
  {inputs : Nat → UsbInput}

include fresh

theorem high_at_start {n i : Nat} (index : (run calls start inputs n).nios.index = i + 1)
    (pc : (run calls start inputs n).nios.pc = 0) :
    (run calls start inputs n).bridge.otgWrN = true := by
  cases n with
  | zero =>
      have none : start.nios.index = 0 := fresh.1
      change start.nios.index = i + 1 at index
      omega
  | succ n =>
      rw [run_otgWrN, Bool.or_eq_true]
      refine Or.inr ?_
      rw [← Bool.not_eq_false]
      intro low
      rcases strobe_call fresh (by omega) (Or.inr low) with ⟨j, before, phase⟩
      have inside := phase.strobe_inside (Or.inr low)
      have forth := (run_advance calls start inputs n).inside_next
        (by rw [before, program, Call.accesses_length]; omega)
      omega

variable {i first last : Nat} (span : Span (run calls start inputs) i first last)

include span

omit fresh in
theorem Span.ordered : first < last := by
  by_contra late
  have reached : (run calls start inputs last).nios.Reached (i + 2) 0 :=
    Or.inr ⟨span.indexLast, Nat.zero_le _⟩
  have later := run_reached (Nat.le_of_not_lt late) reached
  rw [Nios.Reached, span.indexFirst] at later
  omega

theorem Span.w_low_iff {k : Nat} (after : first ≤ k) (before : k ≤ last) :
    (run calls start inputs k).nios.ports.w = false ↔
      (calls i).writes = true ∧ (run calls start inputs k).nios.Reached (i + 1) 4 ∧
        ¬ (run calls start inputs k).nios.Reached (i + 1) 6 := by
  have begun : (run calls start inputs k).nios.Reached (i + 1) 0 :=
    run_reached after (Or.inr ⟨span.indexFirst, Nat.zero_le _⟩)
  have unfinished : ¬ (run calls start inputs k).nios.Reached (i + 2) 1 := by
    intro reached
    have late := run_reached before reached
    rw [Nios.Reached, span.indexLast, span.pcLast] at late
    omega
  have phase := run_phase fresh calls inputs k
  rw [Nios.Reached] at begun unfinished ⊢
  rw [Nios.Reached]
  rcases Nat.lt_or_eq_of_le (show i + 1 ≤ (run calls start inputs k).nios.index by omega) with
    ended | same
  · have index : (run calls start inputs k).nios.index = i + 1 + 1 := by omega
    rw [(phase.call index).w_low_iff, index]
    omega
  · rw [(phase.call same.symm).w_low_iff, ← same]
    constructor
    · intro inside
      exact ⟨inside.1, by omega, by omega⟩
    · intro inside
      exact ⟨inside.1, by omega, by omega⟩

theorem Span.w_convex {j k m : Nat} (after : first ≤ j) (left : j < k) (right : k < m)
    (before : m ≤ last) (lowLeft : (run calls start inputs j).nios.ports.w = false)
    (lowRight : (run calls start inputs m).nios.ports.w = false) :
    (run calls start inputs k).nios.ports.w = false := by
  rw [span.w_low_iff fresh after (by omega)] at lowLeft
  rw [span.w_low_iff fresh (by omega) before] at lowRight
  rw [span.w_low_iff fresh (by omega) (by omega)]
  refine ⟨lowLeft.1, run_reached left.le lowLeft.2.1, ?_⟩
  intro ended
  exact lowRight.2.2 (run_reached right.le ended)

theorem Span.selected {k : Nat} (after : first ≤ k) (before : k ≤ last)
    (low : (run calls start inputs k).bridge.otgWrN = false) :
    (run calls start inputs k).bridge.otgCsN = false ∧
      (run calls start inputs k).bridge.otgAddr = (calls i).port := by
  rcases Nat.lt_or_eq_of_le after with later | rfl
  · obtain ⟨m, rfl⟩ : ∃ m, k = m + 1 := ⟨k - 1, by omega⟩
    rcases (wrN_low_iff m).mp low with ⟨running, held⟩
    rcases (span.w_low_iff fresh (by omega) (by omega)).mp held with ⟨-, fourth, sixth⟩
    rw [Nios.Reached] at fourth sixth
    have phase := (run_phase fresh calls inputs m).call (i := i) (by omega)
    constructor
    · rw [run_otgCsN, running, phase.cs, Bool.false_or, decide_eq_false]
      omega
    · rw [run_otgAddr calls start inputs m running]
      apply phase.address
      omega
  · rw [high_at_start fresh span.indexFirst span.pcFirst] at low
    contradiction

/-- A finished `IO_write` is one strobe exactly if it is spared. -/
theorem Span.strobedOnce_iff :
    StrobedOnce calls (run calls start inputs) i first last ↔
      Spared (fun k => (inputs k).reset) (run calls start inputs) first last := by
  have pulses := existsUnique_lowPulse_registered_iff
    (fun k => (run calls start inputs k).bridge.otgWrN) wrN_low_iff
    (high_at_start fresh span.indexFirst span.pcFirst)
    (high_at_start fresh (i := i + 1) span.indexLast span.pcLast)
  constructor
  · intro strobed
    rcases pulses.mp strobed.once with ⟨⟨k, after, before, running, held⟩, convex⟩
    refine ⟨⟨k, after, before, held, running⟩, ?_⟩
    intro j k m after left right before heldLeft runningLeft heldRight runningRight
    exact (convex j k m after left right before ⟨runningLeft, heldLeft⟩
      ⟨runningRight, heldRight⟩).1
  · intro spared
    rcases spared.seen with ⟨k, after, before, held, running⟩
    refine ⟨pulses.mpr ⟨⟨k, after, before, running, held⟩, ?_⟩, ?_⟩
    · intro j k m after left right before lowLeft lowRight
      constructor
      · exact spared.whole j k m after left right before lowLeft.2 lowLeft.1 lowRight.2 lowRight.1
      · exact span.w_convex fresh after left right before.le lowLeft.2 lowRight.2
    · intro k after before low
      exact span.selected fresh after before low

end Span

section Game

/-- The inputs of the bridge under a run of the game: its Reset is the `Reset_h` of the top
level. -/
def underGame (board : Board) (game : Toplevel) (keys : Nat → Input) (accesses : Nat → Bool)
    (chipData : Nat → BitVec 16) (n : Nat) : UsbInput where
  reset := (Toplevel.run board game keys n).game.resetH
  access := accesses n
  chipData := chipData n

theorem uncorrupted_iff (board : Board) (game : Toplevel) (keys : Nat → Input)
    (calls : Nat → Call) (start : Usb) (fresh : start.nios.AtPowerUp) (accesses : Nat → Bool)
    (chipData : Nat → BitVec 16) :
    Uncorrupted calls (run calls start (underGame board game keys accesses chipData)) ↔
      ∀ i first last, (calls i).writes = true →
        Span (run calls start (underGame board game keys accesses chipData)) i first last →
        Spared (fun n => (Toplevel.run board game keys n).game.resetH)
          (run calls start (underGame board game keys accesses chipData)) first last := by
  constructor
  · intro uncorrupted i first last writes span
    exact (span.strobedOnce_iff fresh).mp (uncorrupted.strobed i first last writes span)
  · intro spared
    constructor
    · intro i first last writes span
      exact (span.strobedOnce_iff fresh).mpr (spared i first last writes span)
    · intro n begun low
      cases n with
      | zero =>
          have none : start.nios.index = 0 := fresh.1
          change 0 < start.nios.index at begun
          omega
      | succ n =>
          have held := ((wrN_low_iff n).mp low).2
          rcases strobe_call fresh begun (Or.inr held) with ⟨i, index, phase⟩
          rcases phase.w_low_iff.mp held with ⟨writes, inside⟩
          have next := (port_steady fresh index inside).2.2.1
          exact ⟨calls i, current_of_index next, writes⟩

theorem uncorrupted_iff_writing :
    Uncorrupted writing (run writing cleared (underGame graveBoard (Toplevel.held graveBoard)
        (scriptInputs lateKeys) (fun _ => true) (fun _ => 0#16))) ↔
      ∀ i first last, (writing i).writes = true →
        Span (run writing cleared (underGame graveBoard (Toplevel.held graveBoard)
          (scriptInputs lateKeys) (fun _ => true) (fun _ => 0#16))) i first last →
        Spared (fun n => (Toplevel.run graveBoard (Toplevel.held graveBoard)
            (scriptInputs lateKeys) n).game.resetH)
          (run writing cleared (underGame graveBoard (Toplevel.held graveBoard)
            (scriptInputs lateKeys) (fun _ => true) (fun _ => 0#16))) first last :=
  uncorrupted_iff graveBoard (Toplevel.held graveBoard) (scriptInputs lateKeys) writing cleared
    ⟨rfl, rfl⟩ (fun _ => true) (fun _ => 0#16)

end Game

section Dropped

variable {calls : Nat → Call} {start : Usb} {inputs : Nat → UsbInput}

def Before (states : Nat → Usb) (n index pc : Nat) : Prop :=
  (states n).nios.index = index ∧ (states n).nios.pc = pc

theorem Before.access {n index pc : Nat} (before : Before (run calls start inputs) n index pc)
    (access : (inputs n).access = true) (more : pc + 1 < (program calls index).length) :
    Before (run calls start inputs) (n + 1) index (pc + 1) := by
  rcases before with ⟨rfl, rfl⟩
  have fetched := List.getElem?_eq_getElem (Nat.lt_of_succ_lt more)
  rw [Before, run, run_succ]
  simp [step, Nios.step, access, fetched, more.ne]

theorem Before.accesses {n index pc : Nat} (before : Before (run calls start inputs) n index pc)
    (count : Nat) (access : ∀ k, n ≤ k → k < n + count → (inputs k).access = true)
    (more : pc + count < (program calls index).length) :
    Before (run calls start inputs) (n + count) index (pc + count) := by
  induction count with
  | zero => exact before
  | succ count ih =>
      have earlier := ih (fun k low high => access k low (by omega)) (by omega)
      exact earlier.access (access (n + count) (by omega) (by omega)) more

theorem Before.ends {n index pc : Nat} (before : Before (run calls start inputs) n index pc)
    (access : (inputs n).access = true) (last : pc + 1 = (program calls index).length) :
    Before (run calls start inputs) (n + 1) (index + 1) 0 := by
  rcases before with ⟨rfl, rfl⟩
  have fetched := List.getElem?_eq_getElem (Nat.lt_of_succ_le last.le)
  rw [Before, run, run_succ]
  simp [step, Nios.step, access, fetched, last]

theorem Before.waits {n index pc : Nat} (before : Before (run calls start inputs) n index pc)
    (count : Nat) (idle : ∀ k, n ≤ k → k < n + count → (inputs k).access = false) :
    Before (run calls start inputs) (n + count) index pc := by
  induction count with
  | zero => exact before
  | succ count ih =>
      have earlier := ih (fun k low high => idle k low (by omega))
      have still := idle (n + count) (by omega) (by omega)
      rw [Before, ← Nat.add_assoc, run, run_succ]
      simp only [step, Nios.step, still, Bool.false_eq_true, if_false]
      exact earlier

def paused (n k : Nat) : Bool := decide (k < 13 ∨ n ≤ k)

variable (inputs) in
theorem dropped {n : Nat} (late : 13 ≤ n) (schedule : ∀ k, (inputs k).access = paused n k)
    (first : (inputs (n + 1)).reset = true) (second : (inputs (n + 2)).reset = true) :
    ∃ last, Span (run writing cleared inputs) 0 10 last ∧
      ¬ Spared (fun k => (inputs k).reset) (run writing cleared inputs) 10 last := by
  have early (k : Nat) (small : k < 13) : (inputs k).access = true := by
    rw [schedule, paused, decide_eq_true]
    exact Or.inl small
  have again (k : Nat) (bound : n ≤ k) : (inputs k).access = true := by
    rw [schedule, paused, decide_eq_true]
    exact Or.inr bound
  have still (k : Nat) (low : 13 ≤ k) (high : k < 13 + (n - 13)) : (inputs k).access = false := by
    rw [schedule, paused, decide_eq_false]
    omega
  have power : Before (run writing cleared inputs) 0 0 0 := ⟨rfl, rfl⟩
  have nine := power.accesses 9 (fun k _ small => early k (by omega)) (by decide)
  have ten := nine.ends (early _ (by omega)) rfl
  have thirteen := ten.accesses 3 (fun k _ small => early k (by omega)) (by decide)
  have waited := thirteen.waits (n - 13) still
  have fourth := waited.access (again _ (by omega)) (by decide)
  have sixth := (fourth.access (again _ (by omega)) (by decide)).access (again _ (by omega))
    (by decide)
  have last := sixth.ends (again _ (by omega)) rfl
  simp only [Nat.zero_add, Nat.reduceAdd] at waited sixth last
  rw [Nat.add_sub_cancel' late] at waited sixth last
  have span : Span (run writing cleared inputs) 0 10 (n + 1 + 1 + 1 + 1) :=
    ⟨ten.1, ten.2, last.1, last.2⟩
  refine ⟨_, span, ?_⟩
  intro spared
  rcases spared.seen with ⟨k, after, before, held, running⟩
  rcases (span.w_low_iff ⟨rfl, rfl⟩ after before.le).mp held with ⟨-, low, high⟩
  have above : n < k := by
    by_contra below
    have reached := run_reached (Nat.le_of_not_lt below) low
    rw [Nios.Reached, waited.1, waited.2] at reached
    omega
  have below : k < n + 1 + 1 + 1 := by
    by_contra above
    apply high
    exact run_reached (Nat.le_of_not_lt above) (Or.inr ⟨sixth.1, by rw [sixth.2]⟩)
  rcases Nat.lt_or_eq_of_le (show n + 1 ≤ k by omega) with later | rfl
  · obtain rfl : k = n + 2 := by omega
    rw [second] at running
    contradiction
  · rw [first] at running
    contradiction

end Dropped

/-- The death of Mario drops an `IO_write`. -/
theorem death_drops_write : ¬ ∀ (board : Board) (game : Toplevel) (keys : Nat → Input),
    (∀ k, (keys k).key0 = true) → ∀ (calls : Nat → Call) (start : Usb),
      start.nios.AtPowerUp → ∀ (accesses : Nat → Bool) (chipData : Nat → BitVec 16),
        Uncorrupted calls (run calls start (underGame board game keys accesses chipData)) := by
  intro uncorrupted
  have late : 13 ≤ scriptEnd lateKeys + 2 := by
    rw [scriptEnd]
    simp only [frameCycles]
    omega
  have resets := late_death.resetEnds
  have one : (Toplevel.run graveBoard (Toplevel.held graveBoard) (scriptInputs lateKeys)
      (scriptEnd lateKeys + 2 + 1)).game.resetH = true := by
    have high := resets 1 (by omega) (by omega)
    exact high
  have two : (Toplevel.run graveBoard (Toplevel.held graveBoard) (scriptInputs lateKeys)
      (scriptEnd lateKeys + 2 + 2)).game.resetH = true := by
    have high := resets 2 (by omega) (by omega)
    exact high
  generalize scriptEnd lateKeys + 2 = n at late one two
  have kept := uncorrupted graveBoard (Toplevel.held graveBoard) (scriptInputs lateKeys)
    (fun _ => rfl) writing cleared ⟨rfl, rfl⟩ (paused n) (fun _ => 0#16)
  rcases dropped (underGame graveBoard (Toplevel.held graveBoard) (scriptInputs lateKeys)
    (paused n) (fun _ => 0#16)) late (fun _ => rfl) one two with ⟨last, span, unspared⟩
  exact unspared ((span.strobedOnce_iff ⟨rfl, rfl⟩).mp (kept.strobed 0 10 last rfl span))

end Usb

end FPGAMario
