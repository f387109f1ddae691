import FPGAMario.UsbEnumeration

/-! What has happened before a keycode is stored: the whole enumeration, since the last reset of the
chip. -/

namespace FPGAMario

open Interact

namespace Driver

section Events

variable (answers : Nat → Answer Request Reply) (address : BitVec 16)

def Resets (n : Nat) : Prop := Calls main start answers n (.hpi (.write hpiMailbox commReset))

/-- The chip is told to start, after the list of this transfer has been written since the start
before. -/
structure Starts (stage : Stage) (n : Nat) : Prop where
  calls : Calls main start answers n (.hpi (.write hpiData listAddress))
  aimed : (progressBefore answers address n).address = husbSie1PCurrentTDPtr
  carried : (progressBefore answers address n).Carries stage.list

structure Good (n : Nat) : Prop where
  calls : Calls main start answers n (.hpi (.read hpiData))
  aimed : (progressBefore answers address n).address = 0x0508#16
  right : answers n (.hpi (.read hpiData)) = 0x0003#16

/-- From the reset at `r` to step `n` the transfers before this one have been made, each of them
started and found right before the next. -/
inductive Reached (r : Nat) : Option Stage → Nat → Prop
  | reset : Reached r (some .setAddress) r
  | transfer {stage : Stage} {before starts good : Nat} (earlier : Reached r (some stage) before)
      (then_starts : before < starts) (started : Starts answers address stage starts)
      (then_good : starts < good) (right : Good answers address good) :
      Reached r stage.next good

def PhasePast (r n : Nat) : Phase → Prop
  | .ready stage => ∃ before, before < n ∧ Reached answers address r (some stage) before
  | .sent stage _ | .flagged stage | .ended stage =>
      ∃ before starts, Reached answers address r (some stage) before ∧ before < starts ∧
        starts < n ∧ Starts answers address stage starts
  | .failed => True
  | .idle | .polled _ | .answering | .answered | .reported _ =>
      ∃ before, before < n ∧ Reached answers address r none before

structure Past (r n : Nat) : Prop where
  resets : Resets answers r
  earlier : r < n
  last : ∀ k, r < k → k < n → ¬ Resets answers k
  phase : PhasePast answers address r n (progressBefore answers address n).phase

end Events

section Steps

variable {answers : Nat → Answer Request Reply} {address : BitVec 16} {r n : Nat} {phase : Phase}

theorem PhasePast.later (past : PhasePast answers address r n phase) :
    PhasePast answers address r (n + 1) phase := by
  cases phase with
  | failed => trivial
  | ready stage =>
      rcases past with ⟨before, earlier, reached⟩
      exact ⟨before, Nat.lt_succ_of_lt earlier, reached⟩
  | sent stage _ | flagged stage | ended stage =>
      rcases past with ⟨before, starts, reached, ordered, earlier, started⟩
      exact ⟨before, starts, reached, ordered, Nat.lt_succ_of_lt earlier, started⟩
  | idle | polled _ | answering | answered | reported _ =>
      rcases past with ⟨before, earlier, reached⟩
      exact ⟨before, Nat.lt_succ_of_lt earlier, reached⟩

theorem PhasePast.status (past : PhasePast answers address r n phase) (flag : Bool) :
    PhasePast answers address r n (phase.status flag) := by
  cases phase with
  | sent stage again => cases flag <;> exact past
  | polled again => cases flag <;> exact past
  | _ => exact past

theorem PhasePast.started (past : PhasePast answers address r n phase)
    (list : ∀ stage, phase = .ready stage → Starts answers address stage n) :
    PhasePast answers address r (n + 1) phase.started := by
  cases phase with
  | ready stage =>
      rcases past with ⟨before, earlier, reached⟩
      exact ⟨before, n, reached, earlier, Nat.lt_succ_self n, list stage rfl⟩
  | _ => exact past.later

theorem PhasePast.after {stage : Stage} (reached : Reached answers address r stage.next n) :
    PhasePast answers address r (n + 1) (Phase.after stage) := by
  rw [Phase.after]
  cases next : stage.next with
  | none =>
      rw [next] at reached
      exact ⟨n, Nat.lt_succ_self n, reached⟩
  | some stage =>
      rw [next] at reached
      exact ⟨n, Nat.lt_succ_self n, reached⟩

theorem PhasePast.read (past : PhasePast answers address r n phase) (place word : BitVec 16)
    (right : place = 0x0508#16 → word = 0x0003#16 → Good answers address n) :
    PhasePast answers address r (n + 1) (phase.read place word) := by
  cases phase with
  | flagged stage =>
      rw [Phase.read]
      split <;> exact past.later
  | answering =>
      rw [Phase.read]
      split <;> exact past.later
  | answered =>
      rw [Phase.read]
      split <;> exact past.later
  | ended stage =>
      rw [Phase.read]
      split
      case isFalse => exact past.later
      case isTrue here =>
        split
        case isFalse => trivial
        case isTrue good =>
          rcases past with ⟨before, starts, reached, ordered, earlier, started⟩
          exact .after (.transfer reached ordered started earlier (right here good))
  | _ => exact past.later

theorem PhasePast.see {request : Request} (calls : Calls main start answers n request)
    (other : request ≠ .hpi (.write hpiMailbox commReset))
    (past : PhasePast answers address r n (progressBefore answers address n).phase) :
    PhasePast answers address r (n + 1)
      ((progressBefore answers address n).see request (answers n request)).phase := by
  have allowed : (progressBefore answers address n).Allows request := allowed_of_calls calls
  cases request with
  | keycode value =>
      rcases allowed.2 with ⟨report, reported⟩
      rw [reported] at past
      exact past.later
  | hpi call =>
      cases call with
      | read port =>
          rw [Progress.see]
          split
          case isTrue transfer =>
            subst transfer
            exact past.read _ _ fun place word => ⟨calls, place, word⟩
          case isFalse =>
            split
            · exact (past.status _).later
            · exact past.later
      | write port data =>
          rw [Progress.see]
          split
          case isTrue => exact past.later
          case isFalse aims =>
            split
            case isTrue transfer =>
              subst transfer
              rw [Progress.write]
              split
              case isFalse => exact past.later
              case isTrue pointer =>
                dsimp only
                split
                case isFalse => exact past.later
                case isTrue place =>
                  subst place
                  apply past.started
                  intro stage ready
                  rcases due_of_started calls pointer with ⟨list, due, carried⟩
                  rw [Progress.Due, ready] at due
                  exact ⟨calls, pointer, due ▸ carried⟩
            case isFalse =>
              split
              case isTrue resets =>
                rcases resets with ⟨rfl, rfl⟩
                exact absurd rfl other
              case isFalse => exact past.later

theorem Past.keep (past : Past answers address r n) (other : ¬ Resets answers n)
    (phase : PhasePast answers address r (n + 1) (progressBefore answers address (n + 1)).phase) :
    Past answers address r (n + 1) := by
  refine ⟨past.resets, Nat.lt_succ_of_lt past.earlier, ?_, phase⟩
  intro k after before
  rcases Nat.lt_or_eq_of_le (Nat.le_of_lt_succ before) with earlier | rfl
  · exact past.last k after earlier
  · exact other

theorem Past.step (past : Past answers address r n) : ∃ r, Past answers address r (n + 1) := by
  cases state : run main start answers n with
  | done label =>
      refine ⟨r, past.keep ?_ ?_⟩
      · rintro ⟨next, call⟩
        rw [state] at call
        cases call
      · rw [progressBefore_done state]
        exact past.phase.later
  | call request next =>
      have calls : Calls main start answers n request := ⟨next, state⟩
      have after : progressBefore answers address (n + 1) = _ := progressBefore_call state
      by_cases resets : request = .hpi (.write hpiMailbox commReset)
      · subst resets
        refine ⟨n, calls, Nat.lt_succ_self n, fun k later before => absurd before (by omega), ?_⟩
        rw [after]
        exact ⟨n, Nat.lt_succ_self n, .reset⟩
      · refine ⟨r, past.keep ?_ ?_⟩
        · rintro ⟨next, call⟩
          rw [state] at call
          cases call
          exact resets rfl
        · rw [after]
          exact past.phase.see calls resets

theorem past_first : Past answers address 1 2 := by
  refine ⟨⟨_, rfl⟩, Nat.lt_succ_self 1, fun k after before => absurd before (by omega), ?_⟩
  exact ⟨1, Nat.lt_succ_self 1, .reset⟩

theorem past_run (late : 2 ≤ n) : ∃ r, Past answers address r n := by
  induction n, late using Nat.le_induction with
  | base => exact ⟨1, past_first⟩
  | succ n _ ih =>
      rcases ih with ⟨r, past⟩
      exact past.step

end Steps

/-- Whatever the chip answers: before a keycode is stored all nine transfers have been made since the
last reset of the chip, in order, each one started after its list was written and found right
before the next one. In particular a keyboard that was taken off types nothing before
it has been set up again. -/
theorem keycode_after_enumeration {answers : Nat → Answer Request Reply} {n : Nat} {value : BitVec 8}
    (stores : Calls main start answers n (.keycode value)) (address : BitVec 16) :
    ∃ r before, Resets answers r ∧ (∀ k, r < k → k < n → ¬ Resets answers k) ∧
      before < n ∧ Reached answers address r none before := by
  have late : 2 ≤ n := by
    rcases stores with ⟨next, state⟩
    by_contra early
    interval_cases n
    · cases state
    · cases state
  obtain ⟨r, past⟩ : ∃ r, Past answers address r n := past_run late
  have allowed : (progressBefore answers address n).Allows (.keycode value) :=
    allowed_of_calls stores
  rcases allowed.2 with ⟨report, reported⟩
  have phase := past.phase
  rw [reported] at phase
  rcases phase with ⟨before, earlier, reached⟩
  exact ⟨r, before, past.resets, past.last, earlier, reached⟩

theorem keycode_after_enumeration_typing :
    ∃ r before, Resets typing r ∧ (∀ k, r < k → k < 524 → ¬ Resets typing k) ∧
      before < 524 ∧ Reached typing 0#16 r none before := by
  have stores : Calls main start typing 524 (.keycode 0x1A#8) := calls_played (by decide +kernel)
  exact keycode_after_enumeration stores 0#16

end Driver

end FPGAMario
