import Mathlib.Data.Nat.Count
import Mathlib.Order.Basic
import Mathlib.Tactic.Common

/-! Runs of a clocked machine and the events that occur along them. -/

namespace FPGAMario.Hdl

variable {State Input : Type}

/-- The state after `n` clock edges, edge `k` sampling `inputs k`. -/
def run (step : Input → State → State) (start : State) (inputs : Nat → Input) : Nat → State
  | 0 => start
  | n + 1 => step (inputs n) (run step start inputs n)

@[simp] theorem run_zero (step : Input → State → State) (start : State) (inputs : Nat → Input) :
    run step start inputs 0 = start := rfl

theorem run_succ (step : Input → State → State) (start : State) (inputs : Nat → Input) (n : Nat) :
    run step start inputs (n + 1) = step (inputs n) (run step start inputs n) := rfl

theorem run_add (step : Input → State → State) (start : State) (inputs : Nat → Input)
    (m n : Nat) :
    run step start inputs (m + n) =
      run step (run step start inputs m) (fun k => inputs (m + k)) n := by
  induction n with
  | zero => rfl
  | succ n ih =>
      calc run step start inputs (m + n + 1) =
            step (inputs (m + n)) (run step start inputs (m + n)) := rfl
        _ = step (inputs (m + n))
            (run step (run step start inputs m) (fun k => inputs (m + k)) n) := by rw [ih]
        _ = run step (run step start inputs m) (fun k => inputs (m + k)) (n + 1) := rfl

theorem run_congr (step : Input → State → State) (start : State) (first second : Nat → Input)
    (n : Nat) (agree : ∀ k, k < n → first k = second k) :
    run step start first n = run step start second n := by
  induction n with
  | zero => rfl
  | succ n ih =>
      rw [run_succ, run_succ, agree n (Nat.lt_succ_self n),
        ih (fun k bound => agree k (Nat.lt_succ_of_lt bound))]

/-- What the first step establishes and every step keeps holds from the first step on. -/
theorem run_invariant (step : Input → State → State) (start : State) (inputs : Nat → Input)
    (invariant : State → Prop) (initial : ∀ input, invariant (step input start))
    (preserved : ∀ input state, invariant state → invariant (step input state)) (n : Nat) :
    invariant (run step start inputs (n + 1)) := by
  induction n with
  | zero => exact initial (inputs 0)
  | succ n ih => exact preserved (inputs (n + 1)) _ ih

section Events

/-- Two occurrences of an event with none in between. -/
structure Successive (event : Nat → Prop) (first second : Nat) : Prop where
  at_first : event first
  at_second : event second
  ordered : first < second
  between : ∀ k, first < k → k < second → ¬ event k

structure LastBefore (event : Nat → Prop) (n k : Nat) : Prop where
  before : k < n
  occurs : event k
  after : ∀ j, k < j → j < n → ¬ event j

theorem lt_of_silent {event : Nat → Prop} {n k : Nat} (before : k < n + 1) (occurs : event k)
    (silent : ¬ event n) : k < n := by
  apply Nat.lt_of_le_of_ne (Nat.le_of_lt_succ before)
  rintro rfl
  exact silent occurs

theorem LastBefore.unique {event : Nat → Prop} {n first second : Nat}
    (left : LastBefore event n first) (right : LastBefore event n second) : first = second := by
  apply Nat.le_antisymm
  · by_contra later
    exact right.after first (Nat.lt_of_not_le later) left.before left.occurs
  · by_contra later
    exact left.after second (Nat.lt_of_not_le later) right.before right.occurs

theorem LastBefore.here {event : Nat → Prop} {n : Nat} (occurs : event n) :
    LastBefore event (n + 1) n :=
  ⟨Nat.lt_succ_self n, occurs, fun j after before => by omega⟩

theorem LastBefore.later {event : Nat → Prop} {n k : Nat} (last : LastBefore event n k)
    (silent : ¬ event n) : LastBefore event (n + 1) k := by
  refine ⟨Nat.lt_succ_of_lt last.before, last.occurs, ?_⟩
  intro j after before
  rcases Nat.lt_succ_iff_lt_or_eq.mp before with earlier | rfl
  · exact last.after j after earlier
  · exact silent

theorem LastBefore.earlier {event : Nat → Prop} {n k : Nat} (last : LastBefore event (n + 1) k)
    (silent : ¬ event n) : LastBefore event n k := by
  refine ⟨lt_of_silent last.before last.occurs silent, last.occurs, ?_⟩
  intro j after before
  exact last.after j after (Nat.lt_succ_of_lt before)

theorem exists_lastBefore (event : Nat → Prop) (n : Nat) (some : ∃ k, k < n ∧ event k) :
    ∃ k, LastBefore event n k := by
  rcases some with ⟨k, before, occurs⟩
  induction n with
  | zero => exact absurd before (Nat.not_lt_zero k)
  | succ n ih =>
      by_cases now : event n
      · exact ⟨n, .here now⟩
      · rcases ih (lt_of_silent before occurs now) with ⟨m, last⟩
        exact ⟨m, last.later now⟩

/-- Something that only an event brings up, and that otherwise lasts through quiet cycles only. -/
structure BroughtBy (event quiet present : Nat → Prop) : Prop where
  initially : ¬ present 0
  lasts : ∀ n, present (n + 1) → ¬ event n → present n ∧ quiet n

theorem BroughtBy.exists_lastBefore {event quiet present : Nat → Prop}
    (brought : BroughtBy event quiet present) (n : Nat) (now : present n) :
    ∃ k, LastBefore event n k := by
  induction n with
  | zero => exact absurd now brought.initially
  | succ n ih =>
      by_cases occurs : event n
      · exact Hdl.exists_lastBefore event (n + 1) ⟨n, Nat.lt_succ_self n, occurs⟩
      · rcases ih (brought.lasts n now occurs).1 with ⟨k, last⟩
        exact Hdl.exists_lastBefore event (n + 1) ⟨k, Nat.lt_succ_of_lt last.before, last.occurs⟩

theorem BroughtBy.quiet_since {event quiet present : Nat → Prop}
    (brought : BroughtBy event quiet present) {n k : Nat} (now : present n)
    (last : LastBefore event n k) (j : Nat) (after : k < j) (before : j < n) : quiet j := by
  have lasting (j : Nat) (before : j ≤ n) : k < j → present j := by
    induction before using Nat.decreasingInduction with
    | self => exact fun _ => now
    | of_succ j before ih =>
        intro after
        have next := ih (Nat.lt_succ_of_lt after)
        exact (brought.lasts j next (last.after j after before)).1
  have next := lasting (j + 1) before (Nat.lt_succ_of_lt after)
  exact (brought.lasts j next (last.after j after before)).2

/-- What only a start can arm and is disarmed at `first` has seen a start by the time it is
armed again. -/
theorem start_between (armed start : Nat → Prop) (first last : Nat) (ordered : first ≤ last)
    (kept : ∀ k, first ≤ k → ¬ armed k → ¬ start k → ¬ armed (k + 1))
    (disarmed : ¬ armed first) (rearmed : armed last) :
    ∃ k, first ≤ k ∧ k < last ∧ start k := by
  by_contra none
  have quiet : ∀ k, first ≤ k → k < last → ¬ start k := by
    intro k low high started
    exact none ⟨k, low, high, started⟩
  clear none
  induction last, ordered using Nat.le_induction with
  | base => exact disarmed rearmed
  | succ last ordered ih =>
      by_cases earlier : armed last
      · exact ih earlier (fun k low high => quiet k low (Nat.lt_succ_of_lt high))
      · exact kept last ordered earlier (quiet last ordered (Nat.lt_succ_self last)) rearmed

/-- An event that is due whenever a rank stops falling comes before the rank is used up. -/
theorem within_rank (event : Nat → Prop) (rank : Nat → Nat) (first : Nat)
    (progress : ∀ k, first ≤ k → k ≤ first + rank first → event k ∨ rank (k + 1) < rank k) :
    ∃ n, first ≤ n ∧ n ≤ first + rank first ∧ event n := by
  by_contra never
  have falls (k : Nat) (soon : k ≤ rank first + 1) : rank (first + k) + k ≤ rank first := by
    induction k with
    | zero => rfl
    | succ k ih =>
        have lower := ih (by omega)
        rcases progress (first + k) (Nat.le_add_right first k) (by omega) with due | falling
        · exact absurd ⟨first + k, Nat.le_add_right first k, by omega, due⟩ never
        · change rank (first + k + 1) + (k + 1) ≤ rank first
          omega
  have bound := falls (rank first + 1) (Nat.le_refl _)
  omega

end Events

end FPGAMario.Hdl
