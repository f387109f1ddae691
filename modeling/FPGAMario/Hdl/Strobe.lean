import Mathlib.Data.Nat.Find
import Mathlib.Order.Nat
import Mathlib.Tactic.Common

/-! Low pulses of an active-low signal. -/

namespace FPGAMario.Hdl

/-- `signal` is low strictly between `fall` and `rise`, and high in those two cycles. -/
structure LowPulse (signal : Nat → Bool) (fall rise : Nat) : Prop where
  high_before : signal fall = true
  high_after : signal rise = true
  nonempty : fall + 1 < rise
  low : ∀ k, fall < k → k < rise → signal k = false

section Strobe

variable {signal : Nat → Bool}

theorem exists_fall {first last : Nat} (ordered : first ≤ last) (high : signal first = true)
    (low : signal last = false) :
    ∃ fall, first ≤ fall ∧ fall < last ∧ signal fall = true ∧
      ∀ k, fall < k → k ≤ last → signal k = false := by
  induction last, ordered using Nat.le_induction with
  | base =>
      rw [high] at low
      contradiction
  | succ last ordered ih =>
      cases before : signal last with
      | true =>
          refine ⟨last, ordered, Nat.lt_succ_self last, before, ?_⟩
          intro k after upTo
          rw [show k = last + 1 by omega, low]
      | false =>
          rcases ih before with ⟨fall, start, bound, falling, between⟩
          refine ⟨fall, start, Nat.lt_succ_of_lt bound, falling, ?_⟩
          intro k after upTo
          rcases Nat.lt_or_eq_of_le upTo with earlier | rfl
          · exact between k after (Nat.le_of_lt_succ earlier)
          · exact low

theorem exists_rise {first last : Nat} (ordered : first ≤ last) (low : signal first = false)
    (high : signal last = true) :
    ∃ rise, first < rise ∧ rise ≤ last ∧ signal rise = true ∧
      ∀ k, first ≤ k → k < rise → signal k = false := by
  have found : ∃ k, first ≤ k ∧ signal k = true := ⟨last, ordered, high⟩
  have spec := Nat.find_spec found
  refine ⟨Nat.find found, ?_, Nat.find_min' found ⟨ordered, high⟩, spec.2, ?_⟩
  · apply Nat.lt_of_le_of_ne spec.1
    intro same
    rw [← same, low] at spec
    exact Bool.noConfusion spec.2
  · intro k start bound
    rw [← Bool.not_eq_true]
    intro up
    exact Nat.find_min found bound ⟨start, up⟩

theorem exists_lowPulse {first middle last : Nat} (start : signal first = true)
    (stop : signal last = true) (before : first ≤ middle) (after : middle ≤ last)
    (low : signal middle = false) :
    ∃ fall rise, LowPulse signal fall rise ∧ first ≤ fall ∧ fall < middle ∧ middle < rise ∧
      rise ≤ last := by
  rcases exists_fall before start low with ⟨fall, fromFirst, toMiddle, falling, lowBefore⟩
  rcases exists_rise after low stop with ⟨rise, fromMiddle, toLast, rising, lowAfter⟩
  refine ⟨fall, rise, ⟨falling, rising, by omega, ?_⟩, fromFirst, toMiddle, fromMiddle, toLast⟩
  intro k above below
  rcases Nat.le_total k middle with earlier | later
  · exact lowBefore k above earlier
  · exact lowAfter k later below

theorem LowPulse.unique {fall rise fall' rise' : Nat} (one : LowPulse signal fall rise)
    (other : LowPulse signal fall' rise')
    (convex : ∀ i j k, fall < i → i < j → j < k → k < rise' → signal i = false →
      signal k = false → signal j = false)
    (ordered : fall ≤ fall') : fall = fall' ∧ rise = rise' := by
  have low := one.low (fall + 1) (Nat.lt_succ_self fall) one.nonempty
  have low' := other.low (fall' + 1) (Nat.lt_succ_self fall') other.nonempty
  have falls : fall = fall' := by
    by_contra apart
    have high := other.high_before
    rcases Nat.lt_or_eq_of_le (show fall + 1 ≤ fall' by omega) with gap | rfl
    · rw [convex (fall + 1) fall' (fall' + 1) (Nat.lt_succ_self fall) gap
        (Nat.lt_succ_self fall') other.nonempty low low'] at high
      contradiction
    · rw [low] at high
      contradiction
  subst falls
  refine ⟨rfl, ?_⟩
  rcases Nat.lt_trichotomy rise rise' with shorter | same | longer
  · have high := one.high_after
    rw [other.low rise (by have := one.nonempty; omega) shorter] at high
    contradiction
  · exact same
  · have high := other.high_after
    rw [one.low rise' (by have := other.nonempty; omega) longer] at high
    contradiction

variable (signal)

/-- Between two high cycles there is exactly one pulse when some cycle is low and no high cycle
separates two low ones. -/
theorem existsUnique_lowPulse_iff {first last : Nat}
    (start : signal first = true) (stop : signal last = true) :
    (∃! ends : Nat × Nat, LowPulse signal ends.1 ends.2 ∧ first ≤ ends.1 ∧ ends.2 ≤ last) ↔
      (∃ k, first < k ∧ k < last ∧ signal k = false) ∧
        ∀ i j k, first < i → i < j → j < k → k < last → signal i = false → signal k = false →
          signal j = false := by
  constructor
  · intro exactlyOne
    rcases exactlyOne with ⟨⟨fall, rise⟩, ⟨pulse, fromFirst, toLast⟩, alone⟩
    have nonempty := pulse.nonempty
    simp only at fromFirst toLast nonempty
    refine ⟨⟨fall + 1, by omega, by omega,
      pulse.low (fall + 1) (Nat.lt_succ_self fall) nonempty⟩, ?_⟩
    intro i j k above left right below lowLeft lowRight
    rw [← Bool.not_eq_true]
    intro high
    rcases exists_lowPulse start high (by omega) (by omega) lowLeft with
      ⟨fallLeft, riseLeft, pulseLeft, fromLeft, beforeLeft, -, toMiddle⟩
    rcases exists_lowPulse high stop (by omega) (by omega) lowRight with
      ⟨fallRight, riseRight, pulseRight, fromMiddle, -, -, toRight⟩
    have leftEnds := alone (fallLeft, riseLeft) ⟨pulseLeft, fromLeft, by simp only; omega⟩
    have rightEnds := alone (fallRight, riseRight) ⟨pulseRight, by simp only; omega, toRight⟩
    have same := congrArg Prod.fst (leftEnds.trans rightEnds.symm)
    simp only at same
    omega
  · intro lows
    rcases lows with ⟨⟨k, above, below, low⟩, convex⟩
    rcases exists_lowPulse start stop above.le below.le low with
      ⟨fall, rise, pulse, fromFirst, -, -, toLast⟩
    refine ⟨(fall, rise), ⟨pulse, fromFirst, toLast⟩, ?_⟩
    intro ends other
    rcases ends with ⟨fall', rise'⟩
    rcases other with ⟨pulse', fromFirst', toLast'⟩
    simp only at pulse' fromFirst' toLast'
    have same : fall' = fall ∧ rise' = rise := by
      rcases Nat.le_total fall' fall with earlier | later
      · apply pulse'.unique pulse _ earlier
        intro i j k above left right below
        exact convex i j k (by omega) left right (by omega)
      · have ends := pulse.unique pulse' (by
          intro i j k above left right below
          exact convex i j k (by omega) left right (by omega)) later
        exact ⟨ends.1.symm, ends.2.symm⟩
    rw [same.1, same.2]

theorem existsUnique_lowPulse_registered_iff {held : Nat → Prop}
    (registered : ∀ k, signal (k + 1) = false ↔ held k) {first last : Nat}
    (start : signal first = true) (stop : signal last = true) :
    (∃! ends : Nat × Nat, LowPulse signal ends.1 ends.2 ∧ first ≤ ends.1 ∧ ends.2 ≤ last) ↔
      (∃ k, first ≤ k ∧ k < last ∧ held k) ∧
        ∀ i j k, first ≤ i → i < j → j < k → k < last → held i → held k → held j := by
  have inside {k : Nat} (below : k < last) (now : held k) : k + 1 < last := by
    have low := (registered k).mpr now
    apply Nat.lt_of_le_of_ne below
    rintro rfl
    exact Bool.noConfusion (low.symm.trans stop)
  rw [existsUnique_lowPulse_iff signal start stop]
  constructor
  · intro lows
    rcases lows with ⟨⟨k, above, below, low⟩, convex⟩
    obtain ⟨m, rfl⟩ := Nat.exists_eq_add_of_lt above
    refine ⟨⟨first + m, Nat.le_add_right first m, Nat.lt_of_succ_lt below,
      (registered _).mp low⟩, ?_⟩
    intro i j k above left right below heldLeft heldRight
    rw [← registered] at heldLeft ⊢
    exact convex (i + 1) (j + 1) (k + 1) (Nat.lt_succ_of_le above) (Nat.succ_lt_succ left)
      (Nat.succ_lt_succ right) (inside below heldRight) heldLeft ((registered k).mpr heldRight)
  · intro holds
    rcases holds with ⟨⟨k, above, below, now⟩, convex⟩
    refine ⟨⟨k + 1, Nat.lt_succ_of_le above, inside below now, (registered k).mpr now⟩, ?_⟩
    intro a b c above left right below lowLeft lowRight
    obtain ⟨i, rfl⟩ := Nat.exists_eq_add_of_lt above
    obtain ⟨j, rfl⟩ := Nat.exists_eq_add_of_lt left
    obtain ⟨k, rfl⟩ := Nat.exists_eq_add_of_lt right
    rw [registered] at lowLeft lowRight ⊢
    exact convex _ _ _ (Nat.le_add_right first i) (by omega) (by omega) (by omega) lowLeft lowRight

end Strobe

end FPGAMario.Hdl
