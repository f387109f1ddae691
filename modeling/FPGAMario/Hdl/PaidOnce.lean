import FPGAMario.Hdl.Run
import Mathlib.Data.Nat.Count

/-! Payments that have to be started: a start that is held for many cycles pays once. -/

namespace FPGAMario.Hdl

/-- Every payment has a start of its own before it, and none is made while the start is held. -/
structure PaidOnce (starts pays : Nat → Prop) : Prop where
  started : ∀ n, pays n → ∃ k, k < n ∧ starts k
  between : ∀ first second, first < second → pays first → pays second →
    ∃ k, first < k ∧ k < second ∧ starts k
  silent : ∀ n, pays n → ¬ starts n

namespace PaidOnce

variable {starts pays marked : Nat → Prop} {phase : Nat → Nat} {N : Nat}
  (paid : PaidOnce starts pays) (mono : Monotone phase)
  (starts_iff : ∀ n, n ≤ N → (starts n ↔ marked (phase n)))

include paid mono starts_iff

theorem phase_lt {first second left right : Nat} (ordered : first < second) (bound : second ≤ N)
    (paysFirst : pays first) (paysSecond : pays second) (before : LastBefore starts first left)
    (last : LastBefore starts second right) : phase left < phase right := by
  rcases paid.between first second ordered paysFirst paysSecond with ⟨k, after, inside, again⟩
  have later : first < right := by
    by_contra early
    exact last.after k (by omega) inside again
  have earlier := before.before
  have rightBound := last.before
  have upTo : phase left ≤ phase first := mono earlier.le
  have onwards : phase first ≤ phase right := mono later.le
  apply Nat.lt_of_le_of_ne (upTo.trans onwards)
  intro same
  have between : phase first = phase right := by omega
  apply paid.silent first paysFirst
  rw [starts_iff first (by omega), between, ← starts_iff right (by omega)]
  exact last.occurs

theorem count_le [DecidablePred pays] [DecidablePred marked] :
    Nat.count pays (N + 1) ≤ Nat.count marked (phase N + 1) := by
  classical
  have last (n : Nat) (pay : pays n) : ∃ k, LastBefore starts n k :=
    exists_lastBefore starts n (paid.started n pay)
  choose! start isLast using last
  rw [Nat.count_eq_card_filter_range, Nat.count_eq_card_filter_range]
  apply Finset.card_le_card_of_injOn (fun n => phase (start n))
  · intro n member
    simp only [Finset.coe_filter, Finset.mem_range, Set.mem_ofPred_eq] at member ⊢
    rcases member with ⟨bound, pay⟩
    have before := (isLast n pay).before
    constructor
    · exact Nat.lt_succ_of_le (mono (by omega))
    · exact (starts_iff (start n) (by omega)).mp (isLast n pay).occurs
  · intro first memberFirst second memberSecond same
    simp only [Finset.coe_filter, Finset.mem_range, Set.mem_ofPred_eq] at memberFirst memberSecond same
    rcases Nat.lt_trichotomy first second with earlier | equal | later
    · have rises := paid.phase_lt mono starts_iff earlier (by omega) memberFirst.2 memberSecond.2
        (isLast first memberFirst.2) (isLast second memberSecond.2)
      omega
    · exact equal
    · have rises := paid.phase_lt mono starts_iff later (by omega) memberSecond.2 memberFirst.2
        (isLast second memberSecond.2) (isLast first memberFirst.2)
      omega

end PaidOnce

end FPGAMario.Hdl
