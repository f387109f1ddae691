import Mathlib.Order.Defs.PartialOrder
import Mathlib.Tactic.Common

/-! Indexed part selects `v[offset +: k]` of a vector and the order of bit inclusion. -/

namespace FPGAMario.Hdl

variable {w : Nat}

/-- `v[offset +: k] = 0`; bits above the width are not there to be written. -/
def clearPart (k offset : Nat) (v : BitVec w) : BitVec w :=
  v &&& ~~~ ((BitVec.allOnes k).setWidth w <<< offset)

def part (k offset : Nat) (v : BitVec w) : BitVec k :=
  v.extractLsb' offset k

@[simp] theorem part_getLsbD (k offset : Nat) (v : BitVec w) (i : Nat) :
    (part k offset v).getLsbD i = (decide (i < k) && v.getLsbD (offset + i)) := by
  simp [part]

@[simp] theorem clearPart_getLsbD (k offset : Nat) (v : BitVec w) (i : Nat) :
    (clearPart k offset v).getLsbD i =
      (v.getLsbD i && !decide (offset ≤ i ∧ i < offset + k)) := by
  by_cases inside : i < w
  · by_cases low : i < offset
    · have below : ¬ offset ≤ i := by omega
      simp [clearPart, inside, low, below]
    · have above : offset ≤ i := by omega
      by_cases high : i - offset < k
      · have bound : i < offset + k := by omega
        simp [clearPart, inside, low, above, high, bound]
      · have bound : ¬ i < offset + k := by omega
        simp [clearPart, inside, low, above, high, bound]
  · have absent : v.getLsbD i = false := BitVec.getLsbD_of_ge v i (by omega)
    have cleared : (clearPart k offset v).getLsbD i = false :=
      BitVec.getLsbD_of_ge _ i (by omega)
    rw [absent, cleared, Bool.false_and]

theorem part_clearPart_same (k offset : Nat) (v : BitVec w) :
    part k offset (clearPart k offset v) = 0#k := by
  apply BitVec.eq_of_getLsbD_eq
  intro i bound
  have inside : offset ≤ offset + i ∧ offset + i < offset + k := by omega
  rw [part_getLsbD, clearPart_getLsbD, decide_eq_true inside, BitVec.getLsbD_zero]
  simp

theorem clearPart_clearPart (k offset : Nat) (v : BitVec w) :
    clearPart k offset (clearPart k offset v) = clearPart k offset v := by
  apply BitVec.eq_of_getLsbD_eq
  intro i _
  rw [clearPart_getLsbD, clearPart_getLsbD, Bool.and_assoc, Bool.and_self]

theorem part_clearPart_disjoint (k offset other : Nat) (v : BitVec w)
    (disjoint : other + k ≤ offset ∨ offset + k ≤ other) :
    part k other (clearPart k offset v) = part k other v := by
  apply BitVec.eq_of_getLsbD_eq
  intro i bound
  have outside : ¬ (offset ≤ other + i ∧ other + i < offset + k) := by omega
  rw [part_getLsbD, part_getLsbD, clearPart_getLsbD, decide_eq_false outside]
  simp

def BitsIncluded (low high : BitVec w) : Prop :=
  ∀ i, low.getLsbD i = true → high.getLsbD i = true

theorem BitsIncluded.refl (v : BitVec w) : BitsIncluded v v := fun _ set => set

theorem BitsIncluded.trans {low middle high : BitVec w} (first : BitsIncluded low middle)
    (second : BitsIncluded middle high) : BitsIncluded low high :=
  fun i set => second i (first i set)

theorem clearPart_included (k offset : Nat) (v : BitVec w) :
    BitsIncluded (clearPart k offset v) v := by
  intro i set
  rw [clearPart_getLsbD] at set
  exact (Bool.and_eq_true_iff.mp set).1

end FPGAMario.Hdl
