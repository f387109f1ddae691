import Mathlib.Data.Fin.VecNotation

/-! Continuations that receive an evaluated value. The kernel passes arguments unevaluated,
so a long run of a machine is only feasible when every state is evaluated before the next. -/

namespace FPGAMario.Hdl

variable {Result : Type}

def forceBits {w : Nat} (x : BitVec w) (next : BitVec w → Result) : Result :=
  match x.toNat with
  | 0 => next 0#w
  | n + 1 => next (BitVec.ofNat w (n + 1))

def forceBool (x : Bool) (next : Bool → Result) : Result :=
  match x with
  | true => next true
  | false => next false

@[simp] theorem forceBits_eq {w : Nat} (x : BitVec w) (next : BitVec w → Result) :
    forceBits x next = next x := by
  have value : BitVec.ofNat w x.toNat = x := BitVec.eq_of_toNat_eq (by simp)
  simp only [forceBits]
  split
  · next zero =>
      rw [zero] at value
      rw [value]
  · next n positive =>
      rw [positive] at value
      exact congrArg next value

@[simp] theorem forceBool_eq (x : Bool) (next : Bool → Result) :
    forceBool x next = next x := by
  cases x <;> rfl

variable {Value : Type}

def forceFour (force : Value → (Value → Result) → Result) (x : Fin 4 → Value)
    (next : (Fin 4 → Value) → Result) : Result :=
  force (x ⟨0, by decide⟩) fun a => force (x ⟨1, by decide⟩) fun b =>
    force (x ⟨2, by decide⟩) fun c => force (x ⟨3, by decide⟩) fun d => next ![a, b, c, d]

def forceTen (force : Value → (Value → Result) → Result) (x : Fin 10 → Value)
    (next : (Fin 10 → Value) → Result) : Result :=
  force (x 0) fun a => force (x 1) fun b => force (x 2) fun c => force (x 3) fun d =>
    force (x 4) fun e => force (x 5) fun f => force (x 6) fun g => force (x 7) fun h =>
      force (x 8) fun i => force (x 9) fun j => next ![a, b, c, d, e, f, g, h, i, j]

theorem forceFour_eq (force : Value → (Value → Result) → Result)
    (transparent : ∀ x next, force x next = next x) (x : Fin 4 → Value)
    (next : (Fin 4 → Value) → Result) : forceFour force x next = next x := by
  simp only [forceFour, transparent]
  congr 1
  funext i
  match i with
  | 0 | 1 | 2 | 3 => rfl

theorem forceTen_eq (force : Value → (Value → Result) → Result)
    (transparent : ∀ x next, force x next = next x) (x : Fin 10 → Value)
    (next : (Fin 10 → Value) → Result) : forceTen force x next = next x := by
  simp only [forceTen, transparent]
  congr 1
  funext i
  match i with
  | 0 | 1 | 2 | 3 | 4 | 5 | 6 | 7 | 8 | 9 => rfl

end FPGAMario.Hdl
