import FPGAMario.Hdl.Run

/-! A clocked machine in a loop with its surroundings, which react to what it has done so far. -/

namespace FPGAMario.Hdl

section Loop

variable {State Input : Type} (step : Input → State → State) (start : State)
  (react : (Nat → State) → Nat → Input)

def looped : Nat → Nat → State
  | 0 => fun _ => start
  | n + 1 => fun k =>
      if k ≤ n then looped n k else step (react (looped n) n) (looped n n)

def loopInputs (n : Nat) : Input := react (looped step start react n) n

theorem looped_eq_run (n k : Nat) (past : k ≤ n) :
    looped step start react n k = run step start (loopInputs step start react) k := by
  induction n generalizing k with
  | zero =>
      obtain rfl := Nat.le_zero.mp past
      rfl
  | succ n ih =>
      by_cases earlier : k ≤ n
      · exact (if_pos earlier).trans (ih k earlier)
      · obtain rfl : k = n + 1 := by omega
        calc looped step start react (n + 1) (n + 1) =
              step (react (looped step start react n) n) (looped step start react n n) :=
              if_neg earlier
          _ = step (loopInputs step start react n)
                (run step start (loopInputs step start react) n) := by
              rw [ih n (Nat.le_refl n)]
              rfl
          _ = run step start (loopInputs step start react) (n + 1) := rfl

/-- In cycle `n` only the states up to then count. -/
def Causal : Prop :=
  ∀ first second n, (∀ k, k ≤ n → first k = second k) → react first n = react second n

theorem loopInputs_eq (causal : Causal react) (n : Nat) : loopInputs step start react n =
    react (run step start (loopInputs step start react)) n :=
  causal _ _ n fun k past => looped_eq_run step start react n k past

end Loop

end FPGAMario.Hdl
