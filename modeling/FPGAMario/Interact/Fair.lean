import FPGAMario.Interact.Program

/-! Leaving loops: a block that comes back to its own label until an answer it asks for is granted
is left in the end, if whoever asks again and again is granted an answer. -/

namespace FPGAMario.Interact

section Later

variable {Request : Type} {Reply : Request → Type} {Label Seen : Type}
  {code : Code Request Reply Label} {start : Label} {answers : Nat → Answer Request Reply}
  {o : Observer Request Reply Seen} {first : Seen}

def later (answers : Nat → Answer Request Reply) (m : Nat) : Nat → Answer Request Reply :=
  fun k => answers (m + k)

theorem run_later {m : Nat} {label : Label} (now : run code start answers m = .done label)
    (k : Nat) : run code label (later answers m) k = run code start answers (m + k) := by
  have state : Hdl.run (step code) (.done start) answers m = .done label := now
  rw [run, run, Hdl.run_add, state]
  rfl

theorem calls_later {m : Nat} {label : Label} (now : run code start answers m = .done label)
    (k : Nat) (request : Request) :
    Calls code label (later answers m) k request ↔ Calls code start answers (m + k) request := by
  rw [Calls, Calls, run_later now]

theorem seenBefore_later {m : Nat} {label : Label} (now : run code start answers m = .done label)
    (k : Nat) :
    seenBefore code label (later answers m) o (seenBefore code start answers o first m) k =
      seenBefore code start answers o first (m + k) := by
  induction k with
  | zero => rfl
  | succ k ih =>
      rw [seenBefore, ih, run_later now]
      rfl

theorem ends (expected : Expected code start answers o first) {post : Label → Seen → Prop} (n : Nat)
    (holds : (run code start answers n).wp o post (seenBefore code start answers o first n)) :
    ∃ m, n ≤ m ∧ ∃ label, run code start answers m = .done label ∧
      post label (seenBefore code start answers o first m) := by
  generalize state : run code start answers n = p at holds
  induction p generalizing n with
  | done label => exact ⟨n, Nat.le_refl n, label, state, holds⟩
  | call request next ih =>
      have after : run code start answers (n + 1) = next (answers n request) := by
        rw [run, Hdl.run_succ, ← run, state]
        rfl
      have seen : seenBefore code start answers o first (n + 1) =
          o.see (seenBefore code start answers o first n) request (answers n request) := by
        rw [seenBefore, state]
        rfl
      have answered := holds.2 (answers n request) (expected n request ⟨next, state⟩)
      rw [← seen] at answered
      rcases ih _ (n + 1) after answered with ⟨m, later, reached⟩
      exact ⟨m, Nat.le_of_succ_le later, reached⟩

end Later

/-- What was heard since a block began: was there anything asked for, and was it granted? -/
structure Heard (Seen : Type) where
  seen : Seen
  asked : Prop
  granted : Prop

section Fairness

variable {Request : Type} {Reply : Request → Type} {Label Seen : Type}
  (o : Observer Request Reply Seen) (asks : Seen → Request → Prop)
  (grants : Seen → (request : Request) → Reply request → Prop)

def Observer.listen : Observer Request Reply (Heard Seen) where
  allows h := o.allows h.seen
  expects h := o.expects h.seen
  see h request reply :=
    { seen := o.see h.seen request reply
      asked := h.asked ∨ asks h.seen request
      granted := h.granted ∨ asks h.seen request ∧ grants h.seen request reply }

variable (code : Code Request Reply Label) (start : Label) (answers : Nat → Answer Request Reply)
  (first : Seen)

def Asked (n : Nat) : Prop :=
  ∃ request, Calls code start answers n request ∧ asks (seenBefore code start answers o first n) request

def Granted (n : Nat) : Prop :=
  ∃ request, Calls code start answers n request ∧
    asks (seenBefore code start answers o first n) request ∧
      grants (seenBefore code start answers o first n) request (answers n request)

def ExpectedFrom (n : Nat) : Prop :=
  ∀ m, n ≤ m → ∀ request, Calls code start answers m request →
    o.expects (seenBefore code start answers o first m) request (answers m request)

/-- Who asks again and again is granted an answer. -/
def FairAnswers : Prop :=
  ∀ n, (∀ m, n ≤ m → ∃ k, m ≤ k ∧ Asked o asks code start answers first k) →
    ∃ k, n ≤ k ∧ Granted o asks grants code start answers first k

variable {o asks grants code start answers first}

theorem asked_call {n : Nat} {request : Request} {next : Reply request → Program Request Reply Label}
    (call : run code start answers n = .call request next) :
    Asked o asks code start answers first n ↔
      asks (seenBefore code start answers o first n) request := by
  constructor
  · rintro ⟨other, ⟨rest, same⟩, asked⟩
    rw [call] at same
    cases same
    exact asked
  · exact fun asked => ⟨request, ⟨next, call⟩, asked⟩

theorem granted_call {n : Nat} {request : Request}
    {next : Reply request → Program Request Reply Label}
    (call : run code start answers n = .call request next) :
    Granted o asks grants code start answers first n ↔
      asks (seenBefore code start answers o first n) request ∧
        grants (seenBefore code start answers o first n) request (answers n request) := by
  constructor
  · rintro ⟨other, ⟨rest, same⟩, granted⟩
    rw [call] at same
    cases same
    exact granted
  · exact fun granted => ⟨request, ⟨next, call⟩, granted⟩

theorem not_asked_done {n : Nat} {label : Label} (done : run code start answers n = .done label) :
    ¬ Asked o asks code start answers first n := by
  rintro ⟨request, ⟨rest, call⟩, _⟩
  rw [done] at call
  cases call

theorem Granted.asked {n : Nat} (granted : Granted o asks grants code start answers first n) :
    Asked o asks code start answers first n := by
  rcases granted with ⟨request, calls, asked, _⟩
  exact ⟨request, calls, asked⟩

theorem heardBefore (n : Nat) :
    seenBefore code start answers (o.listen asks grants) ⟨first, False, False⟩ n =
      { seen := seenBefore code start answers o first n
        asked := ∃ k, k < n ∧ Asked o asks code start answers first k
        granted := ∃ k, k < n ∧ Granted o asks grants code start answers first k } := by
  induction n with
  | zero => simp [seenBefore]
  | succ n ih =>
      rw [seenBefore, ih, seenBefore]
      simp only [Nat.lt_succ_iff_lt_or_eq, or_and_right, exists_or, exists_eq_left]
      cases state : run code start answers n with
      | done label =>
          have unasked : ¬ Asked o asks code start answers first n := not_asked_done state
          have ungranted : ¬ Granted o asks grants code start answers first n :=
            fun granted => unasked granted.asked
          simp [Observer.watch, unasked, ungranted]
      | call request next =>
          simp [Observer.watch, Observer.listen, asked_call state, granted_call state]

theorem exists_add (m k : Nat) (p : Nat → Prop) :
    (∃ j, j < k ∧ p (m + j)) ↔ ∃ j, m ≤ j ∧ j < m + k ∧ p j := by
  constructor
  · rintro ⟨j, before, holds⟩
    exact ⟨m + j, Nat.le_add_right m j, Nat.add_lt_add_left before m, holds⟩
  · rintro ⟨j, late, before, holds⟩
    refine ⟨j - m, by omega, ?_⟩
    rwa [Nat.add_sub_cancel' late]

section Blocks

variable {m : Nat} {label : Label} (now : run code start answers m = .done label)
include now

theorem asked_later (k : Nat) :
    Asked o asks code label (later answers m) (seenBefore code start answers o first m) k ↔
      Asked o asks code start answers first (m + k) := by
  rw [Asked, seenBefore_later now]
  simp only [calls_later now]
  rfl

theorem granted_later (k : Nat) :
    Granted o asks grants code label (later answers m) (seenBefore code start answers o first m)
      k ↔ Granted o asks grants code start answers first (m + k) := by
  rw [Granted, seenBefore_later now]
  simp only [calls_later now]
  rfl

theorem block_ends (expected : ExpectedFrom o code start answers first m)
    {post : Label → Heard Seen → Prop}
    (block : (code label).wp (o.listen asks grants) post
      ⟨seenBefore code start answers o first m, False, False⟩) :
    ∃ after, m < after ∧ ∃ next, run code start answers after = .done next ∧
      post next
        { seen := seenBefore code start answers o first after
          asked := ∃ k, m ≤ k ∧ k < after ∧ Asked o asks code start answers first k
          granted := ∃ k, m ≤ k ∧ k < after ∧ Granted o asks grants code start answers first k } := by
  have answered : Expected code label (later answers m) (o.listen asks grants)
      ⟨seenBefore code start answers o first m, False, False⟩ := by
    intro k request calls
    rw [heardBefore, seenBefore_later now]
    exact expected (m + k) (Nat.le_add_right m k) request ((calls_later now k request).mp calls)
  rcases ends answered 1 block with ⟨k, positive, next, reached, holds⟩
  rw [run_later now] at reached
  rw [heardBefore, seenBefore_later now] at holds
  refine ⟨m + k, Nat.lt_add_of_pos_right positive, next, reached, ?_⟩
  simp only [asked_later now, granted_later now, exists_add] at holds
  exact holds

end Blocks

theorem leaves {label : Label} {invariant : Seen → Prop} {leave : Label → Seen → Prop}
    (block : ∀ seen, invariant seen → (code label).wp (o.listen asks grants)
      (fun next h => leave next h.seen ∨
        next = label ∧ invariant h.seen ∧ h.asked ∧ ¬ h.granted) ⟨seen, False, False⟩)
    (fair : FairAnswers o asks grants code start answers first) {n : Nat}
    (expected : ExpectedFrom o code start answers first n)
    (now : run code start answers n = .done label)
    (holds : invariant (seenBefore code start answers o first n)) :
    ∃ m, n ≤ m ∧ ∃ next, run code start answers m = .done next ∧
      leave next (seenBefore code start answers o first m) := by
  by_contra never
  -- the loop goes on for ever, and nothing is granted in it
  have stays (j : Nat) : ∃ m, n + j ≤ m ∧ run code start answers m = .done label ∧
      invariant (seenBefore code start answers o first m) ∧
        (∀ k, n ≤ k → k < m → ¬ Granted o asks grants code start answers first k) ∧
          (0 < j → ∃ k, n + (j - 1) ≤ k ∧ Asked o asks code start answers first k) := by
    induction j with
    | zero =>
        refine ⟨n, Nat.le_refl n, now, holds, ?_, fun positive => absurd positive (Nat.lt_irrefl 0)⟩
        exact fun k late' before => absurd late' (Nat.not_le_of_lt before)
    | succ j ih =>
        rcases ih with ⟨m, late, here, kept, ungranted, _⟩
        have answered : ExpectedFrom o code start answers first m :=
          fun k late' => expected k (by omega)
        rcases block_ends here answered (block _ kept) with ⟨after, longer, next, reached, outcome⟩
        rcases outcome with left | ⟨rfl, keeps, ⟨k, begun, _, asked⟩, unheard⟩
        · exact absurd ⟨after, by omega, next, reached, left⟩ never
        · refine ⟨after, by omega, reached, keeps, ?_, fun _ => ⟨k, by omega, asked⟩⟩
          intro k late' before granted
          by_cases earlier : k < m
          · exact ungranted k late' earlier granted
          · exact unheard ⟨k, Nat.le_of_not_lt earlier, before, granted⟩
  have again (m : Nat) (late : n ≤ m) : ∃ k, m ≤ k ∧ Asked o asks code start answers first k := by
    rcases stays (m - n + 1) with ⟨_, _, _, _, _, asked⟩
    rcases asked (Nat.succ_pos _) with ⟨k, beyond, asked⟩
    exact ⟨k, by omega, asked⟩
  rcases fair n again with ⟨k, late, granted⟩
  rcases stays (k - n + 1) with ⟨m, beyond, _, _, ungranted, _⟩
  exact ungranted k late (by omega) granted

end Fairness

end FPGAMario.Interact
