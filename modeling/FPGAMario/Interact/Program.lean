import FPGAMario.Hdl.Run

/-! Programs that stop at calls and go on with the replies, code made of labelled blocks of them,
and what an observer of the calls can be sure of over a whole run. -/

namespace FPGAMario.Interact

inductive Program (Request : Type) (Reply : Request → Type) (Value : Type) : Type
  | done (value : Value)
  | call (request : Request) (next : Reply request → Program Request Reply Value)

namespace Program

variable {Request : Type} {Reply : Request → Type} {Value Result Seen : Type}

def bind (p : Program Request Reply Value) (f : Value → Program Request Reply Result) :
    Program Request Reply Result :=
  match p with
  | .done value => f value
  | .call request next => .call request fun reply => (next reply).bind f

instance : Monad (Program Request Reply) where
  pure := .done
  bind := bind

def request? : Program Request Reply Value → Option Request
  | .done _ => none
  | .call request _ => some request

def perform (request : Request) : Program Request Reply (Reply request) := .call request .done

theorem call_bind (request : Request) (next : Reply request → Program Request Reply Value)
    (f : Value → Program Request Reply Result) :
    (Program.call request next >>= f) = .call request fun reply => next reply >>= f := rfl

theorem bind_bind {Final : Type} (p : Program Request Reply Value)
    (f : Value → Program Request Reply Result) (g : Result → Program Request Reply Final) :
    p >>= f >>= g = p >>= fun value => f value >>= g := by
  induction p with
  | done value => rfl
  | call request next ih =>
      rw [call_bind, call_bind, call_bind]
      congr 1
      funext reply
      exact ih reply

end Program

/-- A specification automaton: the calls it allows, the replies it expects to them, and what it has
seen after one. -/
structure Observer (Request : Type) (Reply : Request → Type) (Seen : Type) where
  allows : Seen → Request → Prop
  expects : Seen → (request : Request) → Reply request → Prop
  see : Seen → (request : Request) → Reply request → Seen

section Rules

variable {Request : Type} {Reply : Request → Type} {Value Result Seen : Type}
  (o : Observer Request Reply Seen)

/-- Whatever the replies, every call of the program is allowed and it ends with `post`. -/
def Program.wp (p : Program Request Reply Value) (post : Value → Seen → Prop) (seen : Seen) : Prop :=
  match p with
  | .done value => post value seen
  | .call request next => o.allows seen request ∧
      ∀ reply, o.expects seen request reply → (next reply).wp post (o.see seen request reply)

namespace Program

variable {o} {post : Value → Seen → Prop} {seen : Seen}

@[simp] theorem wp_done (value : Value) :
    (.done value : Program Request Reply Value).wp o post seen = post value seen := rfl

@[simp] theorem wp_pure (value : Value) :
    (pure value : Program Request Reply Value).wp o post seen = post value seen := rfl

theorem wp_call (request : Request) (next : Reply request → Program Request Reply Value) :
    (Program.call request next).wp o post seen = (o.allows seen request ∧
      ∀ reply, o.expects seen request reply →
        (next reply).wp o post (o.see seen request reply)) := rfl

@[simp] theorem wp_bind (p : Program Request Reply Result)
    (f : Result → Program Request Reply Value) :
    (p >>= f).wp o post seen = p.wp o (fun result => (f result).wp o post) seen := by
  induction p generalizing seen with
  | done value => rfl
  | call request next ih =>
      rw [call_bind, wp_call, wp_call]
      congr 1
      apply forall_congr
      intro reply
      rw [ih reply]

@[simp] theorem wp_ite (c : Prop) [Decidable c] (p q : Program Request Reply Value) :
    (if c then p else q).wp o post seen = if c then p.wp o post seen else q.wp o post seen := by
  split <;> rfl

theorem wp_mono {p : Program Request Reply Value} {weaker : Value → Seen → Prop}
    (holds : p.wp o post seen) (weaken : ∀ value seen, post value seen → weaker value seen) :
    p.wp o weaker seen := by
  induction p generalizing seen with
  | done value => exact weaken value seen holds
  | call request next ih =>
      exact ⟨holds.1, fun reply expected => ih reply (holds.2 reply expected)⟩

theorem wp_of_allows (allows : ∀ seen request, o.allows seen request)
    {p : Program Request Reply Value} (always : ∀ value seen, post value seen) :
    p.wp o post seen := by
  induction p generalizing seen with
  | done value => exact always value seen
  | call request next ih => exact ⟨allows seen request, fun reply _ => ih reply⟩

variable {Seen' : Type} {o' : Observer Request Reply Seen'}

/-- One observer follows another one: what the first allows the second allows too, and the replies
that the second expects the first expects too. -/
theorem wp_simulate (related : Seen → Seen' → Prop)
    (follows : ∀ seen seen', related seen seen' → ∀ request, o.allows seen request →
      o'.allows seen' request ∧ ∀ reply, o'.expects seen' request reply →
        o.expects seen request reply ∧
          related (o.see seen request reply) (o'.see seen' request reply))
    {p : Program Request Reply Value} {seen' : Seen'} (holds : p.wp o post seen)
    (first : related seen seen') :
    p.wp o' (fun value after' => ∃ after, related after after' ∧ post value after) seen' := by
  induction p generalizing seen seen' with
  | done value => exact ⟨seen, first, holds⟩
  | call request next ih =>
      have allowed := follows seen seen' first request holds.1
      refine ⟨allowed.1, ?_⟩
      intro reply expected
      have later := allowed.2 reply expected
      exact ih reply (holds.2 reply later.1) later.2

end Program

end Rules

/-- Code in blocks: each block ends with the label of the next. -/
abbrev Code (Request : Type) (Reply : Request → Type) (Label : Type) :=
  Label → Program Request Reply Label

/-- The replies the outside has ready in one step, whatever is called. -/
abbrev Answer (Request : Type) (Reply : Request → Type) := (request : Request) → Reply request

section Runs

variable {Request : Type} {Reply : Request → Type} {Label Seen : Type}

def step (code : Code Request Reply Label) (answer : Answer Request Reply) :
    Program Request Reply Label → Program Request Reply Label
  | .done label => code label
  | .call request next => next (answer request)

variable (code : Code Request Reply Label) (start : Label) (answers : Nat → Answer Request Reply)

/-- What is left of the current block in step `n`. -/
abbrev run : Nat → Program Request Reply Label := Hdl.run (step code) (.done start) answers

def Calls (n : Nat) (request : Request) : Prop :=
  ∃ next, run code start answers n = .call request next

variable (o : Observer Request Reply Seen)

def Observer.watch (answer : Answer Request Reply) (seen : Seen) :
    Program Request Reply Label → Seen
  | .done _ => seen
  | .call request _ => o.see seen request (answer request)

def seenBefore (first : Seen) : Nat → Seen
  | 0 => first
  | n + 1 => o.watch (answers n) (seenBefore first n) (run code start answers n)

def Expected (first : Seen) : Prop :=
  ∀ n request, Calls code start answers n request →
    o.expects (seenBefore code start answers o first n) request (answers n request)

/-- The blocks keep the invariant from label to label, with allowed calls only. -/
def Keeps (invariant : Label → Seen → Prop) : Prop :=
  ∀ label seen, invariant label seen → (code label).wp o invariant seen

variable {code start answers o} {invariant : Label → Seen → Prop} {first : Seen}

theorem wp_step (expected : Expected code start answers o first) {n : Nat}
    {post : Label → Seen → Prop}
    (holds : (run code start answers n).wp o post (seenBefore code start answers o first n))
    (next : ∀ label, run code start answers n = .done label →
      (code label).wp o post (seenBefore code start answers o first n)) :
    (run code start answers (n + 1)).wp o post
      (seenBefore code start answers o first (n + 1)) := by
  rw [run, Hdl.run_succ, ← run, seenBefore]
  cases state : run code start answers n with
  | done label => exact next label state
  | call request rest =>
      rw [state] at holds
      exact holds.2 (answers n request) (expected n request ⟨rest, state⟩)

theorem Keeps.run_wp (keeps : Keeps code o invariant) (initially : invariant start first)
    (expected : Expected code start answers o first) (n : Nat) :
    (run code start answers n).wp o invariant (seenBefore code start answers o first n) := by
  induction n with
  | zero => exact initially
  | succ n ih =>
      apply wp_step expected ih
      intro label state
      rw [state] at ih
      exact keeps label _ ih

theorem Keeps.allows (keeps : Keeps code o invariant) (initially : invariant start first)
    (expected : Expected code start answers o first) (n : Nat) (request : Request)
    (calls : Calls code start answers n request) :
    o.allows (seenBefore code start answers o first n) request := by
  rcases calls with ⟨next, state⟩
  have holds := keeps.run_wp initially expected n
  rw [state] at holds
  exact holds.1

theorem Keeps.at_label (keeps : Keeps code o invariant) (initially : invariant start first)
    (expected : Expected code start answers o first) (n : Nat) (label : Label)
    (state : run code start answers n = .done label) :
    invariant label (seenBefore code start answers o first n) := by
  have holds := keeps.run_wp initially expected n
  rw [state] at holds
  exact holds

variable (code start answers)

theorem reaches_label (n : Nat) : ∃ m, n ≤ m ∧ ∃ label, run code start answers m = .done label := by
  generalize state : run code start answers n = p
  induction p generalizing n with
  | done label => exact ⟨n, Nat.le_refl n, label, state⟩
  | call request next ih =>
      have later : run code start answers (n + 1) = next (answers n request) := by
        rw [run, Hdl.run_succ, ← run, state]
        rfl
      rcases ih _ (n + 1) later with ⟨m, after, reached⟩
      exact ⟨m, Nat.le_of_succ_le after, reached⟩

end Runs

section Play

variable {Request : Type} {Reply : Request → Type} {Label Seen : Type}
  (code : Code Request Reply Label) (start : Label) (o : Observer Request Reply Seen)
  (env : Seen → Answer Request Reply) (first : Seen)

/-- The run against an outside that answers by what the observer has seen. -/
def play : Nat → Program Request Reply Label × Seen
  | 0 => (.done start, first)
  | n + 1 =>
      match play n with
      | (p, seen) => (step code (env seen) p, o.watch (env seen) seen p)

def played (n : Nat) : Answer Request Reply := env (play code start o env first n).2

theorem play_eq (n : Nat) :
    play code start o env first n =
      (run code start (played code start o env first) n,
        seenBefore code start (played code start o env first) o first n) := by
  induction n with
  | zero => rfl
  | succ n ih =>
      have seen := congrArg Prod.snd ih
      have answer : played code start o env first n =
          env (seenBefore code start (played code start o env first) o first n) :=
        congrArg env seen
      rw [play, ih, seenBefore, run, Hdl.run_succ, ← run, answer]

theorem seenBefore_played (n : Nat) :
    seenBefore code start (played code start o env first) o first n =
      (play code start o env first n).2 :=
  congrArg Prod.snd (play_eq code start o env first n).symm

variable {code start o env first}

theorem calls_played {n : Nat} {request : Request}
    (calls : (play code start o env first n).1.request? = some request) :
    Calls code start (played code start o env first) n request := by
  rw [play_eq] at calls
  cases state : run code start (played code start o env first) n with
  | done label =>
      rw [state] at calls
      exact absurd calls (Option.some_ne_none request).symm
  | call other next =>
      rw [state] at calls
      cases calls
      exact ⟨next, state⟩

end Play

end FPGAMario.Interact
