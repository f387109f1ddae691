import FPGAMario.ResetWindow

/-! The score as a count of rewards: a pickup is one rise of `coin_taken`, a squish one frame
pulse that kills a live goomba under Mario. -/

namespace FPGAMario

open Hdl Game

namespace Coin

section Step

variable (reset start pulse shift : Bool) (x y : BitVec 10) (block : BitVec 2) (c : Coin)

theorem step_of_taken (taken : c.coinTaken = true) :
    (c.step reset start pulse shift x y block).coinTaken = false ∧
      (reset = true ∨ start = false →
        (c.step reset start pulse shift x y block).isRunning = false) := by
  unfold step
  cases reset with
  | true => exact ⟨rfl, fun _ => rfl⟩
  | false =>
      cases start with
      | true => exact ⟨rfl, fun idle => by simp at idle⟩
      | false => simp [taken]

theorem step_stopped (stopped : c.isRunning = false) (idle : reset = true ∨ start = false) :
    (c.step reset start pulse shift x y block).isRunning = false := by
  unfold step
  cases reset with
  | true => rfl
  | false =>
      have low : start = false := by simpa using idle
      rw [low]
      by_cases taken : c.coinTaken = true <;> simp [taken, stopped]

theorem taken_step (taken : (c.step reset start pulse shift x y block).coinTaken = true) :
    c.coinTaken = false ∧ c.isRunning = true := by
  unfold step at taken
  cases reset with
  | true => simp [resetValue] at taken
  | false =>
      cases start with
      | true => simp [startValue] at taken
      | false =>
          cases again : c.coinTaken with
          | true => simp [again] at taken
          | false =>
              simp only [again, Bool.false_eq_true, if_false, decide_eq_true_eq] at taken
              exact ⟨rfl, taken.2⟩

end Step

end Coin

namespace Goomba

section Step

variable (reset start pulse shift : Bool) (spawnX spawnY x y : BitVec 10) (polls : GoombaPolls)
  (g : Goomba)

theorem step_killed_iff :
    (g.step reset false start pulse shift spawnX spawnY x y polls).goombaKilled = true ↔
      reset = false ∧ start = false ∧ pulse = true ∧ g.isAlive = true ∧ g.Squished x y := by
  unfold step
  cases reset with
  | true => simp [resetValue]
  | false =>
      cases start with
      | true => simp [startValue]
      | false =>
          cases pulse with
          | false => simp
          | true =>
              by_cases alive : g.isAlive = true
              · by_cases squished : g.Squished x y
                · simp [frameStep, alive, squished]
                · simp only [Bool.or_false, Bool.false_eq_true, if_false, if_true, frameStep,
                    alive, squished, walk]
                  split
                  · simp
                  · split <;> simp
              · simp [frameStep, alive]

theorem step_killed_dead
    (killed : (g.step reset false start pulse shift spawnX spawnY x y polls).goombaKilled = true) :
    (g.step reset false start pulse shift spawnX spawnY x y polls).isAlive = false := by
  rcases (step_killed_iff reset start pulse shift spawnX spawnY x y polls g).mp killed
    with ⟨released, low, edge, alive, squished⟩
  simp [step, frameStep, released, low, edge, alive, squished]

theorem step_dead (dead : g.isAlive = false) (idle : reset = true ∨ start = false) :
    (g.step reset false start pulse shift spawnX spawnY x y polls).isAlive = false := by
  unfold step
  cases reset with
  | true => rfl
  | false =>
      have low : start = false := by simpa using idle
      cases pulse with
      | true => simp [frameStep, low, dead]
      | false => simp [low, dead]

end Step

end Goomba

/-- At power-up the score is zero and no reward is pending; every other register is
arbitrary. -/
structure PowerUp (g : Game) : Prop where
  score : g.score = 0#8
  coinTaken : ∀ i, (g.coins i).coinTaken = false
  goombaKilled : g.goomba.goombaKilled = false

section Rewards

variable (board : Board) (start : Toplevel) (inputs : Nat → Input)

/-- `coin_taken` of slot `i` rises at edge `n`. -/
def Pickup (i : Fin 4) (n : Nat) : Prop :=
  ((Toplevel.run board start inputs n).game.coins i).coinTaken = false ∧
    ((Toplevel.run board start inputs (n + 1)).game.coins i).coinTaken = true

/-- The frame pulse at edge `n` kills a live goomba under Mario. -/
def Squish (n : Nat) : Prop :=
  let s := Toplevel.run board start inputs n
  s.game.resetH = false ∧ s.game.newColControl.getLsbD 0 = false ∧
    s.clock.pulses.goomba = true ∧ s.game.goomba.isAlive = true ∧
    s.game.goomba.Squished s.game.mario.marioXPos s.game.mario.marioYPos

instance (i : Fin 4) : DecidablePred (Pickup board start inputs i) :=
  fun _ => inferInstanceAs (Decidable (_ ∧ _))

instance : DecidablePred (Squish board start inputs) :=
  fun _ => inferInstanceAs (Decidable (_ ∧ _ ∧ _ ∧ _ ∧ _))

def CoinStart (i : Fin 4) (n : Nat) : Prop :=
  (Toplevel.run board start inputs n).game.resetH = false ∧
    (Toplevel.run board start inputs n).game.startCoin.getLsbD i.val = true

def GoombaStart (n : Nat) : Prop :=
  (Toplevel.run board start inputs n).game.resetH = false ∧
    (Toplevel.run board start inputs n).game.newColControl.getLsbD 0 = true

def rewards (n : Nat) : Nat :=
  addSlots 0 (fun i => Nat.count (Pickup board start inputs i) n) +
    2 * Nat.count (Squish board start inputs) n

theorem coinTaken_once (i : Fin 4) (n : Nat)
    (taken : ((Toplevel.run board start inputs n).game.coins i).coinTaken = true) :
    ((Toplevel.run board start inputs (n + 1)).game.coins i).coinTaken = false := by
  rw [Toplevel.run_game, step_coins]
  exact (Coin.step_of_taken _ _ _ _ _ _ _ _ taken).1

theorem pickup_iff (i : Fin 4) (n : Nat) : Pickup board start inputs i n ↔
    ((Toplevel.run board start inputs (n + 1)).game.coins i).coinTaken = true := by
  constructor
  · intro pickup
    exact pickup.2
  · intro taken
    refine ⟨?_, taken⟩
    rw [Toplevel.run_game, step_coins] at taken
    exact (Coin.taken_step _ _ _ _ _ _ _ _ taken).1

theorem goombaKilled_iff (n : Nat) :
    (Toplevel.run board start inputs (n + 1)).game.goomba.goombaKilled = true ↔
      Squish board start inputs n := by
  rw [Toplevel.run_game, step_goomba]
  apply Goomba.step_killed_iff

theorem goombaKilled_dead (n : Nat)
    (killed : (Toplevel.run board start inputs (n + 1)).game.goomba.goombaKilled = true) :
    (Toplevel.run board start inputs (n + 1)).game.goomba.isAlive = false := by
  rw [Toplevel.run_game, step_goomba] at killed ⊢
  apply Goomba.step_killed_dead
  exact killed

/-- Reset comes before a start, so without a start there is a Reset or no request. -/
theorem idle_of_quiet {reset request : Bool} (quiet : ¬ (reset = false ∧ request = true)) :
    reset = true ∨ request = false := by
  cases reset with
  | true => exact Or.inl rfl
  | false =>
      right
      rw [← Bool.not_eq_true]
      intro requested
      exact quiet ⟨rfl, requested⟩

theorem coin_stays_off (i : Fin 4) (n : Nat)
    (off : ¬ ((Toplevel.run board start inputs n).game.coins i).isRunning = true)
    (quiet : ¬ CoinStart board start inputs i n) :
    ¬ ((Toplevel.run board start inputs (n + 1)).game.coins i).isRunning = true := by
  rw [Bool.not_eq_true] at off ⊢
  rw [Toplevel.run_game, step_coins]
  apply Coin.step_stopped
  · exact off
  · exact idle_of_quiet quiet

theorem goomba_stays_dead (n : Nat)
    (dead : ¬ (Toplevel.run board start inputs n).game.goomba.isAlive = true)
    (quiet : ¬ GoombaStart board start inputs n) :
    ¬ (Toplevel.run board start inputs (n + 1)).game.goomba.isAlive = true := by
  rw [Bool.not_eq_true] at dead ⊢
  rw [Toplevel.run_game, step_goomba]
  apply Goomba.step_dead
  · exact dead
  · exact idle_of_quiet quiet

theorem pickups_started (i : Fin 4) (first second : Nat) (ordered : first < second)
    (earlier : Pickup board start inputs i first) (later : Pickup board start inputs i second) :
    ∃ k, first < k ∧ k < second ∧ CoinStart board start inputs i k := by
  have distinct : first + 1 ≠ second := by
    intro next
    rw [← next] at later
    have taken := earlier.2
    rw [later.1] at taken
    cases taken
  by_cases started : CoinStart board start inputs i (first + 1)
  · exact ⟨first + 1, by omega, by omega, started⟩
  have running : ((Toplevel.run board start inputs second).game.coins i).isRunning = true := by
    have taken := later.2
    rw [Toplevel.run_game, step_coins] at taken
    exact (Coin.taken_step _ _ _ _ _ _ _ _ taken).2
  have off : ¬ ((Toplevel.run board start inputs (first + 2)).game.coins i).isRunning = true := by
    rw [Bool.not_eq_true, Toplevel.run_game, step_coins]
    exact (Coin.step_of_taken _ _ _ _ _ _ _ _ earlier.2).2 (idle_of_quiet started)
  rcases start_between
    (fun k => ((Toplevel.run board start inputs k).game.coins i).isRunning = true)
    (CoinStart board start inputs i) (first + 2) second (by omega)
    (fun k _ => coin_stays_off board start inputs i k) off running with ⟨k, low, high, start⟩
  exact ⟨k, by omega, high, start⟩

theorem squishes_started (first second : Nat) (ordered : first < second)
    (earlier : Squish board start inputs first) (later : Squish board start inputs second) :
    ∃ k, first < k ∧ k < second ∧ GoombaStart board start inputs k := by
  have dead := goombaKilled_dead board start inputs first
    ((goombaKilled_iff board start inputs first).mpr earlier)
  rcases start_between
    (fun k => (Toplevel.run board start inputs k).game.goomba.isAlive = true)
    (GoombaStart board start inputs) (first + 1) second (by omega)
    (fun k _ => goomba_stays_dead board start inputs k) (by rw [dead]; decide) later.2.2.2.1
    with ⟨k, low, high, start⟩
  exact ⟨k, by omega, high, start⟩

theorem goombaKilled_once (n : Nat)
    (killed : (Toplevel.run board start inputs (n + 1)).game.goomba.goombaKilled = true) :
    (Toplevel.run board start inputs (n + 2)).game.goomba.goombaKilled = false := by
  have dead := goombaKilled_dead board start inputs n killed
  rw [← Bool.not_eq_true, goombaKilled_iff]
  intro squish
  rcases squish with ⟨-, -, -, alive, -⟩
  rw [dead] at alive
  cases alive

theorem bit8_decide (event : Prop) [Decidable event] :
    bit8 (decide event) = BitVec.ofNat 8 (if event then 1 else 0) := by
  by_cases holds : event <;> simp [bit8, holds]

/-- The adder adds exactly what the edge before it has earned. -/
theorem scoreIn_succ (n : Nat) :
    (Toplevel.run board start inputs (n + 1)).game.scoreIn =
      (Toplevel.run board start inputs (n + 1)).game.score +
        BitVec.ofNat 8 (rewards board start inputs (n + 1) - rewards board start inputs n) := by
  have coin (i : Fin 4) : ((Toplevel.run board start inputs (n + 1)).game.coins i).coinTaken =
      decide (Pickup board start inputs i n) := by
    rw [Bool.eq_iff_iff, decide_eq_true_eq, pickup_iff]
  have goomba : (Toplevel.run board start inputs (n + 1)).game.goomba.goombaKilled =
      decide (Squish board start inputs n) := by
    rw [Bool.eq_iff_iff, decide_eq_true_eq, goombaKilled_iff]
  have earned : rewards board start inputs (n + 1) - rewards board start inputs n =
      addSlots 0 (fun i => if Pickup board start inputs i n then 1 else 0) +
        2 * (if Squish board start inputs n then 1 else 0) := by
    simp only [rewards, addSlots, Nat.count_succ]
    omega
  rw [earned, scoreIn, goomba]
  simp only [coin, bit8_decide, addSlots, BitVec.ofNat_add, BitVec.ofNat_mul, BitVec.add_assoc,
    BitVec.zero_add]

theorem rewards_mono (n : Nat) :
    rewards board start inputs n ≤ rewards board start inputs (n + 1) := by
  simp only [rewards, addSlots, Nat.count_succ]
  omega

theorem score_succ (powered : PowerUp start.game) (n : Nat) :
    (Toplevel.run board start inputs (n + 1)).game.score =
      BitVec.ofNat 8 (rewards board start inputs n) := by
  induction n with
  | zero =>
      rw [Toplevel.run_game, step_score, Toplevel.run_start,
        scoreIn_idle _ powered.coinTaken powered.goombaKilled, powered.score]
      rfl
  | succ n ih =>
      have grown := rewards_mono board start inputs n
      calc (Toplevel.run board start inputs (n + 2)).game.score =
            (Toplevel.run board start inputs (n + 1)).game.scoreIn := rfl
        _ = BitVec.ofNat 8 (rewards board start inputs n) +
            BitVec.ofNat 8 (rewards board start inputs (n + 1) - rewards board start inputs n) := by
          rw [scoreIn_succ, ih]
        _ = BitVec.ofNat 8 (rewards board start inputs n +
            (rewards board start inputs (n + 1) - rewards board start inputs n)) := by
          rw [BitVec.ofNat_add]
        _ = BitVec.ofNat 8 (rewards board start inputs (n + 1)) := by
          rw [Nat.add_sub_cancel' grown]

/-- From power-up on the score is the number of rewards, each of which is asserted for one
cycle and added at the edge that ends it; a slot or the goomba pays once per start. -/
theorem score_counts_rewards (powered : PowerUp start.game) :
    (∀ n, (Toplevel.run board start inputs (n + 1)).game.score =
        BitVec.ofNat 8 (rewards board start inputs n)) ∧
      (∀ n, (Toplevel.run board start inputs (n + 1)).game.goomba.goombaKilled = true ↔
        Squish board start inputs n) ∧
      (∀ i n, ((Toplevel.run board start inputs n).game.coins i).coinTaken = true →
        ((Toplevel.run board start inputs (n + 1)).game.coins i).coinTaken = false) ∧
      (∀ n, (Toplevel.run board start inputs n).game.goomba.goombaKilled = true →
        (Toplevel.run board start inputs (n + 1)).game.goomba.goombaKilled = false) ∧
      (∀ i first second, first < second → Pickup board start inputs i first →
        Pickup board start inputs i second →
          ∃ k, first < k ∧ k < second ∧ CoinStart board start inputs i k) ∧
      ∀ first second, first < second → Squish board start inputs first →
        Squish board start inputs second →
          ∃ k, first < k ∧ k < second ∧ GoombaStart board start inputs k := by
  refine ⟨score_succ board start inputs powered, goombaKilled_iff board start inputs,
    coinTaken_once board start inputs, ?_, pickups_started board start inputs,
    squishes_started board start inputs⟩
  intro n killed
  cases n with
  | zero =>
      rw [Toplevel.run_start, powered.goombaKilled] at killed
      cases killed
  | succ n => exact goombaKilled_once board start inputs n killed

def coinPile : Toplevel where
  clock := (Toplevel.held numberedBoard).clock
  game :=
    { Game.held numberedBoard with
      resetH := false
      coins := fun _ => ⟨140#10, 419#10, false, true⟩ }

theorem score_counts_rewards_pile :
    (Toplevel.run numberedBoard coinPile shortPress 2).game.score =
        BitVec.ofNat 8 (rewards numberedBoard coinPile shortPress 1) ∧
      rewards numberedBoard coinPile shortPress 1 = 4 :=
  ⟨(score_counts_rewards numberedBoard coinPile shortPress ⟨rfl, fun _ => rfl, rfl⟩).1 1,
    by decide⟩

end Rewards

end FPGAMario
