import FPGAMario.VideoTiming

/-! One frame pulse for every frame, from whatever counters a Reset leaves. -/

namespace FPGAMario

open Hdl

namespace VgaController

/-- Ticks to the end of the line, when a counter that starts past it first has to wrap. -/
def ticksLeft (h : Nat) : Nat := if h < 800 then 800 - h else 1824 - h

def linesLeft (v : Nat) : Nat := if v < 525 then 524 - v else 1023 - v

def rank (v : VgaController) : Nat :=
  800 * linesLeft v.vCounter.toNat + ticksLeft v.hCounter.toNat

theorem rank_le (v : VgaController) : v.rank ≤ 420224 := by
  have across := v.hCounter.isLt
  have down := v.vCounter.isLt
  simp only [rank, linesLeft, ticksLeft]
  split <;> split <;> omega

theorem hCounterIn_any (v : VgaController) : v.hCounterIn.toNat =
    if v.hCounter.toNat = 799 ∨ v.hCounter.toNat = 1023 then 0 else v.hCounter.toNat + 1 := by
  simp only [hCounterIn]
  split <;> split <;> bv_omega

theorem vCounterIn_any (v : VgaController) : v.vCounterIn.toNat =
    if v.hCounter.toNat = 799 then
      (if v.vCounter.toNat = 524 ∨ v.vCounter.toNat = 1023 then 0 else v.vCounter.toNat + 1)
    else v.vCounter.toNat := by
  simp only [vCounterIn]
  split <;> split <;> (try split) <;> (try split) <;> bv_omega

theorem ticksLeft_next (h : Nat) (bound : h < 1024) (inside : h ≠ 799) :
    ticksLeft (if h = 1023 then 0 else h + 1) < ticksLeft h := by
  simp only [ticksLeft]
  split <;> split <;> split <;> omega

theorem linesLeft_next (v : Nat) (bound : v < 1024) (inside : ¬ (v = 524 ∨ v = 1023)) :
    linesLeft (v + 1) + 1 = linesLeft v := by
  simp only [linesLeft]
  split <;> split <;> omega

theorem rank_step (v : VgaController) :
    (v.step false).frameClk = true ∨ (v.step false).rank < v.rank := by
  have horizontal : (v.step false).hCounter.toNat = _ := hCounterIn_any v
  have vertical : (v.step false).vCounter.toNat = _ := vCounterIn_any v
  rw [frameClk_iff, pixel, rank, rank]
  by_cases endOfLine : v.hCounter.toNat = 799
  · simp only [endOfLine, true_or, if_true] at horizontal vertical
    by_cases endOfFrame : v.vCounter.toNat = 524 ∨ v.vCounter.toNat = 1023
    · rw [if_pos endOfFrame] at vertical
      exact Or.inl (by omega)
    · rw [if_neg endOfFrame] at vertical
      have lines := linesLeft_next _ v.vCounter.isLt endOfFrame
      have first : ticksLeft 0 = 800 := rfl
      have last : ticksLeft 799 = 1 := rfl
      rw [horizontal, vertical, endOfLine]
      exact Or.inr (by omega)
  · simp only [endOfLine, false_or, if_false] at horizontal vertical
    have ticks := ticksLeft_next _ v.hCounter.isLt endOfLine
    rw [horizontal, vertical]
    exact Or.inr (by omega)

theorem step_leaves (v : VgaController) (origin : v.frameClk = true) :
    (v.step false).frameClk = false := by
  simp only [frameClk, decide_eq_true_eq] at origin
  simp [frameClk, step, hCounterIn, hTotal, origin.1]

end VgaController

section Runs

variable (board : Board) (start : Toplevel) (inputs : Nat → Input)

/-- The edge after cycle `n` takes the scan back to `(0, 0)`. -/
def Returns (n : Nat) : Prop :=
  (Toplevel.run board start inputs n).video.frameClk = false ∧
    (Toplevel.run board start inputs (n + 1)).video.frameClk = true

theorem pulse_iff_returns (n : Nat) :
    (Toplevel.run board start inputs (n + 2)).clock.marioEdge.rising = true ↔
      Returns board start inputs n := by
  have step : (Toplevel.run board start inputs (n + 2)).clock.marioEdge.rising =
      ((Toplevel.run board start inputs (n + 1)).video.frameClk &&
        !(Toplevel.run board start inputs n).video.frameClk) := rfl
  rw [step, Bool.and_eq_true, Bool.not_eq_true', Returns]
  exact and_comm

/-- Clk cycles to the next tick and from there to `(0, 0)`. -/
def cyclesLeft (n : Nat) : Nat :=
  2 * (Toplevel.run board start inputs n).video.rank +
    (Toplevel.run board start inputs n).clock.vgaClk.toNat

theorem returns_or_nearer (n : Nat)
    (unreset : (Toplevel.run board start inputs n).game.resetH = false) :
    Returns board start inputs n ∨
      cyclesLeft board start inputs (n + 1) < cyclesLeft board start inputs n := by
  have video := Toplevel.run_video board start inputs n
  have clock := Toplevel.run_vgaClk board start inputs n
  rw [unreset] at video
  rw [cyclesLeft, cyclesLeft, clock]
  cases edge : (Toplevel.run board start inputs n).clock.vgaClk with
  | true =>
      rw [edge, if_pos rfl] at video
      refine Or.inr ?_
      rw [video]
      simp
  | false =>
      rw [edge] at video
      simp only [Bool.false_eq_true, if_false] at video
      rw [Returns, video]
      rcases (Toplevel.run board start inputs n).video.rank_step with back | nearer
      · refine Or.inl ⟨?_, back⟩
        rw [← Bool.not_eq_true]
        intro origin
        rw [VgaController.step_leaves _ origin] at back
        contradiction
      · refine Or.inr ?_
        simp only [Bool.not_false, Bool.toNat_true, Bool.toNat_false]
        omega

theorem cyclesLeft_le (n : Nat) : cyclesLeft board start inputs n ≤ 840449 := by
  have ticks := (Toplevel.run board start inputs n).video.rank_le
  have edge := Bool.toNat_le (Toplevel.run board start inputs n).clock.vgaClk
  rw [cyclesLeft]
  omega

variable (r e : Nat)
  (unreset : ∀ k, r < k → k < e → (Toplevel.run board start inputs k).game.resetH = false)

include unreset

theorem returns_within (long : r + 840451 ≤ e) :
    ∃ q, r < q ∧ q < e ∧ Returns board start inputs q := by
  have bound := cyclesLeft_le board start inputs (r + 1)
  rcases within_rank (Returns board start inputs) (cyclesLeft board start inputs) (r + 1)
    (fun n late soon => returns_or_nearer board start inputs n (unreset n late (by omega)))
    with ⟨q, later, before, back⟩
  exact ⟨q, later, by omega, back⟩

theorem pulse_periodic (q : Nat) (later : r < q) (back : Returns board start inputs q) (m : Nat)
    (inside : q + 2 + m ≤ e) :
    (Toplevel.run board start inputs (q + 2 + m)).clock.marioEdge.rising =
      decide (m % 840000 = 0) := by
  have first := (pulse_iff_returns board start inputs q).mpr back
  have origin := pulse_atOrigin board start inputs q first
  cases m with
  | zero => exact first
  | succ m =>
      have quiet (k : Nat) (soon : k < m + 1) :
          (Toplevel.run board (Toplevel.run board start inputs (q + 2))
            (fun k => inputs (q + 2 + k)) k).game.resetH = false := by
        rw [Toplevel.run, ← run_add]
        exact unreset (q + 2 + k) (by omega) (by omega)
      have rising := run_rising board _ (fun k => inputs (q + 2 + k)) origin m quiet
      rw [Toplevel.run, ← run_add] at rising
      rw [Toplevel.run, rising, decide_eq_decide]
      omega

theorem pulse_once (q : Nat) (later : r < q) (back : Returns board start inputs q) (first : Nat)
    (after : q < first) (inside : first + 840000 ≤ e) :
    ∃! n, (first ≤ n ∧ n < first + 840000) ∧
      (Toplevel.run board start inputs n).clock.marioEdge.rising = true := by
  have periodic := pulse_periodic board start inputs r e unreset q later back
  have phase : ∃ m, first ≤ q + 2 + m ∧ q + 2 + m < first + 840000 ∧ m % 840000 = 0 :=
    ⟨(first - q + 839997) / 840000 * 840000, by omega, by omega, by omega⟩
  rcases phase with ⟨m, low, high, aligned⟩
  refine ⟨q + 2 + m, ⟨⟨low, high⟩, ?_⟩, ?_⟩
  · rw [periodic m (by omega), decide_eq_true aligned]
  · intro n other
    rcases other with ⟨⟨above, below⟩, pulse⟩
    rcases Nat.lt_or_eq_of_le (show q + 1 ≤ n by omega) with inside | same
    · obtain ⟨j, rfl⟩ := Nat.exists_eq_add_of_le (show q + 2 ≤ n from inside)
      rw [periodic j (by omega), decide_eq_true_eq] at pulse
      omega
    · obtain ⟨p, rfl⟩ : ∃ p, q = p + 1 := ⟨q - 1, by omega⟩
      rw [← same, pulse_iff_returns] at pulse
      have away := back.1
      rw [pulse.2] at away
      contradiction

end Runs

section Detectors

variable (board : Board) (start : Toplevel) (inputs : Nat → Input) (r : Nat)
  (powered : 0 < r ∨ start.clock.Synced)

include powered

theorem detectors_agree (n : Nat) (later : r < n) : (Toplevel.run board start inputs n).clock.pulses =
    Pulses.all (Toplevel.run board start inputs n).clock.marioEdge.rising := by
  apply FrameClock.pulses_of_synced
  match n, powered with
  | n + 2, _ => exact run_synced board start inputs n
  | 1, .inr synced => exact FrameClock.synced_step _ _ synced
  | 1, .inl positive => omega

/-- Up to the next Reset all six detectors agree, a pulse comes one cycle after the scan has returned
to `(0, 0)`, it returns within 840450 cycles, and any 840000 cycles after that have exactly one
pulse. -/
theorem one_pulse_until_reset (e : Nat)
    (unreset : ∀ k, r < k → k < e → (Toplevel.run board start inputs k).game.resetH = false) :
    (∀ n, r < n → (Toplevel.run board start inputs n).clock.pulses =
      Pulses.all (Toplevel.run board start inputs n).clock.marioEdge.rising) ∧
    (∀ n, (Toplevel.run board start inputs (n + 2)).clock.marioEdge.rising = true ↔
      Returns board start inputs n) ∧
    (r + 840451 ≤ e → ∃ q, r < q ∧ q < e ∧ Returns board start inputs q) ∧
    ∀ q, r < q → Returns board start inputs q → ∀ first, q < first → first + 840000 ≤ e →
      ∃! n, (first ≤ n ∧ n < first + 840000) ∧
        (Toplevel.run board start inputs n).clock.marioEdge.rising = true :=
  ⟨detectors_agree board start inputs r powered, pulse_iff_returns board start inputs,
    returns_within board start inputs r e unreset, pulse_once board start inputs r e unreset⟩

end Detectors

/-- After the last Reset all six detectors agree, a pulse comes one cycle after the scan has
returned to `(0, 0)`, the scan does return, and from then on any 840000 cycles in a row have
exactly one pulse. -/
theorem one_pulse_per_frame (board : Board) (start : Toplevel) (inputs : Nat → Input) (r : Nat)
    (powered : 0 < r ∨ start.clock.Synced)
    (unreset : ∀ k, r < k → (Toplevel.run board start inputs k).game.resetH = false) :
    (∀ n, r < n → (Toplevel.run board start inputs n).clock.pulses =
      Pulses.all (Toplevel.run board start inputs n).clock.marioEdge.rising) ∧
    (∀ n, (Toplevel.run board start inputs (n + 2)).clock.marioEdge.rising = true ↔
      Returns board start inputs n) ∧
    (∃ q, r < q ∧ Returns board start inputs q) ∧
    ∀ q, r < q → Returns board start inputs q → ∀ first, q < first →
      ∃! n, (first ≤ n ∧ n < first + 840000) ∧
        (Toplevel.run board start inputs n).clock.marioEdge.rising = true := by
  have until_reset (e : Nat) := one_pulse_until_reset board start inputs r powered e
    fun k later _ => unreset k later
  rcases until_reset (r + 840451) with ⟨agree, pulses, returns, -⟩
  refine ⟨agree, pulses, ?_, ?_⟩
  · rcases returns (Nat.le_refl _) with ⟨q, later, -, back⟩
    exact ⟨q, later, back⟩
  · intro q later back first after
    exact (until_reset (first + 840000)).2.2.2 q later back first after (Nat.le_refl _)

theorem one_pulse_per_frame_empty :
    (∀ n, 1 < n → (Toplevel.run emptyBoard (Toplevel.held graveBoard) (scriptInputs [])
        n).clock.pulses = Pulses.all (Toplevel.run emptyBoard (Toplevel.held graveBoard)
          (scriptInputs []) n).clock.marioEdge.rising) ∧
    (∀ n, (Toplevel.run emptyBoard (Toplevel.held graveBoard) (scriptInputs [])
        (n + 2)).clock.marioEdge.rising = true ↔
      Returns emptyBoard (Toplevel.held graveBoard) (scriptInputs []) n) ∧
    (∃ q, 1 < q ∧ Returns emptyBoard (Toplevel.held graveBoard) (scriptInputs []) q) ∧
    ∀ q, 1 < q → Returns emptyBoard (Toplevel.held graveBoard) (scriptInputs []) q →
      ∀ first, q < first → ∃! n, (first ≤ n ∧ n < first + 840000) ∧
        (Toplevel.run emptyBoard (Toplevel.held graveBoard) (scriptInputs [])
          n).clock.marioEdge.rising = true := by
  apply one_pulse_per_frame emptyBoard (Toplevel.held graveBoard) (scriptInputs []) 1
    (Or.inl Nat.one_pos)
  intro k later
  obtain ⟨n, rfl⟩ := Nat.exists_eq_add_of_le' (show 2 ≤ k from later)
  exact peaceful_resetH [] n

end FPGAMario
