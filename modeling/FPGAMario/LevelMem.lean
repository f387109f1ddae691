import FPGAMario.FullColumn
import FPGAMario.Offers

/-! The level of the game, `LevelMem.mif`, with which `LevelMemory` is initialised. -/

namespace FPGAMario

open Hdl Game

/-- The words that are not zero: six control bits, then the blocks from the ground up. -/
def levelMemWords : List (Nat × BitVec 36) :=
  [ (12, 0b000000_110_110_100_000_000_000_000_000_000_000#36),
    (13, 0b000000_111_111_101_000_000_000_000_000_000_000#36),
    (15, 0b000000_001_000_000_000_000_000_000_000_000_000#36),
    (17, 0b000001_000_000_000_000_000_000_000_000_000_000#36),
    (20, 0b000000_001_000_000_000_000_000_000_000_000_000#36),
    (25, 0b000000_000_000_000_010_000_000_000_000_000_000#36),
    (26, 0b000000_000_000_000_010_000_010_000_000_000_000#36),
    (27, 0b000000_000_000_000_010_000_010_000_011_000_000#36),
    (28, 0b000000_000_000_000_010_000_010_000_000_000_000#36),
    (29, 0b000000_000_000_000_010_000_000_000_000_000_000#36),
    (31, 0b100000_000_000_000_000_000_000_000_000_000_000#36),
    (32, 0b101010_000_000_000_000_000_000_000_000_000_000#36),
    (33, 0b110100_000_000_000_000_000_000_000_000_000_000#36),
    (34, 0b111110_000_000_000_000_000_000_000_000_000_000#36),
    (40, 0b000000_001_000_000_000_000_000_000_000_000_000#36),
    (43, 0b000001_000_000_000_000_000_000_000_000_000_000#36),
    (45, 0b000000_001_000_000_000_000_000_000_000_000_000#36),
    (50, 0b000000_010_000_000_000_000_000_000_000_000_000#36),
    (51, 0b000000_010_010_000_000_000_000_000_000_000_000#36),
    (52, 0b000000_010_010_010_000_000_000_000_000_000_000#36),
    (53, 0b000000_010_010_010_010_000_000_000_000_000_000#36),
    (54, 0b000000_010_010_010_010_010_000_000_000_000_000#36),
    (55, 0b000000_010_010_010_010_010_010_000_000_000_000#36),
    (57, 0b100000_000_000_000_000_000_000_000_000_000_000#36),
    (58, 0b111110_000_000_000_000_000_000_000_000_000_000#36),
    (59, 0b101011_000_000_000_000_000_000_000_000_000_000#36),
    (60, 0b110100_000_000_000_000_000_000_000_000_000_000#36),
    (65, 0b000000_110_110_110_100_000_000_000_000_000_000#36),
    (66, 0b000000_111_111_111_101_000_000_000_000_000_000#36),
    (72, 0b100100_000_010_000_000_000_000_000_000_000_000#36),
    (73, 0b111101_000_010_000_000_000_000_000_000_000_000#36),
    (74, 0b101100_000_010_000_000_000_000_000_000_000_000#36),
    (75, 0b110100_000_010_000_000_000_000_000_000_000_000#36),
    (255, 0b000000_001_010_011_100_101_110_111_110_101_100#36)]

def levelMem (address : BitVec 8) : BitVec 36 := (levelMemWords.lookup address.toNat).getD 0#36

/-- The board with this level; a select outside `blockCols` may read anything. -/
def levelBoard (outside : BlockCols → BitVec 10 → BitVec 5 → BitVec 3) : Board where
  levelMem := levelMem
  outside := outside

variable (outside : BlockCols → BitVec 10 → BitVec 5 → BitVec 3)

theorem levelMem_wall : FullColumn (levelBoard outside) 255 := by
  have blocks : ∀ r : Fin 10, part 3 (3 * r.val) (blockBits (levelMem (BitVec.ofNat 8 255))) ≠ 0#3 := by
    decide
  exact blocks

/-- Twelve coins, and four goombas: besides columns 17 and 43, the coin columns 59 and 73 ask for
one. -/
theorem levelMem_offered : offered (levelBoard outside) 252 = 20 := by
  have total : ∑ p ∈ Finset.range 252, worth (control (levelMem (BitVec.ofNat 8 (10 + p)))) = 20 := by
    decide +kernel
  exact total

/-- One life on this level: from a Reset on, whatever is typed and however long it lasts, Mario does
not get past the wall, the level does not start over, and there are twenty points to be had, and
those of the words that the Reset found on their way. -/
theorem life_on_level (outside : BlockCols → BitVec 10 → BitVec 5 → BitVec 3) (start : Toplevel)
    (inputs : Nat → Input) (reset : start.game.resetH = true) (n : Nat)
    (running : ∀ k, k < n → (sinceReset (levelBoard outside) start inputs k).game.resetH = false) :
    marioPlace (levelBoard outside) start inputs n ≤ 10301 ∧
      shifts (levelBoard outside) start inputs n ≤ 251 ∧
      rewards (levelBoard outside) start inputs (n + 1) ≤
        20 + leftOver (levelBoard outside) start := by
  have late : 10 ≤ 255 := by decide
  have wall := levelMem_wall outside
  have short := run_short reset late wall running
  have columns := run_shifts reset late wall running
  have earned := rewards_le_offered (levelBoard outside) start inputs reset n running
  have most := offered_mono (levelBoard outside)
    (show shifts (levelBoard outside) start inputs n + 1 ≤ 252 by omega)
  rw [levelMem_offered] at most
  exact ⟨short, by omega, by omega⟩

section FirstCoin

abbrev shippedBoard : Board := levelBoard fun _ _ _ => 0#3

def coinKeys : List (BitVec 8) :=
  List.replicate 229 0x07#8 ++ [0x1A#8] ++ List.replicate 200 0x07#8 ++ List.replicate 6 0x1A#8 ++
    List.replicate 340 0x07#8 ++ [0x1A#8] ++ List.replicate 91 0x07#8

def scores (board : Board) (g : Game) : Bool :=
  (g.step board (Pulses.all true) ⟨true, 0#8⟩).force fun first =>
    !first.goomba.killMario && Game.forceIdle board 9 first fun later => decide (later.score = 1#8)

set_option maxRecDepth 100000 in
theorem coin_played : playHeld shippedBoard (scores shippedBoard) coinKeys = true := by
  decide +kernel

theorem scores_first {board : Board} {g : Game} (passed : scores board g = true) :
    let first := g.step board (Pulses.all true) ⟨true, 0#8⟩
    first.goomba.killMario = false ∧ ((Game.idle board)^[9] first).score = 1#8 := by
  simp only [scores, Game.force_eq, Game.forceIdle_eq, Bool.and_eq_true, Bool.not_eq_true',
    decide_eq_true_eq] at passed
  exact passed

theorem coin_running (k : Nat) (bound : k ≤ scriptEnd coinKeys + 10) :
    (sinceReset shippedBoard (Toplevel.held shippedBoard) (scriptInputs coinKeys)
      k).game.resetH = false := by
  rcases Nat.le_total k (scriptEnd coinKeys) with early | late
  · exact playHeld_running shippedBoard _ coinKeys coin_played k early
  · rcases scores_first (playHeld_sound shippedBoard _ coinKeys coin_played).2.2 with ⟨safe, -⟩
    obtain ⟨j, rfl⟩ := Nat.exists_eq_add_of_le late
    exact (afterScript_cycle shippedBoard _ coinKeys coin_played safe 10 (by decide)).1 j (by omega)

end FirstCoin

theorem life_on_level_coin :
    let start := Toplevel.held shippedBoard
    let inputs := scriptInputs coinKeys
    let n := scriptEnd coinKeys + 10
    (sinceReset shippedBoard start inputs n).game.score = 1#8 ∧
      marioPlace shippedBoard start inputs n ≤ 10301 ∧
        shifts shippedBoard start inputs n ≤ 251 ∧
          rewards shippedBoard start inputs (n + 1) ≤ 20 + leftOver shippedBoard start := by
  intro start inputs n
  rcases scores_first (playHeld_sound shippedBoard _ coinKeys coin_played).2.2 with ⟨safe, point⟩
  constructor
  · have cycle := (afterScript_cycle shippedBoard _ coinKeys coin_played safe 9 (by decide)).2
    rw [← cycle] at point
    exact point
  · apply life_on_level
    · rfl
    · intro k bound
      exact coin_running k bound.le

end FPGAMario
