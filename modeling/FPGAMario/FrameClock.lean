import FPGAMario.Hdl.Registers

/-! `VGA_controller`, the divided clock that drives it, and the six copies of the
`frame_clk` edge detector. -/

namespace FPGAMario

open Hdl

structure VgaController where
  vgaHs : Bool
  vgaVs : Bool
  vgaBlankN : Bool
  hCounter : BitVec 10
  vCounter : BitVec 10
  deriving DecidableEq, Repr

namespace VgaController

abbrev hTotal : BitVec 10 := 800#10
abbrev vTotal : BitVec 10 := 525#10

def hCounterIn (v : VgaController) : BitVec 10 :=
  if v.hCounter + 1#10 = hTotal then 0#10 else v.hCounter + 1#10

def vCounterIn (v : VgaController) : BitVec 10 :=
  if v.hCounter + 1#10 = hTotal then
    if v.vCounter + 1#10 = vTotal then 0#10 else v.vCounter + 1#10
  else v.vCounter

def step (reset : Bool) (v : VgaController) : VgaController :=
  if reset then
    { vgaHs := false, vgaVs := false, vgaBlankN := false, hCounter := 0#10, vCounter := 0#10 }
  else
    { vgaHs := !decide (656#10 ≤ v.hCounterIn ∧ v.hCounterIn < 752#10)
      vgaVs := !decide (490#10 ≤ v.vCounterIn ∧ v.vCounterIn < 492#10)
      vgaBlankN := decide (v.hCounterIn < 640#10 ∧ v.vCounterIn < 480#10)
      hCounter := v.hCounterIn
      vCounter := v.vCounterIn }

def frameClk (v : VgaController) : Bool :=
  decide (v.hCounter = 0#10 ∧ v.vCounter = 0#10)

end VgaController

/-- The `frame_clk_rising_edge` registers of Mario, the goomba and the four coins. -/
structure Pulses where
  mario : Bool
  goomba : Bool
  coin : Fin 4 → Bool

structure FrameClock where
  vgaClk : Bool
  vga : VgaController
  marioEdge : EdgeDetector
  goombaEdge : EdgeDetector
  coinEdge : Fin 4 → EdgeDetector

namespace FrameClock

/-- One edge of `Clk`. `VGA_CLK` has half the frequency, so it rises at every second one. -/
def step (reset : Bool) (c : FrameClock) : FrameClock where
  vgaClk := !c.vgaClk
  vga := if c.vgaClk then c.vga else c.vga.step reset
  marioEdge := c.marioEdge.step c.vga.frameClk
  goombaEdge := c.goombaEdge.step c.vga.frameClk
  coinEdge := fun i => (c.coinEdge i).step c.vga.frameClk

def pulses (c : FrameClock) : Pulses where
  mario := c.marioEdge.rising
  goomba := c.goombaEdge.rising
  coin := fun i => (c.coinEdge i).rising

/-- The six detectors hold the same values, as they do from the second edge on. -/
def Synced (c : FrameClock) : Prop :=
  c.goombaEdge = c.marioEdge ∧ ∀ i, c.coinEdge i = c.marioEdge

end FrameClock

end FPGAMario
