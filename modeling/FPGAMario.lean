import FPGAMario.Clipping
import FPGAMario.FramePulses
import FPGAMario.Settling
import FPGAMario.Spawning
import FPGAMario.UsbWrites
import FPGAMario.ColorMapper
import FPGAMario.Picture
import FPGAMario.UsbMessages
import FPGAMario.ExactMoves
import FPGAMario.Ceiling
import FPGAMario.Corridor
import FPGAMario.GoombaWalls
import FPGAMario.PixelDelay
import FPGAMario.Interact.Program
import FPGAMario.UsbDriver
import FPGAMario.UsbKeyboard
import FPGAMario.UsbEnumeration
import FPGAMario.UsbFootprint
import FPGAMario.UsbLists
import FPGAMario.Interact.Fair
import FPGAMario.UsbLiveness
import FPGAMario.Frames
import FPGAMario.Console
import FPGAMario.Travel
import FPGAMario.Collecting
import FPGAMario.HexDriver
import FPGAMario.UsbReads
import FPGAMario.Machine
import FPGAMario.ReportPath
import FPGAMario.UsbHistory
import FPGAMario.Bricks
import FPGAMario.Hdl.PaidOnce
import FPGAMario.Offers
import FPGAMario.FullColumn
import FPGAMario.LevelMem
