import Famicom.Main
import Famicom.Proofs.Ppu.Dot
import Famicom.Proofs.Ppu.Raster
import Famicom.Proofs.Scroll
import Famicom.Proofs.Ppu.Reach
import Famicom.Proofs.Ppu.TileMap
import Famicom.Proofs.Ppu.Pipeline
import Famicom.Proofs.Ppu.Drawing
import Famicom.Proofs.Ppu.Lineup
import Famicom.Proofs.Ppu.Slots
import Famicom.Proofs.Ppu.Foreground
import Famicom.Proofs.Bus
import Famicom.Proofs.Cpu.Writes
import Famicom.Proofs.Console.Run
import Famicom.Proofs.Console.MasterClock
import Famicom.Proofs.Console.Requests
import Famicom.Proofs.Ppu.Status
import Famicom.Proofs.Ppu.WellFormed
import Famicom.Proofs.Strict
import Famicom.Proofs.Ppu.Faultless
import Famicom.Proofs.Cartridge.LineCounter
import Famicom.Proofs.Ppu.Cadence
import Famicom.Proofs.Bus.Dots
import Famicom.Proofs.Bus.Scanlines
import Famicom.Proofs.Bus.TileCounts
import Famicom.Proofs.Ppu.SpriteFlags
import Famicom.Proofs.Cartridge.Accesses
import Famicom.Proofs.Cartridge.Image
import Famicom.Proofs.Cartridge.StrictAccess
import Famicom.Proofs.Cartridge.FixedWindows
import Famicom.Proofs.Cartridge.BankRegisters
import Famicom.Proofs.Cartridge.SerialPort
import Famicom.Proofs.Cartridge.Committed
import Famicom.Proofs.Cartridge.FilteredEdges
import Famicom.Proofs.Cartridge.Reset
import Famicom.Proofs.Cartridge.Format
import Famicom.Proofs.Bytes
import Famicom.Proofs.Latest
import Famicom.Proofs.Cpu.Costs
import Famicom.Proofs.Console.CycleCosts
import Famicom.Proofs.Cpu.Stack
import Famicom.Proofs.Cpu.Nesting
import Famicom.Proofs.Bus.Reads
import Famicom.Proofs.Bus.DataPort
import Famicom.Proofs.Cpu.Fetch
import Famicom.Proofs.Text
import Famicom.Proofs.Cpu.Frame
import Famicom.Proofs.Cpu.TraceLines
import Famicom.Proofs.Apu.SampleBytes
import Famicom.Proofs.Apu.FrameCycle
import Famicom.Proofs.Apu.Events
import Famicom.Proofs.Apu.WellFormed
import Famicom.Proofs.Apu.Faultless
import Famicom.Proofs.Console.SoundEvents
import Famicom.Proofs.Console.Reading
import Famicom.Proofs.Console.Driving
import Famicom.Proofs.Apu.SampleReader
import Famicom.Proofs.Ppu.Output
import Famicom.Proofs.Cpu.Unnoticed
import Famicom.Proofs.Ppu.FreshPicture
import Famicom.Proofs.Cartridge.StoredBytes
import Famicom.Proofs.Cpu.Charges
import Famicom.Proofs.Cpu.Combined
import Famicom.Proofs.Cpu.LongSums
import Famicom.Proofs.Bus.Isolation
import Famicom.Proofs.Controller
import Famicom.Proofs.Bus.SpriteTransfer
import Famicom.Proofs.Apu.LengthCounts
import Famicom.Proofs.Console.FrameEnd
import Famicom.Proofs.Apu.Divider
import Famicom.Proofs.Apu.Timers
import Famicom.Proofs.Cartridge.Fingerprint
import Famicom.Proofs.Ppu.ScrollWrites
import Famicom.Proofs.Ppu.ScrollSteps
import Famicom.Proofs.Cpu.TraceColumns
