import Famicom.Console.Pacer
import Famicom.Cpu
import Famicom.Cpu.Trace

/-! The console: one tick is one dot of the picture unit, and every third is a processor cycle. -/
namespace Famicom

structure Console where
  cpu : Cpu := {}
  bus : Bus := {}
  pacer : Pacer
  config : Config

namespace Console

def ofConfig (config : Config) : Console := { pacer := .ofConfig config, config }

def reset (c : Console) : Console :=
  let (cpu, bus) := Cpu.reset c.bus.reset
  { c with cpu, bus, pacer := c.pacer.clear }

def insert (c : Console) (cartridge : Cartridge) : Console :=
  { c with bus := c.bus.insert cartridge }.reset

@[inline] def onCpuCycle (c : Console) : Bool := c.pacer.ticks % 3 == 0

def clockDevices (c : Console) : Console :=
  let c := { c with pacer.ticks := c.pacer.ticks + 1, bus := c.bus.clockCartridge.clockPpu }
  if c.onCpuCycle then { c with bus := c.bus.clockApu } else c

/-- The processor's part; the mix is taken right after it. -/
def clockCpu (c : Console) : Console :=
  if c.onCpuCycle then
    let (_, cpu, bus) := c.cpu.clock c.bus
    { c with cpu, bus := bus.takeSample }
  else c

def pace (c : Console) : Bool × Console :=
  let (due, pacer) := c.pacer.advance
  (due, { c with pacer })

/-- One tick; says whether a sample is due. -/
def tick (c : Console) : Bool × Console := c.clockDevices.clockCpu.pace

def trace? (c : Console) : Option Cpu.Trace :=
  if c.onCpuCycle then c.cpu.trace? c.bus else none

def tickTraced (c : Console) : Option Cpu.Trace × Console :=
  let c := c.clockDevices
  let line := c.trace?
  (line, c.clockCpu.pace.2)

def runTicks (c : Console) : (n : Nat) → Console
  | 0 => c
  | n + 1 =>
    let c := c.tick.2
    let (ready, ppu) := c.bus.ppu.takeFrameReady
    let c := { c with bus := { c.bus with ppu } }
    if ready then c else runTicks c n

/-- Twice the longest frame. -/
def maxFrameTicks : Nat := 341 * 262 * 2

/-- Runs to the end of the next picture; a picture finished before does not count. Returns the
ticks that passed. -/
def runFrame (c : Console) : Nat × Console :=
  let start := c.pacer.ticks
  let c := { c with bus := { c.bus with ppu := c.bus.ppu.takeFrameReady.2 } }
  let c := c.runTicks maxFrameTicks
  (c.pacer.ticks - start, c)

def traceTicks (c : Console) (lines : Array Cpu.Trace) : (n : Nat) → Array Cpu.Trace × Console
  | 0 => (lines, c)
  | n + 1 =>
    let (line, c) := c.tickTraced
    let lines := line.elim lines lines.push
    let (ready, ppu) := c.bus.ppu.takeFrameReady
    let c := { c with bus := { c.bus with ppu } }
    if ready then (lines, c) else traceTicks c lines n

def traceFrame (c : Console) : Array Cpu.Trace × Console :=
  let c := { c with bus := { c.bus with ppu := c.bus.ppu.takeFrameReady.2 } }
  c.traceTicks #[] maxFrameTicks

theorem tickTraced_snd (c : Console) : c.tickTraced.2 = c.tick.2 := rfl

theorem traceTicks_snd (c : Console) (lines : Array Cpu.Trace) (n : Nat) :
    (c.traceTicks lines n).2 = c.runTicks n := by
  induction n generalizing c lines with
  | zero => rfl
  | succ n ih =>
    rw [traceTicks, runTicks, ← tickTraced_snd]
    dsimp only
    split <;> simp [ih]

/-- A log does not change what it records. -/
theorem traceFrame_snd (c : Console) : c.traceFrame.2 = c.runFrame.2 := by
  simp [traceFrame, runFrame, traceTicks_snd]

/-- Ticks until a sample is due. Where none ever is, they have no end. -/
def runToSample? (c : Console) : Option Console :=
  let next := c.tick
  if next.1 then some next.2 else next.2 |>.runToSample?
partial_fixpoint

/-- The mix goes to both channels, the low byte first. -/
def stereo (sample : Int16) : List UInt8 :=
  let lo := Byte.low sample.toUInt16
  let hi := Byte.high sample.toUInt16
  [lo, hi, lo, hi]

def appendSamples? (c : Console) (out : Array UInt8) : (n : Nat) → Option (Array UInt8 × Console)
  | 0 => some (out, c)
  | n + 1 => do
    let c ← c.runToSample?
    appendSamples? c (out ++ stereo c.bus.apu.sample) n

/-- Fills a buffer with as many stereo frames as it holds, and leaves what is over. Returns the
bytes filled. -/
def readSamples? (c : Console) (buffer : Array UInt8) : Option (Nat × Array UInt8 × Console) := do
  let frames := buffer.size / 4
  let (out, c) ← c.appendSamples? #[] frames
  some (4 * frames, out ++ buffer.extract (4 * frames), c)

def readSamples (c : Console) (buffer : Array UInt8) : Nat × Array UInt8 × Console :=
  (c.readSamples? buffer).getD (0, buffer, c)

/-- Starts at `pc` in place of the reset vector, with the flags that test logs start from. -/
def startAt (c : Console) (pc : UInt16) : Console :=
  { c with cpu.registers.pc := pc, cpu.registers.p := .ofByte 0x24 }

def summary (c : Console) : String :=
  let r := c.cpu.registers
  Cpu.Trace.registersText r ++ " PC:" ++ Cpu.Trace.wordText r.pc
    ++ s!" frames={c.bus.ppu.frame} cycles={c.cpu.cycles}"

def setButtons (c : Console) (seat : Nat) (mask : UInt8) : Console :=
  { c with bus := c.bus.setButtons seat mask }

end Console
end Famicom
