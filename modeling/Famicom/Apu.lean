import Famicom.Apu.Dmc
import Famicom.Apu.Mixer
import Famicom.Apu.Noise
import Famicom.Apu.Pulse
import Famicom.Apu.Sequencer
import Famicom.Apu.Triangle

/-! The sound unit: five channels, the sequencer that clocks them, and the mixer. -/
namespace Famicom

open Apu in
structure Apu where
  pulse1 : Pulse := { onesComplement := true }
  pulse2 : Pulse := { onesComplement := false }
  triangle : Triangle := {}
  noise : Noise := {}
  dmc : Dmc := {}
  sequencer : Sequencer := {}
  oddCycle : Bool := false
  /-- The mix last taken. -/
  sample : Int16 := 0
deriving DecidableEq

namespace Apu

def enable (s : Apu) (v : UInt8) : Apu :=
  { s with
    pulse1.length := s.pulse1.length.setEnabled (Byte.has v 0x01)
    pulse2.length := s.pulse2.length.setEnabled (Byte.has v 0x02)
    triangle.length := s.triangle.length.setEnabled (Byte.has v 0x04)
    noise.length := s.noise.length.setEnabled (Byte.has v 0x08)
    dmc := s.dmc.setEnabled (Byte.has v 0x10) }

def write (s : Apu) (a : UInt16) (v : UInt8) : Apu :=
  if a < 0x4000 then s
  else if a < 0x4004 then { s with pulse1 := s.pulse1.write (a &&& 3) v }
  else if a < 0x4008 then { s with pulse2 := s.pulse2.write (a &&& 3) v }
  else if a < 0x400C then { s with triangle := s.triangle.write (a &&& 3) v }
  else if a < 0x4010 then { s with noise := s.noise.write (a &&& 3) v }
  else if a < 0x4014 then { s with dmc := s.dmc.write (a &&& 3) v }
  else if a = 0x4015 then s.enable v
  else if a = 0x4017 then { s with sequencer := s.sequencer.write v }
  else s

def status (s : Apu) : UInt8 :=
  (if s.pulse1.length.active then 0x01 else 0) |||
  (if s.pulse2.length.active then 0x02 else 0) |||
  (if s.triangle.length.active then 0x04 else 0) |||
  (if s.noise.length.active then 0x08 else 0) |||
  (if s.dmc.active then 0x10 else 0) |||
  (if s.sequencer.irq then 0x40 else 0) |||
  (if s.dmc.irq then 0x80 else 0)

/-- Reading the status acknowledges the interrupt of the sequencer. -/
def readStatus (s : Apu) : UInt8 × Apu := (s.status, { s with sequencer.irq := false })

def clockQuarter (s : Apu) : Apu :=
  { s with
    pulse1 := s.pulse1.clockQuarter
    pulse2 := s.pulse2.clockQuarter
    triangle := s.triangle.clockQuarter
    noise := s.noise.clockQuarter }

def clockHalf (s : Apu) : Apu :=
  { s with
    pulse1 := s.pulse1.clockHalf
    pulse2 := s.pulse2.clockHalf
    triangle := s.triangle.clockHalf
    noise := s.noise.clockHalf }

/-- The pulse timers run at half the rate of the others. -/
def clockTimers (s : Apu) : Apu :=
  let s := { s with
    triangle := s.triangle.clockTimer
    noise := s.noise.clockTimer
    dmc := s.dmc.clockTimer
    oddCycle := !s.oddCycle }
  if s.oddCycle then
    { s with pulse1 := s.pulse1.clockTimer, pulse2 := s.pulse2.clockTimer }
  else s

def clockFrame (s : Apu) (frame : FrameClock) : Apu :=
  let s := if frame.quarter then s.clockQuarter else s
  if frame.half then s.clockHalf else s

/-- One processor cycle. -/
def clock (s : Apu) : Apu :=
  let (frame, sequencer) := s.sequencer.clock
  { s with sequencer }.clockFrame frame |>.clockTimers

def mix (s : Apu) : Float32 :=
  Mixer.mix s.pulse1.output s.pulse2.output s.triangle.output s.noise.output s.dmc.level

def takeSample (s : Apu) : Apu := { s with sample := Mixer.toSample s.mix }

def deliver (s : Apu) (v : UInt8) : Apu := { s with dmc := s.dmc.deliver v }

def irq (s : Apu) : Bool := s.sequencer.irq || s.dmc.irq

end Apu
end Famicom
