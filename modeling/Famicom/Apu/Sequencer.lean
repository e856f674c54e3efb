import Famicom.Byte

/-! The frame sequencer: quarter-frame and half-frame clocks, counted in pairs of processor
cycles. -/
namespace Famicom.Apu

structure FrameClock where
  quarter : Bool := false
  half : Bool := false
deriving DecidableEq

structure Sequencer where
  fiveStep : Bool := false
  irqInhibit : Bool := false
  irq : Bool := false
  counter : Nat := 0
  oddCycle : Bool := false
  /-- Cycles until a mode change takes effect; zero when none is under way. -/
  delay : Nat := 0
  nextFiveStep : Bool := false
deriving DecidableEq

namespace Sequencer

def writeDelay : Nat := 3

def write (s : Sequencer) (v : UInt8) : Sequencer :=
  { s with
    irqInhibit := Byte.has v 0x40
    irq := s.irq && !Byte.has v 0x40
    delay := writeDelay
    nextFiveStep := Byte.has v 0x80 }

/-- A mode change restarts the count; into five steps it clocks at once. -/
def settle (s : Sequencer) : FrameClock × Sequencer :=
  if s.delay = 0 then ({}, s)
  else if s.delay = 1 then
    (if s.nextFiveStep then { quarter := true, half := true } else {},
      { s with delay := 0, fiveStep := s.nextFiveStep, counter := 0 })
  else ({}, { s with delay := s.delay - 1 })

/-- One count, in the middle of a pair of cycles. A step adds to what the cycle clocks already. -/
def advance (s : Sequencer) (clocks : FrameClock) : FrameClock × Sequencer :=
  let counter := s.counter + 1
  if counter = 3729 || counter = 11186 then ({ clocks with quarter := true }, { s with counter })
  else if counter = 7457 then ({ clocks with quarter := true, half := true }, { s with counter })
  else if counter = 14916 && !s.fiveStep then
    ({ clocks with quarter := true, half := true },
      { s with counter := 0, irq := s.irq || !s.irqInhibit })
  else if counter = 18641 && s.fiveStep then
    ({ clocks with quarter := true, half := true }, { s with counter := 0 })
  else (clocks, { s with counter })

def clock (s : Sequencer) : FrameClock × Sequencer :=
  let (clocks, s) := s.settle
  let s := { s with oddCycle := !s.oddCycle }
  if s.oddCycle then s.advance clocks else (clocks, s)

end Sequencer
end Famicom.Apu
