import Famicom.Apu.Envelope
import Famicom.Apu.Length

/-! The pulse channels: an eight-step duty cycle with a period that a sweep unit can bend. -/
namespace Famicom.Apu

structure Sweep where
  enabled : Bool := false
  period : Nat := 0
  negate : Bool := false
  shift : Nat := 0
  divider : Nat := 0
  reload : Bool := false
deriving DecidableEq

namespace Sweep

def write (s : Sweep) (v : UInt8) : Sweep :=
  { s with
    enabled := Byte.has v 0x80
    period := v.toNat / 16 % 8
    negate := Byte.has v 0x08
    shift := v.toNat % 8
    reload := true }

def clock (s : Sweep) : Sweep :=
  if s.divider = 0 || s.reload then { s with divider := s.period, reload := false }
  else { s with divider := s.divider - 1 }

end Sweep

structure Pulse where
  /-- The first channel subtracts one more than it should when its sweep goes down. -/
  onesComplement : Bool
  duty : Nat := 0
  step : Nat := 0
  period : Nat := 0
  timer : Nat := 0
  length : LengthCounter := {}
  envelope : Envelope := {}
  sweep : Sweep := {}
deriving DecidableEq

namespace Pulse

/-- One byte per duty setting; bit `i` is step `i`. -/
def waveforms : Vector Nat 4 := #v[0b00000010, 0b00000110, 0b00011110, 0b11111001]

def write (p : Pulse) (register : UInt16) (v : UInt8) : Pulse :=
  match register with
  | 0 =>
    { p with
      duty := v.toNat / 64
      length := p.length.setHalt (Byte.has v 0x20)
      envelope := p.envelope.write v }
  | 1 => { p with sweep := p.sweep.write v }
  | 2 => { p with period := p.period / 256 * 256 + v.toNat }
  | _ =>
    { p with
      period := p.period % 256 + v.toNat % 8 * 256
      length := p.length.load (v.toNat / 8)
      envelope := p.envelope.restart
      step := 0 }

def clockTimer (p : Pulse) : Pulse :=
  if p.timer = 0 then { p with timer := p.period, step := (p.step + 1) % 8 }
  else { p with timer := p.timer - 1 }

def clockQuarter (p : Pulse) : Pulse := { p with envelope := p.envelope.clock }

/-- The period that the sweep is heading for, which cannot fall below zero. -/
def target (p : Pulse) : Nat :=
  let change := p.period >>> p.sweep.shift
  if p.sweep.negate then p.period - (if p.onesComplement then change + 1 else change)
  else p.period + change

/-- The target mutes a channel even while its sweep is off. -/
def muted (p : Pulse) : Bool := p.period < 8 || 0x07FF < p.target

def clockHalf (p : Pulse) : Pulse :=
  let sweeps := p.sweep.divider == 0 && p.sweep.enabled && p.sweep.shift != 0 && !p.muted
  { p with
    period := if sweeps then p.target else p.period
    length := p.length.clock
    sweep := p.sweep.clock }

def high (p : Pulse) : Bool :=
  waveforms[p.duty % 4].testBit p.step

def output (p : Pulse) : Nat :=
  if p.length.active && !p.muted && p.high then p.envelope.output else 0

end Pulse
end Famicom.Apu
