import Famicom.Apu.Envelope
import Famicom.Apu.Length

/-! The noise channel: a 15-bit shift register fed back from bits 0 and 1, or 0 and 6. -/
namespace Famicom.Apu

structure Noise where
  short : Bool := false
  period : Nat := 4
  timer : Nat := 0
  shift : UInt16 := 1
  length : LengthCounter := {}
  envelope : Envelope := {}
deriving DecidableEq

namespace Noise

def periods : Vector Nat 16 := #v[
  4, 8, 16, 32, 64, 96, 128, 160, 202, 254, 380, 508, 762, 1016, 2034, 4068]

def write (n : Noise) (register : UInt16) (v : UInt8) : Noise :=
  match register with
  | 0 =>
    { n with length := n.length.setHalt (Byte.has v 0x20), envelope := n.envelope.write v }
  | 1 => n
  | 2 => { n with short := Byte.has v 0x80, period := Byte.select periods v }
  | _ => { n with length := n.length.load (v.toNat / 8), envelope := n.envelope.restart }

def feed (short : Bool) (s : UInt16) : UInt16 :=
  let tap := if short then s >>> 6 else s >>> 1
  s >>> (1 : UInt16) ||| ((s ^^^ tap) &&& 1) <<< (14 : UInt16)

def clockTimer (n : Noise) : Noise :=
  if n.timer = 0 then { n with timer := n.period - 1, shift := feed n.short n.shift }
  else { n with timer := n.timer - 1 }

def clockQuarter (n : Noise) : Noise := { n with envelope := n.envelope.clock }

def clockHalf (n : Noise) : Noise := { n with length := n.length.clock }

def output (n : Noise) : Nat :=
  if n.length.active && n.shift &&& 1 == 0 then n.envelope.output else 0

end Noise
end Famicom.Apu
