import Famicom.Byte

/-! The delta channel: a reader that asks for sample bytes, a one-byte buffer, and an output unit
that moves its level by two for every bit. -/
namespace Famicom.Apu

structure Dmc where
  irqEnabled : Bool := false
  loop : Bool := false
  period : Nat := 428
  timer : Nat := 0
  irq : Bool := false
  level : Nat := 0
  sampleAddress : UInt16 := 0xC000
  sampleLength : Nat := 1
  /-- Where the next byte is read. -/
  address : UInt16 := 0xC000
  remaining : Nat := 0
  buffer : UInt8 := 0
  bufferEmpty : Bool := true
  shift : UInt8 := 0
  bits : Nat := 8
  silent : Bool := true
deriving DecidableEq

namespace Dmc

def periods : Vector Nat 16 := #v[
  428, 380, 340, 320, 286, 254, 226, 214, 190, 160, 142, 128, 106, 84, 72, 54]

def write (d : Dmc) (register : UInt16) (v : UInt8) : Dmc :=
  match register with
  | 0 =>
    { d with
      irqEnabled := Byte.has v 0x80
      loop := Byte.has v 0x40
      period := Byte.select periods v
      irq := d.irq && Byte.has v 0x80 }
  | 1 => { d with level := v.toNat % 128 }
  | 2 => { d with sampleAddress := 0xC000 ||| v.toUInt16 <<< (6 : UInt16) }
  | _ => { d with sampleLength := v.toNat * 16 + 1 }

def restart (d : Dmc) : Dmc :=
  { d with address := d.sampleAddress, remaining := d.sampleLength }

/-- Either way the interrupt is acknowledged; enabling leaves a running sample alone. -/
def setEnabled (d : Dmc) (on : Bool) : Dmc :=
  let d := { d with irq := false }
  if !on then { d with remaining := 0 }
  else if d.remaining = 0 then d.restart
  else d

@[inline] def active (d : Dmc) : Bool := d.remaining != 0

@[inline] def wants (d : Dmc) : Bool := d.bufferEmpty && d.active

/-- Takes the byte that was asked for. The address wraps to the start of cartridge ROM. -/
def deliver (d : Dmc) (v : UInt8) : Dmc :=
  if d.wants then
    let d := { d with
      buffer := v
      bufferEmpty := false
      address := if d.address = 0xFFFF then 0x8000 else d.address + 1
      remaining := d.remaining - 1 }
    if d.remaining ≠ 0 then d
    else if d.loop then d.restart
    else { d with irq := d.irq || d.irqEnabled }
  else d

/-- The level after one sample bit; a step that would leave 0 to 127 is not taken. -/
def nudge (level : Nat) (up : Bool) : Nat :=
  if up then if level ≤ 125 then level + 2 else level
  else if 2 ≤ level then level - 2 else level

def clockTimer (d : Dmc) : Dmc :=
  if d.timer ≠ 0 then { d with timer := d.timer - 1 }
  else
    let d := { d with
      timer := d.period - 1
      level := if d.silent then d.level else nudge d.level (Byte.has d.shift 1)
      shift := d.shift >>> 1
      bits := d.bits - 1 }
    if d.bits ≠ 0 then d
    else if d.bufferEmpty then { d with bits := 8, silent := true }
    else { d with bits := 8, silent := false, shift := d.buffer, bufferEmpty := true }

end Dmc
end Famicom.Apu
