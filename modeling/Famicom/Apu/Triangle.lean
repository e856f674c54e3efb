import Famicom.Apu.Length
import Famicom.Byte

/-! The triangle channel: a ramp of 32 steps, gated by a length counter and a linear counter. -/
namespace Famicom.Apu

structure Triangle where
  /-- Halts the length counter and holds the linear reload. -/
  control : Bool := false
  linearPeriod : Nat := 0
  linear : Nat := 0
  linearReload : Bool := false
  period : Nat := 0
  timer : Nat := 0
  step : Nat := 0
  length : LengthCounter := {}
deriving DecidableEq

namespace Triangle

def write (t : Triangle) (register : UInt16) (v : UInt8) : Triangle :=
  match register with
  | 0 =>
    { t with
      control := Byte.has v 0x80
      length := t.length.setHalt (Byte.has v 0x80)
      linearPeriod := v.toNat % 128 }
  | 1 => t
  | 2 => { t with period := t.period / 256 * 256 + v.toNat }
  | _ =>
    { t with
      period := t.period % 256 + v.toNat % 8 * 256
      length := t.length.load (v.toNat / 8)
      linearReload := true }

def running (t : Triangle) : Bool := t.length.active && t.linear != 0

def clockTimer (t : Triangle) : Triangle :=
  if t.timer = 0 then
    { t with timer := t.period, step := if t.running then (t.step + 1) % 32 else t.step }
  else { t with timer := t.timer - 1 }

def clockQuarter (t : Triangle) : Triangle :=
  { t with
    linear := if t.linearReload then t.linearPeriod else t.linear - 1
    linearReload := t.linearReload && t.control }

def clockHalf (t : Triangle) : Triangle := { t with length := t.length.clock }

def output (t : Triangle) : Nat := if t.step < 16 then 15 - t.step else t.step - 16

end Triangle
end Famicom.Apu
