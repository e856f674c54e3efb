import Famicom.Cpu.Status

/-! The registers, and the arithmetic that sets flags. -/
namespace Famicom.Cpu

structure Registers where
  a : UInt8 := 0
  x : UInt8 := 0
  y : UInt8 := 0
  sp : UInt8 := 0xFD
  pc : UInt16 := 0
  p : Status := {}
deriving DecidableEq

namespace Registers

def test (r : Registers) (v : UInt8) : Registers :=
  { r with p.negative := Byte.has v 0x80, p.zero := v == 0 }

def setA (r : Registers) (v : UInt8) : Registers := { r with a := v }.test v
def setX (r : Registers) (v : UInt8) : Registers := { r with x := v }.test v
def setY (r : Registers) (v : UInt8) : Registers := { r with y := v }.test v

def setCarry (r : Registers) (on : Bool) : Registers := { r with p.carry := on }

def carryBit (r : Registers) : UInt8 := if r.p.carry then 1 else 0

/-- Overflow: operands of one sign gave a sum of the other. -/
def adc (r : Registers) (m : UInt8) : Registers :=
  let sum := r.a.toNat + m.toNat + r.carryBit.toNat
  let v := UInt8.ofNat sum
  { r with
    p.carry := 0xFF < sum
    p.overflow := Byte.has (~~~(r.a ^^^ m) &&& (r.a ^^^ v)) 0x80 }.setA v

/-- The carry stands for no borrow, so that subtraction adds the complement. -/
def sbc (r : Registers) (m : UInt8) : Registers := r.adc (~~~m)

def compare (r : Registers) (v m : UInt8) : Registers := (r.setCarry (m ≤ v)).test (v - m)

def bit (r : Registers) (m : UInt8) : Registers :=
  { r with
    p.zero := r.a &&& m == 0
    p.negative := Byte.has m 0x80
    p.overflow := Byte.has m 0x40 }

/-! Shifts return the value beside the registers, as it may go to memory. -/

def asl (r : Registers) (v : UInt8) : UInt8 × Registers :=
  let w := v <<< 1
  (w, (r.setCarry (Byte.has v 0x80)).test w)

def lsr (r : Registers) (v : UInt8) : UInt8 × Registers :=
  let w := v >>> 1
  (w, (r.setCarry (Byte.has v 0x01)).test w)

def rol (r : Registers) (v : UInt8) : UInt8 × Registers :=
  let w := v <<< 1 ||| r.carryBit
  (w, (r.setCarry (Byte.has v 0x80)).test w)

def ror (r : Registers) (v : UInt8) : UInt8 × Registers :=
  let w := v >>> 1 ||| r.carryBit <<< 7
  (w, (r.setCarry (Byte.has v 0x01)).test w)

def inc (r : Registers) (v : UInt8) : UInt8 × Registers := (v + 1, r.test (v + 1))

def dec (r : Registers) (v : UInt8) : UInt8 × Registers := (v - 1, r.test (v - 1))

end Registers
end Famicom.Cpu
