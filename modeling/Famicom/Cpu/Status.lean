import Famicom.Byte

/-! The status register. -/
namespace Famicom.Cpu

structure Status where
  negative : Bool := false
  overflow : Bool := false
  unused : Bool := true
  brk : Bool := true
  decimal : Bool := false
  irqDisable : Bool := true
  zero : Bool := false
  carry : Bool := false
deriving DecidableEq

namespace Status

def ofByte (v : UInt8) : Status where
  negative := Byte.has v 0x80
  overflow := Byte.has v 0x40
  unused := Byte.has v 0x20
  brk := Byte.has v 0x10
  decimal := Byte.has v 0x08
  irqDisable := Byte.has v 0x04
  zero := Byte.has v 0x02
  carry := Byte.has v 0x01

def toByte (s : Status) : UInt8 :=
  (if s.negative then 0x80 else 0) ||| (if s.overflow then 0x40 else 0) |||
  (if s.unused then 0x20 else 0) ||| (if s.brk then 0x10 else 0) |||
  (if s.decimal then 0x08 else 0) ||| (if s.irqDisable then 0x04 else 0) |||
  (if s.zero then 0x02 else 0) ||| (if s.carry then 0x01 else 0)

theorem ofByte_toByte (s : Status) : ofByte s.toByte = s := by
  rcases s with ⟨_ | _, _ | _, _ | _, _ | _, _ | _, _ | _, _ | _, _ | _⟩ <;> rfl

theorem toByte_ofByte (v : UInt8) : (ofByte v).toByte = v := by
  have h : ∀ n < 256, (ofByte (UInt8.ofNat n)).toByte = UInt8.ofNat n := by decide +kernel
  simpa using h v.toNat v.toNat_lt

def all (s : Status) (mask : UInt8) : Bool := s.toByte &&& mask == mask

def put (s : Status) (mask : UInt8) (on : Bool) : Status := ofByte (Byte.put s.toByte mask on)

/-- The byte that goes on the stack: the break flag tells software from hardware. -/
def pushed (s : Status) (software : Bool) : UInt8 :=
  { s with unused := true, brk := software }.toByte

def restored (v : UInt8) : Status := { ofByte v with unused := true, brk := false }

end Status
end Famicom.Cpu
