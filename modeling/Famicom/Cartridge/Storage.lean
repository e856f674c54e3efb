import Famicom.Ram

/-! The memory chips of a cartridge. -/
namespace Famicom.Cartridge

/-- Whole banks of `size` bytes in a chip, counting a chip smaller than one as one. -/
def bankCount (chip size : Nat) : Nat := max 1 (chip / size)

structure Storage where
  prgRom : Array UInt8
  prgRam : Ram 0x2000 := Ram.zeros _
  chr : Array UInt8
  chrWritable : Bool

namespace Storage

/-- Offsets wrap at the end of the chip; an empty socket reads high. -/
@[inline] def readPrg (s : Storage) (offset : Nat) : UInt8 :=
  if h : s.prgRom.size = 0 then 0xFF
  else
    have := Nat.mod_lt offset (Nat.pos_of_ne_zero h)
    s.prgRom[offset % s.prgRom.size]

@[inline] def readChr (s : Storage) (offset : Nat) : UInt8 :=
  if h : s.chr.size = 0 then 0
  else
    have := Nat.mod_lt offset (Nat.pos_of_ne_zero h)
    s.chr[offset % s.chr.size]

def writeChr (s : Storage) (offset : Nat) (v : UInt8) : Storage :=
  if h : s.chrWritable = false ∨ s.chr.size = 0 then s
  else { s with chr := s.chr.set (offset % s.chr.size) v
                  (Nat.mod_lt _ (Nat.pos_of_ne_zero (not_or.mp h).2)) }

@[inline] def readRam (s : Storage) (a : UInt16) : UInt8 := s.prgRam.read a.toNat

@[inline] def writeRam (s : Storage) (a : UInt16) (v : UInt8) : Storage :=
  { s with prgRam := s.prgRam.write a.toNat v }

end Storage
end Famicom.Cartridge
