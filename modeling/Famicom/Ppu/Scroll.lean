/-! The scroll position of the picture unit, which is also its memory address: from the lowest
bit, coarse X (5), coarse Y (5), the nametable column and row (1 each), fine Y (3). -/
namespace Famicom.Ppu

structure Scroll where
  raw : Nat := 0
deriving DecidableEq

namespace Scroll

def ofNat (n : Nat) : Scroll := ⟨n % 0x8000⟩

@[inline] def coarseX (s : Scroll) : Nat := s.raw % 32
@[inline] def coarseY (s : Scroll) : Nat := s.raw / 32 % 32
@[inline] def tableX (s : Scroll) : Nat := s.raw / 0x400 % 2
@[inline] def tableY (s : Scroll) : Nat := s.raw / 0x800 % 2
@[inline] def fineY (s : Scroll) : Nat := s.raw / 0x1000 % 8

def setCoarseX (s : Scroll) (n : Nat) : Scroll := ⟨s.raw - s.coarseX + n % 32⟩
def setCoarseY (s : Scroll) (n : Nat) : Scroll := ⟨s.raw - s.coarseY * 32 + n % 32 * 32⟩
def setFineY (s : Scroll) (n : Nat) : Scroll := ⟨s.raw - s.fineY * 0x1000 + n % 8 * 0x1000⟩

def setTable (s : Scroll) (n : Nat) : Scroll :=
  ⟨s.raw - s.raw / 0x400 % 4 * 0x400 + n % 4 * 0x400⟩

def setLow (s : Scroll) (v : UInt8) : Scroll := ⟨s.raw / 256 * 256 + v.toNat⟩

def setHigh (s : Scroll) (v : UInt8) : Scroll := ⟨s.raw % 256 + v.toNat % 64 * 256⟩

@[inline] def tileAddress (s : Scroll) : Nat := 0x2000 + s.raw % 0x1000

@[inline] def attributeAddress (s : Scroll) : Nat :=
  0x23C0 + s.raw / 0x400 % 4 * 0x400 + s.coarseY / 4 * 8 + s.coarseX / 4

/-- An attribute byte holds two bits for each quadrant of 2 × 2 tiles. -/
@[inline] def attributeBits (s : Scroll) (v : UInt8) : UInt8 :=
  let v := if s.coarseY / 2 % 2 = 1 then v >>> 4 else v
  let v := if s.coarseX / 2 % 2 = 1 then v >>> 2 else v
  v &&& 3

def flipTableX (s : Scroll) : Scroll :=
  ⟨if s.tableX = 0 then s.raw + 0x400 else s.raw - 0x400⟩

def flipTableY (s : Scroll) : Scroll :=
  ⟨if s.tableY = 0 then s.raw + 0x800 else s.raw - 0x800⟩

/-- One tile to the right, into the next nametable after the last column. -/
def stepX (s : Scroll) : Scroll :=
  if s.coarseX = 31 then (s.setCoarseX 0).flipTableX else ⟨s.raw + 1⟩

/-- One row of pixels down, into the next nametable after tile row 29. Rows 30 and 31 hold the
attributes; below row 31 the same nametable starts again. -/
def stepY (s : Scroll) : Scroll :=
  if s.fineY < 7 then ⟨s.raw + 0x1000⟩
  else
    let top := s.setFineY 0
    if s.coarseY = 29 then (top.setCoarseY 0).flipTableY
    else if s.coarseY = 31 then top.setCoarseY 0
    else top.setCoarseY (s.coarseY + 1)

def copyX (s source : Scroll) : Scroll :=
  ⟨s.raw - s.coarseX - s.tableX * 0x400 + source.coarseX + source.tableX * 0x400⟩

def copyY (s source : Scroll) : Scroll :=
  ⟨s.coarseX + s.tableX * 0x400 + source.coarseY * 32 + source.tableY * 0x800
    + source.fineY * 0x1000⟩

def advance (s : Scroll) (n : Nat) : Scroll := ofNat (s.raw + n)

end Scroll
end Famicom.Ppu
