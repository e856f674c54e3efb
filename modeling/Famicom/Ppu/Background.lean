/-! The background pipeline: latches that gather a tile while the one before it is shifted out. -/
namespace Famicom.Ppu

structure Background where
  /-- The number of the next tile; its palette and bit planes follow. -/
  tile : UInt8 := 0
  attr : UInt8 := 0
  lo : UInt8 := 0
  hi : UInt8 := 0
  /-- Bit planes and palette bits of the tiles on screen; the high byte is the tile now shown. -/
  patternLo : UInt16 := 0
  patternHi : UInt16 := 0
  attrLo : UInt16 := 0
  attrHi : UInt16 := 0
deriving DecidableEq

namespace Background

@[inline] def shift (b : Background) : Background :=
  { b with
    patternLo := b.patternLo <<< 1
    patternHi := b.patternHi <<< 1
    attrLo := b.attrLo <<< 1
    attrHi := b.attrHi <<< 1 }

@[inline] def fill (shifter : UInt16) (v : UInt8) : UInt16 := (shifter &&& 0xFF00) ||| v.toUInt16

@[inline] def load (b : Background) : Background :=
  { b with
    patternLo := fill b.patternLo b.lo
    patternHi := fill b.patternHi b.hi
    attrLo := fill b.attrLo (if b.attr &&& 1 = 0 then 0 else 0xFF)
    attrHi := fill b.attrHi (if b.attr &&& 2 = 0 then 0 else 0xFF) }

@[inline] def tap (shifter : UInt16) (x : UInt8) : UInt8 :=
  (shifter >>> (15 - x.toUInt16) &&& 1).toUInt8

@[inline] def colour (b : Background) (x : UInt8) : UInt8 :=
  tap b.patternHi x <<< 1 ||| tap b.patternLo x

@[inline] def palette (b : Background) (x : UInt8) : UInt8 :=
  tap b.attrHi x <<< 1 ||| tap b.attrLo x

/-- Where the low plane of a row of the next tile is stored; the high plane follows at 8. -/
@[inline] def patternAddress (b : Background) (table fineY : Nat) : Nat :=
  table + b.tile.toNat * 16 + fineY

end Background
end Famicom.Ppu
