import Famicom.Ppu.Background
import Famicom.Ppu.Palette
import Famicom.Ppu.Scroll
import Famicom.Ppu.Sprite

/-! The state of the picture unit. -/
namespace Famicom

/-- A picture of 256 × 240 pixels, row by row. -/
abbrev Screen := Vector UInt32 61440

open Ppu in
structure Ppu where
  ctrl : UInt8 := 0
  mask : UInt8 := 0
  vblank : Bool := false
  zeroHit : Bool := false
  overflow : Bool := false
  oamAddr : UInt8 := 0
  /-- The position now shown, and the address of the data register. -/
  v : Scroll := {}
  /-- The position that the next line or frame starts from. -/
  t : Scroll := {}
  fineX : UInt8 := 0
  /-- The next write to a double register is the second. -/
  toggle : Bool := false
  /-- What the data register returns next. -/
  buffer : UInt8 := 0
  /-- The last value on the register bus. -/
  latch : UInt8 := 0
  background : Background := {}
  sprites : SpriteUnit := {}
  oam : Ram 256 := Ram.zeros _
  palette : Ram 32 := Ram.zeros _
  scanline : Nat := 0
  dot : Nat := 0
  /-- Frames begun since the reset. -/
  frame : Nat := 0
  frameReady : Bool := false
  /-- The picture being drawn, and the last one finished. -/
  back : Screen := Vector.replicate _ 0
  front : Screen := Vector.replicate _ 0

namespace Ppu

/-- Sprite and palette memory keep their contents. -/
def reset (p : Ppu) : Ppu := { oam := p.oam, palette := p.palette }

@[inline] def showsBackground (p : Ppu) : Bool := Byte.has p.mask 0x08
@[inline] def showsSprites (p : Ppu) : Bool := Byte.has p.mask 0x10
@[inline] def rendering (p : Ppu) : Bool := Byte.has p.mask 0x18
@[inline] def tallSprites (p : Ppu) : Bool := Byte.has p.ctrl 0x20
@[inline] def spriteHeight (p : Ppu) : Nat := if p.tallSprites then 16 else 8
@[inline] def spriteTable (p : Ppu) : Nat := if Byte.has p.ctrl 0x08 then 0x1000 else 0
@[inline] def backgroundTable (p : Ppu) : Nat := if Byte.has p.ctrl 0x10 then 0x1000 else 0

/-- The lines on which tiles are fetched: those shown, and the one before the first. -/
@[inline] def onRenderLine (p : Ppu) : Bool := p.scanline < 240 || p.scanline == 261

def nmi (p : Ppu) : Bool := p.vblank && Byte.has p.ctrl 0x80

def flags (p : Ppu) : UInt8 :=
  (if p.vblank then 0x80 else 0) ||| (if p.zeroHit then 0x40 else 0) |||
  (if p.overflow then 0x20 else 0)

def writeOam (p : Ppu) (v : UInt8) : Ppu :=
  { p with oam := Ram.write p.oam p.oamAddr.toNat v, oamAddr := p.oamAddr + 1 }

def takeFrameReady (p : Ppu) : Bool × Ppu := (p.frameReady, { p with frameReady := false })

end Ppu
end Famicom
