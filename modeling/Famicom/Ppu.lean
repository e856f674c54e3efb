import Famicom.Ppu.Basic
import Famicom.Ppu.Registers

/-! The picture unit, dot by dot: 262 lines of 341 dots. Lines 0 to 239 are shown, the vertical
blank begins on line 241, and line 261 prepares line 0. At most one byte is fetched in a dot, so a
dot has two parts: the address it puts out, and what it does with the byte that answers. -/
namespace Famicom.Ppu

/-- The dots that shift out one tile and gather another, eight to a tile. -/
@[inline] def gathers (d : Nat) : Bool := (2 ≤ d && d ≤ 257) || (321 ≤ d && d ≤ 337)

@[inline] def slotOf (d : Nat) : Nat := (d - 257) / 8

def fetch? (p : Ppu) : Option Nat :=
  let d := p.dot
  if !(p.rendering && p.onRenderLine) then none
  else if gathers d then
    match (d - 1) % 8 with
    | 0 => some p.v.tileAddress
    | 2 => some p.v.attributeAddress
    | 4 => some (p.background.patternAddress p.backgroundTable p.v.fineY)
    | 6 => some (p.background.patternAddress p.backgroundTable p.v.fineY + 8)
    | _ => none
  else if 257 ≤ d && d ≤ 320 then
    let low := p.sprites.patternAddress p.tallSprites p.spriteTable p.scanline (slotOf d)
    match (d - 257) % 8 with
    | 4 => some low
    | 6 => some (low + 8)
    | _ => none
  else if d = 338 || d = 340 then some p.v.tileAddress
  else none

def gather (p : Ppu) (data : UInt8) : Ppu :=
  let p := if p.showsBackground then { p with background := p.background.shift } else p
  match (p.dot - 1) % 8 with
  | 0 => { p with background := { p.background.load with tile := data } }
  | 2 => { p with background.attr := p.v.attributeBits data }
  | 4 => { p with background.lo := data }
  | 6 => { p with background.hi := data }
  | 7 => { p with v := p.v.stepX }
  | _ => p

/-- The background part of a dot. The row moves down after the last pixel of a line; then the
column, and before the first line the row too, return to where the line starts. -/
def backgroundDot (p : Ppu) (data : UInt8) : Ppu :=
  let d := p.dot
  let p := if gathers d then p.gather data else p
  if d = 256 then { p with v := p.v.stepY }
  else if d = 257 then { p with background := p.background.load, v := p.v.copyX p.t }
  else if d = 338 || d = 340 then { p with background.tile := data }
  else if p.scanline = 261 && 280 ≤ d && d ≤ 304 then { p with v := p.v.copyY p.t }
  else p

def chooseDot (p : Ppu) : Ppu :=
  let d := p.dot
  if d = 0 then p
  else if d ≤ 64 then
    if d = 1 then { p with sprites := p.sprites.begin }
    else if d % 2 = 0 then { p with sprites := p.sprites.clear (d / 2 - 1) }
    else p
  else if d ≤ 256 && p.scanline != 261 && d % 2 == 1 then
    { p with
      overflow := p.overflow || p.sprites.overflows p.oam p.scanline p.spriteHeight
      sprites := p.sprites.evaluate p.oam p.scanline p.spriteHeight }
  else p

def spriteFetchDot (p : Ppu) (data : UInt8) : Ppu :=
  let slot := slotOf p.dot
  let p := { p with oamAddr := 0 }
  match (p.dot - 257) % 8 with
  | 0 => { p with sprites := p.sprites.take slot }
  | 4 => { p with sprites := p.sprites.loadLo slot data }
  | 6 => { p with sprites := p.sprites.loadHi slot data }
  | 7 => { p with sprites := p.sprites.place slot }
  | _ => p

def renderDot (p : Ppu) (data : UInt8) : Ppu :=
  let p := (p.backgroundDot data).chooseDot
  if 257 ≤ p.dot && p.dot ≤ 320 then p.spriteFetchDot data else p

/-- Colour and palette of the background in column `x`; the leftmost eight may be blanked. -/
@[inline] def backgroundPixel (p : Ppu) (x : Nat) : UInt8 × UInt8 :=
  if p.showsBackground && (8 ≤ x || Byte.has p.mask 0x02) then
    (p.background.colour p.fineX, p.background.palette p.fineX)
  else (0, 0)

@[inline] def spritePixel (p : Ppu) (x : Nat) : Option Sprite :=
  if p.showsSprites && (8 ≤ x || Byte.has p.mask 0x04) then p.sprites.winner else none

/-- Which palette entry is shown. Where neither layer has a colour it is the backdrop. -/
def mix (colour palette : UInt8) : Option Sprite → Nat
  | some s =>
    if colour = 0 || !s.behind then 0x10 + s.palette.toNat * 4 + s.colour.toNat
    else palette.toNat * 4 + colour.toNat
  | none => if colour = 0 then 0 else palette.toNat * 4 + colour.toNat

/-- A pixel of both layers, the sprite's from the first entry; the last column does not count. -/
def hitsZero (p : Ppu) (x : Nat) (colour : UInt8) : Option Sprite → Bool
  | some s => s.first && colour != 0 && p.showsBackground && p.showsSprites && x != 255
  | none => false

@[inline] def shade (p : Ppu) (entry : Nat) : UInt32 :=
  let colour := Palette.read p.palette entry
  let colour := if Byte.has p.mask 0x01 then colour &&& 0x30 else colour
  Palette.rgba (p.mask >>> 5) colour

def pixelDot (p : Ppu) : Ppu :=
  let x := p.dot - 1
  let (colour, palette) := p.backgroundPixel x
  let sprite := p.spritePixel x
  let rgba := p.shade (mix colour palette sprite)
  let p := { p with
    zeroHit := p.zeroHit || p.hitsZero x colour sprite
    back := p.back.setIfInBounds (p.scanline * 256 + x) rgba }
  if p.rendering then { p with sprites := p.sprites.advance } else p

def finish (p : Ppu) : Ppu :=
  { p with vblank := true, frameReady := true, back := p.front, front := p.back }

/-- To the next dot. While rendering, the first dot of odd frames is left out. -/
def advance (p : Ppu) (rendering : Bool) : Ppu :=
  if p.dot < 340 then { p with dot := p.dot + 1 }
  else if p.scanline < 261 then { p with dot := 0, scanline := p.scanline + 1 }
  else
    let frame := p.frame + 1
    { p with dot := if rendering && frame % 2 == 1 then 1 else 0, scanline := 0, frame }

def compose (p : Ppu) (data : UInt8) : Ppu :=
  let q :=
    if p.scanline = 261 && p.dot = 1 then
      { p with vblank := false, zeroHit := false, overflow := false }
    else p
  if p.rendering && p.onRenderLine then q.renderDot data else q

def clock (p : Ppu) (data : UInt8) : Ppu :=
  let q := p.compose data
  let q := if p.scanline < 240 && 1 ≤ p.dot && p.dot ≤ 256 then q.pixelDot else q
  let q := if p.scanline = 241 && p.dot = 1 then q.finish else q
  q.advance p.rendering

end Famicom.Ppu
