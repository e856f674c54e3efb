import Famicom.Ppu.Basic

/-! The eight registers that the processor sees. The data register reaches into picture memory:
what it reads or writes there is named here, and carried out by whoever holds that memory. -/
namespace Famicom.Ppu

@[inline] def target (p : Ppu) : Nat := p.v.raw % 0x4000

@[inline] def targetsPalette (p : Ppu) : Bool := 0x3F00 ≤ p.target

/-- The flags, over bits of the register bus that are not driven. -/
def status (p : Ppu) : UInt8 := p.flags ||| p.latch &&& 0x1F

/-- What a read of register `r` would return. Those that cannot be read return the last value on
the register bus. -/
def peek (p : Ppu) (r : Nat) : UInt8 :=
  match r with
  | 2 => p.status
  | 4 => Ram.read p.oam p.oamAddr.toNat
  | 7 => if p.targetsPalette then Palette.read p.palette p.target else p.buffer
  | _ => p.latch

/-- What a read of register `r` fetches. Palette memory lies over nametable memory, which is
fetched in its place. -/
def readFetch? (p : Ppu) (r : Nat) : Option Nat :=
  if r = 7 then some (if p.targetsPalette then p.target - 0x1000 else p.target) else none

/-- Moves the data register on. While tiles are fetched the scroll position moves instead. -/
def advanceTarget (p : Ppu) : Ppu :=
  if p.rendering && p.onRenderLine then { p with v := p.v.stepX.stepY }
  else { p with v := p.v.advance (if Byte.has p.ctrl 0x04 then 32 else 1) }

/-- A read of the data register comes from the buffer, which then takes up `data`; palette memory
is near enough to answer at once. -/
def readData (p : Ppu) (data : UInt8) : UInt8 × Ppu :=
  let v := if p.targetsPalette then Palette.read p.palette p.target else p.buffer
  (v, { p with buffer := data }.advanceTarget)

/-- A read of register `r`, `data` being what it fetched. -/
def read (p : Ppu) (r : Nat) (data : UInt8) : UInt8 × Ppu :=
  let (v, p) := match r with
    | 2 => (p.status, { p with vblank := false, toggle := false })
    | 4 => (Ram.read p.oam p.oamAddr.toNat, p)
    | 7 => p.readData data
    | _ => (p.latch, p)
  (v, { p with latch := v })

def writeTarget? (p : Ppu) (r : Nat) : Option Nat :=
  if r = 7 && !p.targetsPalette then some p.target else none

def writeScroll (p : Ppu) (v : UInt8) : Ppu :=
  if p.toggle then
    { p with t := (p.t.setFineY v.toNat).setCoarseY (v.toNat / 8), toggle := false }
  else
    { p with fineX := v &&& 7, t := p.t.setCoarseX (v.toNat / 8), toggle := true }

def writeAddress (p : Ppu) (v : UInt8) : Ppu :=
  if p.toggle then
    let t := p.t.setLow v
    { p with t, v := t, toggle := false }
  else { p with t := p.t.setHigh v, toggle := true }

def writeData (p : Ppu) (v : UInt8) : Ppu :=
  if p.targetsPalette then { p with palette := Palette.write p.palette p.target v }.advanceTarget
  else p.advanceTarget

/-- What a write to register `r` does, apart from picture memory. -/
def write (p : Ppu) (r : Nat) (v : UInt8) : Ppu :=
  let p := { p with latch := v }
  match r with
  | 0 => { p with ctrl := v, t := p.t.setTable v.toNat }
  | 1 => { p with mask := v }
  | 3 => { p with oamAddr := v }
  | 4 => p.writeOam v
  | 5 => p.writeScroll v
  | 6 => p.writeAddress v
  | 7 => p.writeData v
  | _ => p

end Famicom.Ppu
