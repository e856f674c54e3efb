import Famicom.Apu
import Famicom.Bus.Picture
import Famicom.Controller
import Famicom.Ppu

/-! The processor's bus and the devices on it. An address that nothing drives reads as the last
value that was on the bus. -/
namespace Famicom

structure Bus where
  ram : Ram 0x800 := Ram.zeros _
  picture : PictureBus := {}
  ppu : Ppu := {}
  apu : Apu := {}
  pad1 : Controller := {}
  pad2 : Controller := {}
  /-- The last value on the bus. -/
  openBus : UInt8 := 0
  /-- The page of a sprite transfer that was asked for. -/
  oamPage : Option UInt8 := none

namespace Bus

def cartridge (b : Bus) : Option Cartridge := b.picture.cartridge

def insert (b : Bus) (c : Cartridge) : Bus := { b with picture.cartridge := some c }

def reset (b : Bus) : Bus :=
  { picture := { cartridge := b.picture.cartridge.map Cartridge.reset }, ppu := b.ppu.reset }

def pad? (b : Bus) : (seat : Nat) → Option Controller
  | 0 => some b.pad1
  | 1 => some b.pad2
  | _ => none

def setButtons (b : Bus) (seat : Nat) (mask : UInt8) : Bus :=
  match seat with
  | 0 => { b with pad1 := b.pad1.setButtons mask }
  | 1 => { b with pad2 := b.pad2.setButtons mask }
  | _ => b

def nmi (b : Bus) : Bool := b.ppu.nmi

def irq (b : Bus) : Bool := b.apu.irq || b.picture.cartridge.any Cartridge.irq

/-! Clocks. -/

def clockCartridge (b : Bus) : Bus :=
  { b with picture.cartridge := b.picture.cartridge.map Cartridge.clock }

def clockPpu (b : Bus) : Bus :=
  match b.ppu.fetch? with
  | some a =>
    let (data, picture) := b.picture.read a
    { b with picture, ppu := b.ppu.clock data }
  | none => { b with ppu := b.ppu.clock 0 }

def clockApu (b : Bus) : Bus := { b with apu := b.apu.clock }

def takeSample (b : Bus) : Bus := { b with apu := b.apu.takeSample }

/-! Reads. -/

/-- What a read would return. Of the sound status, bit 5 is not driven. -/
def peek (b : Bus) (a : UInt16) : UInt8 :=
  if a < 0x2000 then Ram.read b.ram a.toNat
  else if a < 0x4000 then b.ppu.peek (a.toNat % 8)
  else if a < 0x4020 then
    if a = 0x4015 then b.apu.status ||| b.openBus &&& 0x20
    else if a = 0x4016 then b.pad1.peek
    else if a = 0x4017 then b.pad2.peek
    else b.openBus
  else
    match b.picture.cartridge with
    | some c => (c.cpuRead a).getD b.openBus
    | none => b.openBus

def readPpu (b : Bus) (r : Nat) : UInt8 × Bus :=
  match b.ppu.readFetch? r with
  | some a =>
    let (data, picture) := b.picture.read a
    let (v, ppu) := b.ppu.read r data
    (v, { b with picture, ppu })
  | none =>
    let (v, ppu) := b.ppu.read r 0
    (v, { b with ppu })

def readDevice (b : Bus) (a : UInt16) : UInt8 × Bus :=
  if a < 0x2000 then (Ram.read b.ram a.toNat, b)
  else if a < 0x4000 then b.readPpu (a.toNat % 8)
  else if a < 0x4020 then
    if a = 0x4015 then
      let (v, apu) := b.apu.readStatus
      (v ||| b.openBus &&& 0x20, { b with apu })
    else if a = 0x4016 then
      let (v, pad1) := b.pad1.read
      (v, { b with pad1 })
    else if a = 0x4017 then
      let (v, pad2) := b.pad2.read
      (v, { b with pad2 })
    else (b.openBus, b)
  else
    match b.picture.cartridge with
    | some c => ((c.cpuRead a).getD b.openBus, b)
    | none => (b.openBus, b)

def read (b : Bus) (a : UInt16) : UInt8 × Bus :=
  let (v, b) := b.readDevice a
  (v, { b with openBus := v })

def readWord (b : Bus) (a : UInt16) : UInt16 × Bus :=
  let (lo, b) := b.read a
  let (hi, b) := b.read (a + 1)
  (Byte.word lo hi, b)

/-! Writes. -/

def writePpu (b : Bus) (r : Nat) (v : UInt8) : Bus :=
  match b.ppu.writeTarget? r with
  | some a => { b with picture := b.picture.write a v, ppu := b.ppu.write r v }
  | none => { b with ppu := b.ppu.write r v }

def write (b : Bus) (a : UInt16) (v : UInt8) : Bus :=
  let b := { b with openBus := v }
  if a < 0x2000 then { b with ram := Ram.write b.ram a.toNat v }
  else if a < 0x4000 then b.writePpu (a.toNat % 8) v
  else if a < 0x4020 then
    if a = 0x4014 then { b with oamPage := some v }
    else if a = 0x4016 then { b with pad1 := b.pad1.writeStrobe v, pad2 := b.pad2.writeStrobe v }
    else if a < 0x4018 then { b with apu := b.apu.write a v }
    else b
  else { b with picture.cartridge := b.picture.cartridge.map (·.cpuWrite a v) }

/-! Transfers that stop the processor. -/

def takeOamPage (b : Bus) : Option UInt8 × Bus := (b.oamPage, { b with oamPage := none })

def copyOam (b : Bus) (a : UInt16) : (n : Nat) → Bus
  | 0 => b
  | n + 1 =>
    let (v, b) := b.read a
    copyOam { b with ppu := b.ppu.writeOam v } (a + 1) n

def transferOam (b : Bus) (page : UInt8) : Bus := b.copyOam (Byte.word 0 page) 256

/-- Reads the byte that the delta channel waits for; returns where it was read. -/
def serveDmc (b : Bus) : UInt16 × Bus :=
  let a := b.apu.dmc.address
  let (v, b) := b.read a
  (a, { b with apu := b.apu.deliver v })

end Bus
end Famicom
