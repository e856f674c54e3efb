import Famicom.Cartridge

/-! The bus of the picture unit: pattern tables on the cartridge, nametables in video RAM, folded
the way the cartridge is wired. Palette memory, from `$3F00`, is inside the unit. -/
namespace Famicom

structure PictureBus where
  /-- Room for four pages, of which two-page cartridges use two. -/
  vram : Ram 0x1000 := Ram.zeros _
  cartridge : Option Cartridge := none

namespace PictureBus

def mirroring (b : PictureBus) : Mirroring :=
  match b.cartridge with
  | some c => c.mirroring
  | none => .horizontal

def observe (b : PictureBus) (a : Nat) : PictureBus :=
  match b with
  | { vram, cartridge := some c } => { vram, cartridge := some (c.observe a) }
  | b => b

def peek (b : PictureBus) (a : Nat) : UInt8 :=
  let a := a % 0x4000
  if a < 0x2000 then
    match b.cartridge with
    | some c => (c.chrRead a).getD 0
    | none => 0
  else if a < 0x3F00 then Ram.read b.vram (b.mirroring.vramOffset a)
  else 0

def read (b : PictureBus) (a : Nat) : UInt8 × PictureBus :=
  let b := b.observe (a % 0x4000)
  (b.peek a, b)

def write (b : PictureBus) (a : Nat) (v : UInt8) : PictureBus :=
  let a := a % 0x4000
  let b := b.observe a
  if a < 0x2000 then { b with cartridge := b.cartridge.map (·.chrWrite a v) }
  else if a < 0x3F00 then
    { b with vram := Ram.write b.vram (b.mirroring.vramOffset a) v }
  else b

end PictureBus
end Famicom
