import Famicom.Byte
import Famicom.Cartridge.Mirroring

/-! The 16-byte iNES header, and the causes for which an image is refused. -/
namespace Famicom

inductive LoadError where
  | badMagic
  | truncated (expected actual : Nat)
  | unsupportedMapper (id : Nat)
deriving DecidableEq

def LoadError.message : LoadError → String
  | badMagic => "missing iNES magic (expected NES<1A>)"
  | truncated e a => s!"image truncated: header declares {e} bytes, file has {a}"
  | unsupportedMapper id => s!"unsupported mapper {id}"

structure Header where
  /-- In units of 16 KiB. -/
  prgBanks : Nat
  /-- In units of 8 KiB; zero asks for RAM instead. -/
  chrBanks : Nat
  mapperId : Nat
  vertical : Bool
  battery : Bool
  trainer : Bool
  fourScreen : Bool
deriving DecidableEq

namespace Header

def parse (image : Array UInt8) : Except LoadError Header :=
  if h : 16 ≤ image.size then
    if image[0] = 0x4E ∧ image[1] = 0x45 ∧ image[2] = 0x53 ∧ image[3] = 0x1A then
      let lo : UInt8 := image[6]
      let hi : UInt8 := image[7]
      .ok {
        prgBanks := image[4].toNat
        chrBanks := image[5].toNat
        mapperId := hi.toNat / 16 * 16 + lo.toNat / 16
        vertical := Byte.has lo 0x01
        battery := Byte.has lo 0x02
        trainer := Byte.has lo 0x04
        fourScreen := Byte.has lo 0x08 }
    else .error .badMagic
  else .error .badMagic

def prgStart (h : Header) : Nat := if h.trainer then 16 + 512 else 16

def prgSize (h : Header) : Nat := h.prgBanks * 0x4000

def chrSize (h : Header) : Nat := h.chrBanks * 0x2000

def imageSize (h : Header) : Nat := h.prgStart + h.prgSize + h.chrSize

def mirroring (h : Header) : Mirroring := if h.vertical then .vertical else .horizontal

end Header
end Famicom
