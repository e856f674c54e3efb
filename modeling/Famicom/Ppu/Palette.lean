import Famicom.Ram

/-! Palette memory and the colours it selects. -/
namespace Famicom.Ppu.Palette

/-- The backdrop of each sprite palette is that of the background palette below it. -/
@[inline] def index (a : Nat) : Nat :=
  if a % 32 / 16 = 1 ∧ a % 4 = 0 then a % 16 else a % 32

@[inline] def read (m : Ram 32) (a : Nat) : UInt8 := Ram.read m (index a)

def write (m : Ram 32) (a : Nat) (v : UInt8) : Ram 32 := Ram.write m (index a) (v &&& 0x3F)

/-- Red, green, blue of the 64 colours, a byte each. -/
def colours : Vector Nat 64 := #v[
  0x545454, 0x001E74, 0x081090, 0x300088, 0x440064, 0x5C0030, 0x540400, 0x3C1800,
  0x202A00, 0x083A00, 0x004000, 0x003C00, 0x00323C, 0x000000, 0x000000, 0x000000,
  0x989698, 0x084CC4, 0x3032EC, 0x5C1EE4, 0x8814B0, 0xA01464, 0x982220, 0x783C00,
  0x545A00, 0x287200, 0x087C00, 0x007628, 0x006678, 0x000000, 0x000000, 0x000000,
  0xECEEEC, 0x4C9AEC, 0x787CEC, 0xB062EC, 0xE454EC, 0xEC58B4, 0xEC6A64, 0xD48820,
  0xA0AA00, 0x74C400, 0x4CD020, 0x38CC6C, 0x38B4CC, 0x3C3C3C, 0x000000, 0x000000,
  0xECEEEC, 0xA8CCEC, 0xBCBCEC, 0xD4B2EC, 0xECAEEC, 0xECAED4, 0xECB4B0, 0xE4C490,
  0xCCD278, 0xB4DE78, 0xA8E290, 0x98E2B4, 0xA0D6E4, 0xA0A2A0, 0x000000, 0x000000]

/-- The level of a channel that is not emphasised while another is, to the nearest integer. -/
def dim (level : Nat) : Nat := (level * 816 + 500) / 1000

/-- A colour under an emphasis of red (bit 0), green (bit 1) and blue (bit 2). -/
def shade (emphasis colour : Nat) : UInt32 :=
  let rgb := colours[colour % 64]
  let channel (bit level : Nat) : Nat :=
    if emphasis = 0 ∨ emphasis.testBit bit then level else dim level
  let red := channel 0 (rgb / 0x10000)
  let green := channel 1 (rgb / 0x100 % 0x100)
  let blue := channel 2 (rgb % 0x100)
  UInt32.ofNat (((red * 0x100 + green) * 0x100 + blue) * 0x100 + 0xFF)

def shades : Vector UInt32 512 := Vector.ofFn fun i => shade (i.val / 64) i.val

@[inline] def rgba (emphasis colour : UInt8) : UInt32 :=
  shades[(emphasis.toNat * 64 + colour.toNat) % 512]

end Famicom.Ppu.Palette
