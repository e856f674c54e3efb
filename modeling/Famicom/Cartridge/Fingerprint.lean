import Famicom.Text

/-! A 128-bit FNV-1a digest of the ROM contents, which pairs save files with images. -/
namespace Famicom.Cartridge

abbrev Fingerprint := BitVec 128

namespace Fingerprint

def basis : Fingerprint := 0x6c62272e07bb014262b821756295c58d#128

def prime : Fingerprint := 0x0000000001000000000000000000013b#128

def absorb (h : Fingerprint) (b : UInt8) : Fingerprint := (h ^^^ b.toBitVec.setWidth 128) * prime

def ofChips (prg chr : Array UInt8) : Fingerprint := chr.foldl absorb (prg.foldl absorb basis)

def text (h : Fingerprint) : String := (Text.hex 32 h.toNat).map Char.toLower

end Fingerprint
end Famicom.Cartridge
