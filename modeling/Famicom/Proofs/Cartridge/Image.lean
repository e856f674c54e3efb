import Famicom.Cartridge

/-! What is on a cartridge that was loaded. The chips hold parts of the image, as large as the header
declares them, and the board is the one that it names, powered on. -/
namespace Famicom

theorem Header.parse_append {head : Array UInt8} (h : head.size = 16) (body : Array UInt8) :
    Header.parse (head ++ body) = Header.parse head := by
  have hhead : 16 ≤ head.size := Nat.le_of_eq h.symm
  have hboth : 16 ≤ (head ++ body).size := by
    rw [Array.size_append]
    omega
  have hget (i : Nat) (hi : i < 16) : (head ++ body)[i] = head[i] :=
    Array.getElem_append_left (by omega)
  unfold Header.parse
  rw [dif_pos hboth, dif_pos hhead]
  simp only [hget, Nat.reduceLT]

namespace Cartridge

def program (image : Array UInt8) (h : Header) : Array UInt8 :=
  image.extract h.prgStart (h.prgStart + h.prgSize)

def characters (image : Array UInt8) (h : Header) : Array UInt8 :=
  image.extract (h.prgStart + h.prgSize) (h.prgStart + h.prgSize + h.chrSize)

def chips (image : Array UInt8) (h : Header) : Storage where
  prgRom := program image h
  chr := if h.chrBanks = 0 then Array.replicate 0x2000 0 else characters image h
  chrWritable := h.chrBanks == 0

theorem program_append {head body : Array UInt8} {h : Header} (hhead : head.size = h.prgStart)
    (hbody : body.size = h.prgSize) : program (head ++ body) h = body := by
  rw [program, ← hhead, ← hbody, Array.extract_append]
  simp

structure Loaded (image : Array UInt8) (c : Cartridge) : Prop where
  parsed : Header.parse image = .ok c.header
  fits : c.header.imageSize ≤ image.size
  storage_eq : c.storage = chips image c.header
  board_eq : Board.ofMapper? c.header.mapperId c.header.mirroring c.storage.prgRom.size =
    some c.board

theorem load_eq {image : Array UInt8} {h : Header} (hparse : Header.parse image = .ok h)
    (hfits : h.imageSize ≤ image.size) : load image =
      match Board.ofMapper? h.mapperId h.mirroring (chips image h).prgRom.size with
      | none => .error (.unsupportedMapper h.mapperId)
      | some board => .ok { header := h, storage := chips image h, board } := by
  unfold load
  rw [hparse]
  exact if_neg (Nat.not_lt.mpr hfits)

/-- The checks that an image passes are all that is asked of it. -/
theorem load_iff {image : Array UInt8} {c : Cartridge} :
    load image = .ok c ↔ Loaded image c := by
  constructor
  · intro h
    unfold load at h
    cases hparse : Header.parse image with
    | error e =>
      rw [hparse] at h
      cases h
    | ok header =>
      rw [hparse] at h
      by_cases hsize : image.size < header.imageSize
      · cases (if_pos hsize).symm.trans h
      · replace h := (if_neg hsize).symm.trans h
        split at h
        · cases h
        · cases h
          exact ⟨hparse, Nat.le_of_not_lt hsize, rfl, by assumption⟩
  · intro h
    have hboard := h.board_eq
    rw [h.storage_eq] at hboard
    rw [load_eq h.parsed h.fits, hboard, ← h.storage_eq]

namespace Loaded
variable {image : Array UInt8} {c : Cartridge}

theorem prgRom_eq (h : Loaded image c) : c.storage.prgRom = program image c.header := by
  rw [h.storage_eq, chips]

theorem size_prgRom (h : Loaded image c) : c.storage.prgRom.size = c.header.prgBanks * 0x4000 := by
  have hfits := h.fits
  unfold Header.imageSize at hfits
  rw [h.prgRom_eq, program, Array.size_extract]
  change _ = c.header.prgSize
  omega

end Loaded
end Cartridge
end Famicom
