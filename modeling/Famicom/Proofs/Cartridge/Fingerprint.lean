import Famicom.Proofs.Cartridge.Image
import Mathlib.Logic.Function.Basic
import Mathlib.Tactic.SplitIfs

/-! The fingerprint tells images apart that differ in one byte. Its prime is odd, so that a product
with it can be undone, and digests that differ once go on differing, whatever both absorb from there
on. -/
namespace Famicom.Cartridge
namespace Fingerprint

/-- What undoes a product with the prime. -/
def reciprocal : Fingerprint := 0xb1041ad2562ff2ff2ff2ff2ff2ff2ff3#128

theorem prime_mul_reciprocal : prime * reciprocal = 1#128 := by decide

theorem mul_prime_injective : Function.Injective fun h : Fingerprint => h * prime := by
  apply Function.LeftInverse.injective (g := fun h => h * reciprocal)
  intro h
  dsimp only
  rw [BitVec.mul_assoc, prime_mul_reciprocal, BitVec.mul_one]

theorem absorb_left_injective (b : UInt8) : Function.Injective fun h => absorb h b := by
  intro h g heq
  exact (BitVec.xor_left_inj _).mp (mul_prime_injective heq)

theorem absorb_right_injective (h : Fingerprint) : Function.Injective (absorb h) := by
  intro b c heq
  have hwide : b.toBitVec.setWidth 128 = c.toBitVec.setWidth 128 :=
    (BitVec.xor_right_inj _).mp (mul_prime_injective heq)
  apply UInt8.toNat_inj.mp
  calc b.toNat
      = (b.toBitVec.setWidth 128).toNat := (BitVec.toNat_setWidth_of_le (by decide)).symm
    _ = (c.toBitVec.setWidth 128).toNat := congrArg BitVec.toNat hwide
    _ = c.toNat := BitVec.toNat_setWidth_of_le (by decide)

theorem foldl_absorb_injective (bytes : List UInt8) :
    Function.Injective fun h => bytes.foldl absorb h := by
  induction bytes with
  | nil => exact Function.injective_id
  | cons b bytes ih => exact ih.comp (absorb_left_injective b)

theorem foldl_absorb_set (h : Fingerprint) {bytes : List UInt8} {i : Nat} (hi : i < bytes.length)
    (b : UInt8) : (bytes.set i b).foldl absorb h = bytes.foldl absorb h ↔ b = bytes[i] := by
  induction bytes generalizing h i with
  | nil => exact absurd hi (Nat.not_lt_zero i)
  | cons c bytes ih =>
    cases i with
    | zero =>
      rw [List.set_cons_zero, List.foldl_cons, List.foldl_cons,
        (foldl_absorb_injective bytes).eq_iff, (absorb_right_injective h).eq_iff]
      rfl
    | succ i =>
      rw [List.set_cons_succ, List.foldl_cons, List.foldl_cons]
      exact ih (h.absorb c) (Nat.lt_of_succ_lt_succ hi)

/-- It is the bytes that count, not where one chip ends and the other begins. -/
theorem ofChips_eq (prg chr : Array UInt8) :
    ofChips prg chr = (prg ++ chr).toList.foldl absorb basis := by
  rw [Array.foldl_toList, Array.foldl_append]
  rfl

/-- If the bytes of two other chips, one after the other, are the same but for one, then the
fingerprints agree just when that byte is the same too. -/
theorem one_byte_detected {prg chr prg' chr' : Array UInt8} {i : Nat}
    (hi : i < (prg ++ chr).size) {b : UInt8} (hother : prg' ++ chr' = (prg ++ chr).set i b) :
    ofChips prg' chr' = ofChips prg chr ↔ b = (prg ++ chr)[i] := by
  rw [ofChips_eq, ofChips_eq, hother, Array.toList_set]
  exact foldl_absorb_set basis hi b

/-- Two pairs of chips that differ in the last byte of the characters. -/
theorem one_byte_detected_last :
    (#[0x4C, 0x00, 0x80] ++ #[0xFF, 0x00] : Array UInt8) =
        (#[0x4C, 0x00, 0x80] ++ #[0xFF, 0x80] : Array UInt8).set 4 0x00 ∧
      ofChips #[0x4C, 0x00, 0x80] #[0xFF, 0x00] ≠ ofChips #[0x4C, 0x00, 0x80] #[0xFF, 0x80] := by
  have hother : (#[0x4C, 0x00, 0x80] ++ #[0xFF, 0x00] : Array UInt8) =
      (#[0x4C, 0x00, 0x80] ++ #[0xFF, 0x80] : Array UInt8).set 4 0x00 := by decide
  refine ⟨hother, fun hsame => ?_⟩
  exact absurd ((one_byte_detected (by decide) hother).mp hsame) (by decide)

end Fingerprint

namespace Loaded
variable {image : Array UInt8} {c : Cartridge}

/-- The fingerprint is that of the image from the program on, as far as the header declares it. -/
theorem fingerprint_eq (h : Loaded image c) : c.fingerprint =
    (image.extract c.header.prgStart c.header.imageSize).toList.foldl
      Fingerprint.absorb Fingerprint.basis := by
  have hchr : (if c.storage.chrWritable then #[] else c.storage.chr) =
      characters image c.header := by
    rw [h.storage_eq, chips, characters, Header.chrSize]
    by_cases hram : c.header.chrBanks = 0
    · rw [hram, Nat.zero_mul, Nat.add_zero, Array.extract_empty_of_stop_le_start (Nat.le_refl _)]
      rfl
    · simp [hram]
  rw [fingerprint, Fingerprint.ofChips_eq, hchr, h.prgRom_eq, program, characters,
    Array.extract_append_extract]
  simp [Header.imageSize]

end Loaded

section Set
variable {image : Array UInt8} {i : Nat} (hi : i < image.size) (b : UInt8)

theorem parse_set (hbody : 16 ≤ i) : Header.parse (image.set i b) = Header.parse image := by
  have hget (j : Nat) (hj : j < (image.set i b).size) (hlow : j < 16) :
      (image.set i b)[j] = image[j] :=
    Array.getElem_set_ne _ _ (by omega)
  unfold Header.parse
  simp only [Array.size_set, hget, Nat.reduceLT]

theorem Loaded.set {c : Cartridge} (h : Loaded image c) (hbody : 16 ≤ i) :
    Loaded (image.set i b) { c with storage := chips (image.set i b) c.header } := by
  have hsize : (chips (image.set i b) c.header).prgRom.size = c.storage.prgRom.size := by
    rw [h.prgRom_eq, chips, program, program, Array.size_extract, Array.size_extract,
      Array.size_set]
  constructor
  · rw [parse_set hi b hbody, h.parsed]
  · rw [Array.size_set]
    exact h.fits
  · rfl
  · rw [hsize]
    exact h.board_eq

/-- No byte of the chips in an image can be changed without changing the fingerprint. -/
theorem fingerprint_set {c : Cartridge} (hload : load image = .ok c)
    (hstart : c.header.prgStart ≤ i) (hend : i < c.header.imageSize) :
    ∃ c', load (image.set i b) = .ok c' ∧ (c'.fingerprint = c.fingerprint ↔ b = image[i]) := by
  have h := load_iff.mp hload
  have hbody : 16 ≤ i := by
    refine Nat.le_trans ?_ hstart
    unfold Header.prgStart
    split_ifs <;> decide
  have hset := h.set hi b hbody
  have hother := hset.fingerprint_eq
  have hinside : i < min c.header.imageSize image.size := by omega
  refine ⟨_, load_iff.mpr hset, ?_⟩
  rw [Array.extract_set, dif_neg (Nat.not_lt.mpr hstart), dif_pos hinside,
    Array.toList_set] at hother
  rw [hother, h.fingerprint_eq, Fingerprint.foldl_absorb_set]
  · simp [hstart]
  · dsimp only
    rw [Array.length_toList, Array.size_extract]
    omega

end Set
end Famicom.Cartridge
