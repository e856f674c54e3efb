/-! Bits of a byte, and the two bytes of a word. -/
namespace Famicom.Byte

/-- Whether any bit of the mask is set. -/
@[inline] def has (v mask : UInt8) : Bool := v &&& mask != 0

@[inline] def put (v mask : UInt8) (on : Bool) : UInt8 :=
  if on then v ||| mask else v &&& ~~~mask

/-- The bits in the opposite order: pairs of neighbours, of pairs and of nibbles change places. -/
def reverse (v : UInt8) : UInt8 :=
  let v := (v &&& 0x55) <<< 1 ||| (v >>> 1 &&& 0x55)
  let v := (v &&& 0x33) <<< 2 ||| (v >>> 2 &&& 0x33)
  v <<< 4 ||| v >>> 4

@[inline] def select {α : Type} (table : Vector α 16) (v : UInt8) : α := table[v.toNat % 16]

@[inline] def word (lo hi : UInt8) : UInt16 := hi.toUInt16 <<< 8 ||| lo.toUInt16

@[inline] def low (w : UInt16) : UInt8 := w.toUInt8

@[inline] def high (w : UInt16) : UInt8 := (w >>> 8).toUInt8

@[simp] theorem low_word (lo hi : UInt8) : low (word lo hi) = lo := by
  apply UInt8.eq_of_toBitVec_eq
  ext
  simp [low, word]

@[simp] theorem high_word (lo hi : UInt8) : high (word lo hi) = hi := by
  apply UInt8.eq_of_toBitVec_eq
  ext i h
  simp [high, word]
  grind

@[simp] theorem word_low_high (w : UInt16) : word (low w) (high w) = w := by
  apply UInt16.toNat_inj.mp
  have := w.toNat_lt
  simp [word, low, high, Nat.shiftRight_eq_div_pow, Nat.shiftLeft_eq]
  rw [Nat.mod_eq_of_lt (by omega), Nat.mod_eq_of_lt (by omega),
    show w.toNat / 256 * 256 = (w.toNat / 256) <<< 8 by simp [Nat.shiftLeft_eq],
    ← Nat.shiftLeft_add_eq_or_of_lt (by omega), Nat.shiftLeft_eq]
  omega

@[simp] theorem reverse_reverse (v : UInt8) : reverse (reverse v) = v := by
  have h : ∀ n < 256, reverse (reverse (UInt8.ofNat n)) = UInt8.ofNat n := by decide +kernel
  simpa using h v.toNat v.toNat_lt

end Famicom.Byte
