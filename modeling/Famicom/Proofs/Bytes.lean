import Famicom.Byte
import Mathlib.Data.Nat.Bitwise

/-! Bytes and words as numbers. -/
namespace Famicom.Byte

theorem has_two_pow (v : UInt8) {k : Nat} (hk : k < 8) :
    has v (UInt8.ofNat (2 ^ k)) = true ↔ v.toNat / 2 ^ k % 2 = 1 := by
  have hlt : 2 ^ k < 256 := Nat.pow_lt_pow_right (by decide) hk
  have hbit : (v &&& UInt8.ofNat (2 ^ k)).toNat = (v.toNat.testBit k).toNat * 2 ^ k := by
    rw [UInt8.toNat_and, UInt8.toNat_ofNat_of_lt' hlt, Nat.and_two_pow]
  rw [has, bne_iff_ne, ne_eq, ← UInt8.toNat_inj, hbit, Nat.testBit_eq_decide_div_mod_eq]
  by_cases h : v.toNat / 2 ^ k % 2 = 1 <;> simp [h]

theorem has_eq_testBit (v : UInt8) (k : Nat) (hk : k < 8) :
    has v (UInt8.ofNat (2 ^ k)) = v.toNat.testBit k := by
  rw [Bool.eq_iff_iff, Nat.testBit_eq_decide_div_mod_eq, decide_eq_true_eq]
  exact has_two_pow v hk

theorem has_one (v : UInt8) : has v 1 = v.toNat.testBit 0 := has_eq_testBit v 0 (by decide)

theorem toNat_low (w : UInt16) : (low w).toNat = w.toNat % 256 := by
  simp [low]

theorem toNat_high (w : UInt16) : (high w).toNat = w.toNat / 256 := by
  have := w.toNat_lt
  simp only [high, UInt16.toNat_toUInt8, UInt16.toNat_shiftRight]
  simp [Nat.shiftRight_eq_div_pow]
  omega

theorem toNat_word (lo hi : UInt8) : (word lo hi).toNat = hi.toNat * 256 + lo.toNat := by
  have hlo := toNat_low (word lo hi)
  have hhi := toNat_high (word lo hi)
  rw [low_word] at hlo
  rw [high_word] at hhi
  omega

theorem lt_page (a : UInt16) (page : UInt8) : a < word 0 page ↔ high a < page := by
  rw [UInt16.lt_iff_toNat_lt, UInt8.lt_iff_toNat_lt, toNat_word, toNat_high, UInt8.toNat_zero]
  omega

/-- A byte added to a word changes its high byte just when it carries out of the low one. -/
theorem high_add (w : UInt16) (v : UInt8) :
    high w = high (w + v.toUInt16) ↔ (low w).toNat + v.toNat < 256 := by
  have hw := w.toNat_lt
  have hv := v.toNat_lt
  rw [← UInt8.toNat_inj, toNat_high, toNat_high, toNat_low, UInt16.toNat_add,
    UInt8.toNat_toUInt16]
  omega

end Famicom.Byte
