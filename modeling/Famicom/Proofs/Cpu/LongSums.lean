import Famicom.Cpu.Effect
import Famicom.Proofs.Bytes
import Mathlib.Data.Nat.Digits.Defs
import Mathlib.Tactic.SplitIfs

/-! Sums and differences of numbers of several bytes. A program works them out a place at a time, from
the lowest, and the carry takes what is over from one place to the next; after the last place the
flags tell of the whole numbers what they tell of two bytes after a single addition. -/
namespace Famicom.Cpu

/-! Numbers of several bytes. -/

/-- The number with these bytes, the lowest first. -/
def number (bytes : List UInt8) : Nat := Nat.ofDigits 256 (bytes.map UInt8.toNat)

/-- The same bytes as a number with a sign, in two's complement. -/
def signed (bytes : List UInt8) : Int := Int.bmod (number bytes) (256 ^ bytes.length)

/-- The numbers with a sign that `n` bytes have room for. -/
def Fits (n : Nat) (x : Int) : Prop := -2 ^ (8 * n - 1) ≤ x ∧ x < 2 ^ (8 * n - 1)

instance decidableFits (n : Nat) (x : Int) : Decidable (Fits n x) :=
  inferInstanceAs (Decidable (_ ∧ _))

section Numbers
variable (v : UInt8) (vs : List UInt8)

theorem number_nil : number [] = 0 := rfl

theorem number_cons : number (v :: vs) = v.toNat + 256 * number vs := Nat.ofDigits_cons

theorem number_lt : number vs < 256 ^ vs.length := by
  induction vs with
  | nil => exact Nat.one_pos
  | cons v vs ih =>
    have hv := v.toNat_lt
    rw [number_cons, List.length_cons, Nat.pow_succ]
    omega

theorem half_eq (k : Nat) : 2 ^ (8 * (k + 1) - 1) = 128 * 256 ^ k := by
  have hexponent : 8 * (k + 1) - 1 = 7 + 8 * k := by omega
  rw [hexponent, Nat.pow_add, Nat.pow_mul]

theorem fits_succ (k : Nat) (x : Int) :
    Fits (k + 1) x ↔ -(128 * 256 ^ k : Nat) ≤ x ∧ x < (128 * 256 ^ k : Nat) := by
  have hhalf : (2 : Int) ^ (8 * (k + 1) - 1) = (128 * 256 ^ k : Nat) := by
    rw [← half_eq]
    norm_cast
  rw [Fits, hhalf]

theorem signed_eq {k : Nat} (hk : vs.length = k + 1) : signed vs =
    if number vs < 128 * 256 ^ k then (number vs : Int) else number vs - (256 * 256 ^ k : Nat) := by
  have hlt := number_lt vs
  have hwidth : 256 ^ (k + 1) = 256 * 256 ^ k := Nat.pow_succ'
  rw [hk, hwidth] at hlt
  rw [signed, hk, hwidth, Int.bmod_def, ← Int.natCast_emod, Nat.mod_eq_of_lt hlt]
  split_ifs <;> omega

theorem signed_cons (hvs : vs ≠ []) : signed (v :: vs) = v.toNat + 256 * signed vs := by
  obtain ⟨k, hk⟩ := Nat.exists_eq_succ_of_ne_zero (mt List.length_eq_zero_iff.mp hvs)
  have hv := v.toNat_lt
  have hwidth : 256 ^ (k + 1) = 256 * 256 ^ k := Nat.pow_succ'
  have hlonger : (v :: vs).length = k + 1 + 1 := by rw [List.length_cons, hk]
  rw [signed_eq vs hk, signed_eq (v :: vs) hlonger, number_cons, hwidth]
  split_ifs <;> omega

/-! Complements. -/

theorem number_complement : number (vs.map (~~~·)) + number vs + 1 = 256 ^ vs.length := by
  induction vs with
  | nil => rfl
  | cons v vs ih =>
    have hv := v.toNat_lt
    have hcomplement : (~~~v).toNat = 255 - v.toNat := UInt8.toNat_not v
    rw [List.map_cons, number_cons, number_cons, List.length_cons, Nat.pow_succ, hcomplement]
    omega

theorem signed_complement (hvs : vs ≠ []) : signed (vs.map (~~~·)) = -1 - signed vs := by
  obtain ⟨k, hk⟩ := Nat.exists_eq_succ_of_ne_zero (mt List.length_eq_zero_iff.mp hvs)
  have hwidth : 256 ^ (k + 1) = 256 * 256 ^ k := Nat.pow_succ'
  have hsum := number_complement vs
  have hlength : (vs.map (~~~·)).length = k + 1 := by rw [List.length_map, hk]
  rw [hk, hwidth] at hsum
  rw [signed_eq vs hk, signed_eq _ hlength]
  split_ifs <;> omega

end Numbers

/-! One place. -/

theorem has_top (v : UInt8) : Byte.has v 0x80 = decide (128 ≤ v.toNat) := by
  have hv := v.toNat_lt
  rw [Bool.eq_iff_iff, decide_eq_true_eq]
  exact (Byte.has_two_pow v (k := 7) (by decide)).trans (by omega)

theorem has_overflow (x y s : UInt8) : Byte.has (~~~(x ^^^ y) &&& (x ^^^ s)) 0x80 = true ↔
    (128 ≤ x.toNat ↔ 128 ≤ y.toNat) ∧ ¬(128 ≤ x.toNat ↔ 128 ≤ s.toNat) := by
  have hmsb (v : UInt8) : Byte.has v 0x80 = v.toBitVec.msb := by
    rw [has_top, BitVec.msb_eq_decide]
    rfl
  have hbits : Byte.has (~~~(x ^^^ y) &&& (x ^^^ s)) 0x80 =
      (!(Byte.has x 0x80 ^^ Byte.has y 0x80) && (Byte.has x 0x80 ^^ Byte.has s 0x80)) := by
    simp [hmsb]
  rw [hbits, has_top, has_top, has_top]
  by_cases hx : 128 ≤ x.toNat <;> by_cases hy : 128 ≤ y.toNat <;>
    by_cases hs : 128 ≤ s.toNat <;> simp [hx, hy, hs]

section Place
variable (r : Registers) (x y : UInt8)

theorem toNat_carryBit : r.carryBit.toNat = r.p.carry.toNat := by
  unfold Registers.carryBit
  cases r.p.carry <;> rfl

theorem place_sum : (((r.setA x).adc y).a).toNat + 256 * ((r.setA x).adc y).p.carry.toNat =
    x.toNat + y.toNat + r.p.carry.toNat := by
  have hx := x.toNat_lt
  have hy := y.toNat_lt
  have hcarry := Bool.toNat_le r.p.carry
  have ha : ((r.setA x).adc y).a = UInt8.ofNat (x.toNat + y.toNat + r.carryBit.toNat) := rfl
  have hc : ((r.setA x).adc y).p.carry = decide (0xFF < x.toNat + y.toNat + r.carryBit.toNat) := rfl
  rw [ha, hc, toNat_carryBit, UInt8.toNat_ofNat']
  by_cases h : 0xFF < x.toNat + y.toNat + r.p.carry.toNat
  · simp only [h, decide_true, Bool.toNat_true]
    omega
  · simp only [h, decide_false, Bool.toNat_false]
    omega

theorem place_negative :
    ((r.setA x).adc y).p.negative = decide (128 ≤ ((r.setA x).adc y).a.toNat) :=
  has_top ((r.setA x).adc y).a

theorem place_overflow : ((r.setA x).adc y).p.overflow = true ↔
    ¬Fits 1 (signed [x] + signed [y] + r.p.carry.toNat) := by
  have hsum := place_sum r x y
  have hx := x.toNat_lt
  have hy := y.toNat_lt
  have hs := ((r.setA x).adc y).a.toNat_lt
  have hcarry := Bool.toNat_le r.p.carry
  have hcarry' := Bool.toNat_le ((r.setA x).adc y).p.carry
  have hoverflow : ((r.setA x).adc y).p.overflow =
      Byte.has (~~~(x ^^^ y) &&& (x ^^^ ((r.setA x).adc y).a)) 0x80 := rfl
  rw [hoverflow, has_overflow, fits_succ 0, signed_eq (k := 0) [x] rfl, signed_eq (k := 0) [y] rfl,
    number_cons, number_cons, number_nil]
  split_ifs <;> omega

end Place

/-! All places. -/

/-- The bytes and the flags tell of the whole numbers, and of the carry that was found. -/
structure Added (r : Registers) (p q bytes : List UInt8) (r' : Registers) : Prop where
  length_eq : bytes.length = p.length
  sum : number bytes + 256 ^ bytes.length * r'.p.carry.toNat =
    number p + number q + r.p.carry.toNat
  overflow_iff : r'.p.overflow = true ↔
    ¬Fits bytes.length (signed p + signed q + r.p.carry.toNat)
  negative_iff : r'.p.negative = true ↔ 256 ^ bytes.length ≤ 2 * number bytes

namespace Added
variable {r r' : Registers} {x y : UInt8} {p q bytes : List UInt8}

theorem single (r : Registers) (x y : UInt8) :
    Added r [x] [y] [((r.setA x).adc y).a] ((r.setA x).adc y) where
  length_eq := rfl
  sum := by
    have hsum := place_sum r x y
    simp only [number_cons, number_nil, List.length_singleton, Nat.pow_one]
    omega
  overflow_iff := place_overflow r x y
  negative_iff := by
    rw [place_negative, decide_eq_true_eq, number_cons, number_nil, List.length_singleton,
      Nat.pow_one]
    omega

theorem length_succ (h : Added r p q bytes r') (hp : p ≠ []) : ∃ k, bytes.length = k + 1 := by
  rw [h.length_eq]
  exact Nat.exists_eq_succ_of_ne_zero (mt List.length_eq_zero_iff.mp hp)

/-- A place below the others hands its carry to them, and they alone have a sign. -/
theorem cons (h : Added ((r.setA x).adc y) p q bytes r') (hp : p ≠ []) (hq : q ≠ []) :
    Added r (x :: p) (y :: q) (((r.setA x).adc y).a :: bytes) r' := by
  obtain ⟨k, hk⟩ := h.length_succ hp
  have hplace := place_sum r x y
  have hlow := ((r.setA x).adc y).a.toNat_lt
  have hwidth : 256 ^ (k + 1) = 256 * 256 ^ k := Nat.pow_succ'
  constructor
  · rw [List.length_cons, List.length_cons, h.length_eq]
  · have hsum := h.sum
    simp only [number_cons, List.length_cons, Nat.pow_succ', Nat.mul_assoc]
    omega
  · rw [h.overflow_iff, signed_cons _ _ hp, signed_cons _ _ hq, List.length_cons, hk, fits_succ,
      fits_succ, hwidth]
    omega
  · rw [h.negative_iff, number_cons, List.length_cons, hk, Nat.pow_succ' (n := k + 1), hwidth]
    omega

theorem number_eq (h : Added r p q bytes r') :
    number bytes = (number p + number q + r.p.carry.toNat) % 256 ^ bytes.length := by
  rw [← h.sum, Nat.add_mul_mod_self_left, Nat.mod_eq_of_lt (number_lt bytes)]

theorem carry_iff (h : Added r p q bytes r') : r'.p.carry = true ↔
    256 ^ bytes.length ≤ number p + number q + r.p.carry.toNat := by
  have hlt := number_lt bytes
  rw [← h.sum]
  cases r'.p.carry with
  | false => simpa using hlt
  | true => simp

theorem negative_eq (h : Added r p q bytes r') (hp : p ≠ []) :
    r'.p.negative = (number bytes).testBit (8 * bytes.length - 1) := by
  obtain ⟨k, hk⟩ := h.length_succ hp
  have hlt := number_lt bytes
  have hwidth : 256 ^ (k + 1) = 256 * 256 ^ k := Nat.pow_succ'
  rw [hk, hwidth] at hlt
  rw [Bool.eq_iff_iff, h.negative_iff, Nat.testBit_eq_decide_div_mod_eq, decide_eq_true_eq, hk,
    hwidth, half_eq]
  constructor
  · intro hhigh
    rw [Nat.div_eq_of_lt_le (k := 1) (by omega) (by omega)]
  · intro hbit
    by_contra hlow
    rw [Nat.div_eq_of_lt (by omega)] at hbit
    cases hbit

end Added

/-! The program. -/

/-- A byte that an instruction reads: its address, and the bus as it is by then. -/
structure Source where
  address : UInt16
  bus : Bus

namespace Source

def byte (s : Source) : UInt8 := (s.bus.read s.address).1

def holding (v : UInt8) : Source := { address := 0, bus := { ram := (Ram.zeros _).write 0 v } }

@[simp] theorem byte_holding (v : UInt8) : (holding v).byte = v := by
  have hbyte : (holding v).byte = Ram.read ((Ram.zeros 0x800).write 0 v) 0 := rfl
  rw [hbyte, Ram.read_write, if_pos rfl]

end Source

def taking (m : Mnemonic) (r : Registers) (s : Source) : Registers :=
  (m.effect.run (.memory s.address) r s.bus).2.1

/-- In each place loads the first byte and takes the second to it; the accumulator after each, and
the registers left. What else goes on over the bus in the meantime does not matter. -/
def chain (m : Mnemonic) (r : Registers) : (places : List (Source × Source)) →
    List UInt8 × Registers
  | [] => ([], r)
  | (x, y) :: places =>
    let r := taking m (taking .lda r x) y
    let (bytes, r') := chain m r places
    (r.a :: bytes, r')

theorem added_chain {m : Mnemonic} {f : UInt8 → UInt8}
    (hm : ∀ r s, taking m r s = r.adc (f s.byte)) (r : Registers)
    {places : List (Source × Source)} (h : places ≠ []) :
    Added r (places.map (·.1.byte)) (places.map fun place => f place.2.byte)
      (chain m r places).1 (chain m r places).2 := by
  induction places generalizing r with
  | nil => exact absurd rfl h
  | cons place places ih =>
    obtain ⟨x, y⟩ := place
    have hplace : taking m (taking .lda r x) y = (r.setA x.byte).adc (f y.byte) := hm _ y
    rw [chain, hplace]
    by_cases hplaces : places = []
    · subst hplaces
      exact .single r x.byte (f y.byte)
    · have hrest := ih ((r.setA x.byte).adc (f y.byte)) hplaces
      exact hrest.cons (mt List.map_eq_nil_iff.mp hplaces) (mt List.map_eq_nil_iff.mp hplaces)

/-- However many bytes two numbers have, and whatever the processor was at: from a clear carry the
places of a sum come out one by one, with the carry out of the last, the overflow of the numbers
with a sign and the sign of the result in the flags; and from a set carry so do those of a
difference, the carry telling that there was nothing to borrow. -/
theorem sums_carried (r : Registers) (b : Bus) {places : List (Source × Source)}
    (h : places ≠ []) :
    let n := places.length
    let p := places.map (·.1.byte)
    let q := places.map (·.2.byte)
    let sum := chain .adc (Mnemonic.clc.effect.run .none r b).2.1 places
    let difference := chain .sbc (Mnemonic.sec.effect.run .none r b).2.1 places
    (sum.1.length = n ∧
      number sum.1 = (number p + number q) % 256 ^ n ∧
      (sum.2.p.carry = true ↔ 256 ^ n ≤ number p + number q) ∧
      (sum.2.p.overflow = true ↔ ¬Fits n (signed p + signed q)) ∧
      sum.2.p.negative = (number sum.1).testBit (8 * n - 1)) ∧
    difference.1.length = n ∧
    (number difference.1 : Int) = ((number p : Int) - number q) % 256 ^ n ∧
    (difference.2.p.carry = true ↔ number q ≤ number p) ∧
    (difference.2.p.overflow = true ↔ ¬Fits n (signed p - signed q)) ∧
    difference.2.p.negative = (number difference.1).testBit (8 * n - 1) := by
  intro n p q sum difference
  have hp : p ≠ [] := mt List.map_eq_nil_iff.mp h
  have hq : q ≠ [] := mt List.map_eq_nil_iff.mp h
  have hplen : p.length = n := List.length_map _
  have hqlen : q.length = n := List.length_map _
  constructor
  · have hsum : Added _ p q sum.1 sum.2 :=
      added_chain (m := .adc) (f := id) (fun _ _ => rfl) (Mnemonic.clc.effect.run .none r b).2.1 h
    have hlength : sum.1.length = n := hsum.length_eq.trans hplen
    have hclear : (Mnemonic.clc.effect.run .none r b).2.1.p.carry.toNat = 0 := rfl
    refine ⟨hlength, ?_, ?_, ?_, ?_⟩
    · rw [hsum.number_eq, hlength, hclear, Nat.add_zero]
    · rw [hsum.carry_iff, hlength, hclear, Nat.add_zero]
    · rw [hsum.overflow_iff, hlength, hclear, Int.natCast_zero, Int.add_zero]
    · rw [hsum.negative_eq hp, hlength]
  · have hcomplement : (places.map fun place => ~~~place.2.byte) = q.map (~~~·) :=
      List.map_map.symm
    have hadded := added_chain (m := .sbc) (f := (~~~·)) (fun _ _ => rfl)
      (Mnemonic.sec.effect.run .none r b).2.1 h
    have hdifference : Added _ p (q.map (~~~·)) difference.1 difference.2 := hcomplement ▸ hadded
    have hlength : difference.1.length = n := hdifference.length_eq.trans hplen
    have hset : (Mnemonic.sec.effect.run .none r b).2.1.p.carry.toNat = 1 := rfl
    have hnumber := number_complement q
    have hless := number_lt q
    rw [hqlen] at hnumber hless
    refine ⟨hlength, ?_, ?_, ?_, ?_⟩
    · have hwrapped : ((number p + number (q.map (~~~·)) + 1 : Nat) : Int) =
          (number p - number q) + (256 ^ n : Nat) := by omega
      rw [hdifference.number_eq, hlength, hset, Int.natCast_emod, hwrapped, Int.add_emod_right]
      norm_cast
    · rw [hdifference.carry_iff, hlength, hset]
      omega
    · rw [hdifference.overflow_iff, hlength, hset, signed_complement q hq]
      have hminus : signed p + (-1 - signed q) + (1 : Nat) = signed p - signed q := by omega
      rw [hminus]
    · rw [hdifference.negative_eq hp, hlength]

def signTurning : List (Source × Source) :=
  [(.holding 0xFF, .holding 0x01), (.holding 0x7F, .holding 0)]

/-- `$7FFF` and `$0001`, even with the decimal mode set. -/
theorem sums_carried_signTurning :
    let sum := chain .adc (Mnemonic.clc.effect.run .none { p := { decimal := true } } {}).2.1
      signTurning
    signTurning ≠ [] ∧ number sum.1 = 0x8000 ∧ sum.2.p.carry = false ∧
      sum.2.p.overflow = true ∧ sum.2.p.negative = true := by
  intro sum
  have hplaces : signTurning ≠ [] := List.cons_ne_nil _ _
  have hp : signTurning.map (·.1.byte) = [0xFF, 0x7F] := by simp [signTurning]
  have hq : signTurning.map (·.2.byte) = [0x01, 0] := by simp [signTurning]
  obtain ⟨⟨-, hnumber, hcarry, hoverflow, hnegative⟩, -⟩ :=
    sums_carried { p := { decimal := true } } {} hplaces
  rw [hp, hq] at hnumber hcarry hoverflow
  have hsum : number sum.1 = 0x8000 := hnumber.trans (by decide)
  refine ⟨hplaces, hsum, ?_, ?_, ?_⟩
  · rw [← Bool.not_eq_true, hcarry]
    decide
  · rw [hoverflow]
    decide
  · rw [hnegative, hsum]
    decide

end Famicom.Cpu
