import Famicom.Text
import Mathlib.Algebra.Group.Nat.Defs
import Mathlib.Data.List.DropRight
import Mathlib.Data.Nat.Log

/-! Numerals read back, and how wide they are. -/
namespace Famicom.Text

def value? (c : Char) : Option Nat :=
  if '0' ≤ c ∧ c ≤ '9' then some (c.toNat - 48)
  else if 'A' ≤ c ∧ c ≤ 'F' then some (c.toNat - 55)
  else none

/-- The number that digits stand for, most significant first. -/
def number? (base : Nat) (cs : List Char) : Option Nat :=
  cs.foldlM (fun n c => (value? c).map (base * n + ·)) 0

def numeral (cs : List Char) : List Char := cs.rtakeWhile fun c => (value? c).isSome

theorem value?_digit {d : Nat} (h : d < 16) : value? (digit d) = some d := by
  have hall : ∀ d < 16, value? (digit d) = some d := by decide
  exact hall d h

variable {base : Nat} (hbase : base ≤ 16) {w n : Nat}

include hbase in
theorem number?_digits (hn : n < base ^ w) : number? base (digits base w n) = some n := by
  induction w generalizing n with
  | zero =>
    obtain rfl : n = 0 := by simpa using hn
    rfl
  | succ w ih =>
    have hpos : 0 < base := Nat.pos_of_ne_zero (by rintro rfl; simp at hn)
    have hhigh : n / base < base ^ w :=
      Nat.div_lt_of_lt_mul (by rwa [Nat.mul_comm, ← Nat.pow_succ])
    have hlow : n % base < 16 := Nat.lt_of_lt_of_le (Nat.mod_lt n hpos) hbase
    have hprefix := ih hhigh
    rw [number?] at hprefix
    simp [number?, digits, List.foldlM_append, hprefix, value?_digit hlow, Nat.div_add_mod]

include hbase in
theorem isSome_value?_digits (hpos : 0 < base) :
    ∀ c ∈ digits base w n, (value? c).isSome := by
  induction w generalizing n with
  | zero => simp [digits]
  | succ w ih =>
    have hlow : n % base < 16 := Nat.lt_of_lt_of_le (Nat.mod_lt n hpos) hbase
    intro c hc
    simp only [digits, List.mem_append, List.mem_singleton] at hc
    obtain hc | rfl := hc
    · exact ih c hc
    · simp [value?_digit hlow]

include hbase in
theorem not_mem_digits (hpos : 0 < base) {c : Char} (hc : value? c = none) :
    c ∉ digits base w n := by
  intro hmem
  have hsome := isSome_value?_digits hbase hpos c hmem
  rw [hc] at hsome
  cases hsome

include hbase in
theorem numeral_append (hpos : 0 < base) (front : List Char) {c : Char} (hc : value? c = none) :
    numeral (front ++ c :: digits base w n) = digits base w n := by
  have hdigits : ∀ c ∈ (digits base w n).reverse, (value? c).isSome := by
    intro c hmem
    exact isSome_value?_digits hbase hpos c (List.mem_reverse.mp hmem)
  simp only [numeral, List.rtakeWhile, List.reverse_append, List.reverse_cons, List.append_assoc,
    List.singleton_append]
  rw [List.takeWhile_append_of_pos hdigits]
  simp [hc]

/-- A decimal numeral has the least number of digits that is enough, but for zero, which has one. -/
theorem length_toString (n : Nat) : (toString n).length = Nat.log 10 n + 1 := by
  rw [Nat.toString_eq_repr]
  apply Nat.le_antisymm
  · rw [Nat.length_repr_le_iff (Nat.succ_pos _)]
    exact Nat.lt_pow_succ_log_self (by decide) n
  · have hlt : n < 10 ^ n.repr.length := (Nat.length_repr_le_iff Nat.length_repr_pos).mp le_rfl
    exact Nat.log_lt_of_lt_pow' Nat.length_repr_pos.ne' hlt

end Famicom.Text
