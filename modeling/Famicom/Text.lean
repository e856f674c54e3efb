/-! Fixed-width numerals and padded columns. -/
namespace Famicom.Text

/-- The upper-case digit for `d < 16`. -/
def digit (d : Nat) : Char :=
  if d < 10 then Char.ofNat (48 + d) else Char.ofNat (55 + d)

/-- The last `w` digits of `n`, most significant first. -/
def digits (base : Nat) : (w n : Nat) → List Char
  | 0, _ => []
  | w + 1, n => digits base w (n / base) ++ [digit (n % base)]

@[simp] theorem length_digits (base w n : Nat) : (digits base w n).length = w := by
  induction w generalizing n with
  | zero => rfl
  | succ w ih => simp [digits, ih]

def hex (w n : Nat) : String := String.ofList (digits 16 w n)

def binary (w n : Nat) : String := String.ofList (digits 2 w n)

def alignRight (w : Nat) (s : String) : String := String.ofList (s.toList.leftpad w ' ')

def alignLeft (w : Nat) (s : String) : String := String.ofList (s.toList.rightpad w ' ')

@[simp] theorem length_hex (w n : Nat) : (hex w n).length = w := by simp [hex]

@[simp] theorem length_alignRight (w : Nat) (s : String) :
    (alignRight w s).length = max w s.length := by
  simp [alignRight, ← String.length_toList]
  omega

@[simp] theorem length_alignLeft (w : Nat) (s : String) :
    (alignLeft w s).length = max w s.length := by
  simp [alignLeft, ← String.length_toList]
  omega

end Famicom.Text
