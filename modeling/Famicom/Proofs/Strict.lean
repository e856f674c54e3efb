import Famicom.Ram
import Mathlib.Algebra.Group.Nat.Defs

/-! Arithmetic on words and access to memories on a machine that stops at a fault instead of going
on: a sum must fit its width, a difference must not be negative, an index must be inside the memory.
A step written with these equals the plain one exactly where nothing goes wrong in it. -/
namespace Famicom

inductive Fault where
  /-- An index past the end of a memory. -/
  | index
  /-- A sum or product too large for its width, or a difference below zero. -/
  | overflow
  /-- An address that no part of a bus answers. -/
  | address
deriving DecidableEq

abbrev Strict (α : Type) := Except Fault α

namespace Strict
variable {α : Type} {n : Nat}

def add (bits a b : Nat) : Strict Nat :=
  if a + b < 2 ^ bits then .ok (a + b) else .error .overflow

def mul (bits a b : Nat) : Strict Nat :=
  if a * b < 2 ^ bits then .ok (a * b) else .error .overflow

def sub (a b : Nat) : Strict Nat :=
  if b ≤ a then .ok (a - b) else .error .overflow

def get (m : Vector α n) (i : Nat) : Strict α :=
  if h : i < n then .ok m[i] else .error .index

def set (m : Vector α n) (i : Nat) (v : α) : Strict (Vector α n) :=
  if h : i < n then .ok (m.set i v) else .error .index

/-- An index taken round `size` places, of which there must be one. -/
def wrap (i size : Nat) : Strict Nat :=
  if 0 < size then .ok (i % size) else .error .index

/-! Memories of any size. -/

def getAt (m : Array α) (i : Nat) : Strict α :=
  if h : i < m.size then .ok m[i] else .error .index

def setAt (m : Array α) (i : Nat) (v : α) : Strict (Array α) :=
  if h : i < m.size then .ok (m.set i v) else .error .index

/-- What is between two places, which must be in order and inside. -/
def slice (m : Array α) (i j : Nat) : Strict (Array α) :=
  if i ≤ j ∧ j ≤ m.size then .ok (m.extract i j) else .error .index

theorem ok_bind {β : Type} (a : α) (f : α → Strict β) : (Except.ok a : Strict α) >>= f = f a := rfl

theorem pure_eq (a : α) : (pure a : Strict α) = .ok a := rfl

variable {a b i bits : Nat}

theorem add_ok (h : a + b < 2 ^ bits) : add bits a b = .ok (a + b) := if_pos h

theorem mul_ok (h : a * b < 2 ^ bits) : mul bits a b = .ok (a * b) := if_pos h

theorem sub_ok (h : b ≤ a) : sub a b = .ok (a - b) := if_pos h

theorem get_ok (m : Vector α n) (h : i < n) : get m i = .ok m[i] := dif_pos h

theorem set_ok (m : Vector α n) (v : α) (h : i < n) : set m i v = .ok (m.set i v) := dif_pos h

theorem wrap_ok {size : Nat} (h : 0 < size) : wrap i size = .ok (i % size) := if_pos h

theorem getAt_ok (m : Array α) (h : i < m.size) : getAt m i = .ok m[i] := dif_pos h

theorem setAt_ok (m : Array α) (v : α) (h : i < m.size) : setAt m i v = .ok (m.set i v) := dif_pos h

theorem slice_ok (m : Array α) {j : Nat} (hi : i ≤ j) (hj : j ≤ m.size) :
    slice m i j = .ok (m.extract i j) := if_pos ⟨hi, hj⟩

theorem get_read [Ram.Sized n] (m : Ram n) (h : i < n) : get m i = .ok (Ram.read m i) := by
  simp only [get_ok m h, Ram.read, Nat.mod_eq_of_lt h]

theorem set_write [Ram.Sized n] (m : Ram n) (v : UInt8) (h : i < n) :
    set m i v = .ok (Ram.write m i v) := by
  simp only [set_ok m v h, Ram.write, Nat.mod_eq_of_lt h]

theorem set_setIfInBounds (m : Vector α n) (v : α) (h : i < n) :
    set m i v = .ok (m.setIfInBounds i v) := by
  rw [set_ok m v h]
  congr 1
  ext j hj
  rw [Vector.getElem_set, Vector.getElem_setIfInBounds]

end Strict
end Famicom
