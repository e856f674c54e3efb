/-! Byte memories. Address lines above a chip's own are not connected, so a chip of `n` bytes
answers every address, repeating every `n`. -/
namespace Famicom

abbrev Ram (n : Nat) := Vector UInt8 n

namespace Ram

/-- A memory that answers has room for a byte. -/
class Sized (n : Nat) : Prop where
  pos : 0 < n

instance sized_32 : Sized 32 := ⟨by decide⟩
instance sized_256 : Sized 256 := ⟨by decide⟩
instance sized_2K : Sized 0x800 := ⟨by decide⟩
instance sized_4K : Sized 0x1000 := ⟨by decide⟩
instance sized_8K : Sized 0x2000 := ⟨by decide⟩

def zeros (n : Nat) : Ram n := Vector.replicate n 0

@[inline] def read [Sized n] (m : Ram n) (a : Nat) : UInt8 :=
  have : a % n < n := Nat.mod_lt a Sized.pos
  m[a % n]

@[inline] def write [Sized n] (m : Ram n) (a : Nat) (v : UInt8) : Ram n :=
  m.set (a % n) v (Nat.mod_lt a Sized.pos)

theorem read_write [Sized n] (m : Ram n) (a b : Nat) (v : UInt8) :
    (m.write a v).read b = if a % n = b % n then v else m.read b := by
  simp [read, write, Vector.getElem_set]

@[simp] theorem read_zeros [Sized n] (a : Nat) : (zeros n).read a = 0 := by
  simp [read, zeros]

end Ram
end Famicom
