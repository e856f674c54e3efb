/-! Length counters, which silence a channel after a number of half frames. -/
namespace Famicom.Apu

structure LengthCounter where
  enabled : Bool := false
  halt : Bool := false
  value : Nat := 0
deriving DecidableEq

namespace LengthCounter

def table : Vector Nat 32 := #v[
  10, 254, 20, 2, 40, 4, 80, 6, 160, 8, 60, 10, 14, 12, 26, 14,
  12, 16, 24, 18, 48, 20, 96, 22, 192, 24, 72, 26, 16, 28, 32, 30]

def setEnabled (l : LengthCounter) (on : Bool) : LengthCounter :=
  { l with enabled := on, value := if on then l.value else 0 }

def setHalt (l : LengthCounter) (on : Bool) : LengthCounter := { l with halt := on }

def load (l : LengthCounter) (index : Nat) : LengthCounter :=
  if l.enabled then { l with value := table[index % 32] } else l

def clock (l : LengthCounter) : LengthCounter :=
  if l.halt then l else { l with value := l.value - 1 }

@[inline] def active (l : LengthCounter) : Bool := l.value != 0

end LengthCounter
end Famicom.Apu
