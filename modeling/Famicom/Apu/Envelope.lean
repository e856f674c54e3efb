import Famicom.Byte

/-! The volume envelope: a level that decays by one every `volume + 1` quarter frames. -/
namespace Famicom.Apu

structure Envelope where
  start : Bool := false
  loop : Bool := false
  constant : Bool := false
  /-- The volume itself in constant mode, else the divider period. -/
  volume : Nat := 0
  divider : Nat := 0
  decay : Nat := 0
deriving DecidableEq

namespace Envelope

def write (e : Envelope) (v : UInt8) : Envelope :=
  { e with loop := Byte.has v 0x20, constant := Byte.has v 0x10, volume := v.toNat % 16 }

def restart (e : Envelope) : Envelope := { e with start := true }

def clock (e : Envelope) : Envelope :=
  if e.start then { e with start := false, decay := 15, divider := e.volume }
  else if e.divider ≠ 0 then { e with divider := e.divider - 1 }
  else
    let decay := if e.decay ≠ 0 then e.decay - 1 else if e.loop then 15 else 0
    { e with divider := e.volume, decay }

def output (e : Envelope) : Nat := if e.constant then e.volume else e.decay

end Envelope
end Famicom.Apu
