import Famicom.Byte
import Famicom.Text
import Famicom.Cartridge.Mirroring
import Famicom.Cartridge.Storage

/-! The MMC3 chip: eight bank registers, and a scanline counter that watches address line 12 of
the picture bus. -/
namespace Famicom.Cartridge

/-- Counts rises of line 12 that follow three dots or more of rest. -/
structure LineCounter where
  latch : Nat := 0
  counter : Nat := 0
  reload : Bool := false
  enabled : Bool := false
  pending : Bool := false
  a12High : Bool := false
  /-- Dots for which line 12 has been low. -/
  lowDots : Nat := 0
deriving DecidableEq

namespace LineCounter

def filter : Nat := 3

def count (c : LineCounter) : LineCounter :=
  let reloads := c.counter == 0 || c.reload
  let counter := if reloads then c.latch else c.counter - 1
  { c with
    counter
    reload := c.reload && !reloads
    pending := c.pending || (counter == 0 && c.enabled) }

def observe (c : LineCounter) (a : Nat) : LineCounter :=
  if a / 0x1000 % 2 = 0 then { c with a12High := false }
  else
    let c := if !c.a12High && filter ≤ c.lowDots then c.count else c
    { c with a12High := true, lowDots := 0 }

@[inline] def clock (c : LineCounter) : LineCounter :=
  if c.a12High then c else { c with lowDots := c.lowDots + 1 }

end LineCounter

def Mmc3.firstBanks : Vector UInt8 8 := #v[0, 2, 4, 5, 6, 7, 0, 1]

structure Mmc3 where
  select : UInt8 := 0
  banks : Vector UInt8 8 := Mmc3.firstBanks
  horizontal : Bool
  ramEnabled : Bool := true
  ramProtected : Bool := false
  lines : LineCounter := {}
deriving DecidableEq

namespace Mmc3

/-- The arrangement of nametables survives a reset. -/
def reset (m : Mmc3) : Mmc3 := { horizontal := m.horizontal }

def write (m : Mmc3) (a : UInt16) (v : UInt8) : Mmc3 :=
  let even := a &&& 1 == 0
  if a < 0xA000 then
    if even then { m with select := v }
    else { m with banks := m.banks.set ((m.select &&& 7).toNat % 8) v (Nat.mod_lt _ (by decide)) }
  else if a < 0xC000 then
    if even then { m with horizontal := Byte.has v 1 }
    else { m with ramEnabled := Byte.has v 0x80, ramProtected := Byte.has v 0x40 }
  else if a < 0xE000 then
    if even then { m with lines.latch := v.toNat }
    else { m with lines.counter := 0, lines.reload := true }
  else
    if even then { m with lines.enabled := false, lines.pending := false }
    else { m with lines.enabled := true }

/-- Four 8 KiB windows. The last holds the last bank; select bit 6 says which of the first and
the third holds the one before it. -/
def prgBank (m : Mmc3) (banks : Nat) (a : UInt16) : Nat :=
  let chosen := (m.banks[6] &&& 0x3F).toNat % banks
  let swapped := Byte.has m.select 0x40
  if a < 0xA000 then if swapped then banks - 2 else chosen
  else if a < 0xC000 then (m.banks[7] &&& 0x3F).toNat % banks
  else if a < 0xE000 then if swapped then chosen else banks - 2
  else banks - 1

def prgOffset (m : Mmc3) (size : Nat) (a : UInt16) : Nat :=
  m.prgBank (bankCount size 0x2000) a * 0x2000 + a.toNat % 0x2000

/-- Two windows of 2 KiB, then four of 1 KiB; select bit 7 exchanges the halves. -/
def chrOffset (m : Mmc3) (size a : Nat) : Nat :=
  let a := (if Byte.has m.select 0x80 then a + 0x1000 else a) % 0x2000
  let half := a / 0x400 % 2
  let bank :=
    if a < 0x0800 then (m.banks[0] &&& 0xFE).toNat + half
    else if a < 0x1000 then (m.banks[1] &&& 0xFE).toNat + half
    else if a < 0x1400 then m.banks[2].toNat
    else if a < 0x1800 then m.banks[3].toNat
    else if a < 0x1C00 then m.banks[4].toNat
    else m.banks[5].toNat
  bank % bankCount size 0x400 * 0x400 + a % 0x400

def mirroring (m : Mmc3) : Mirroring := if m.horizontal then .horizontal else .vertical

def describe (m : Mmc3) : String :=
  let select := Text.hex 2 m.select.toNat
  let banks := String.intercalate ", " (m.banks.toList.map fun b => Text.hex 2 b.toNat)
  let c := m.lines
  s!"MMC3 sel={select} regs=[{banks}] irq latch={c.latch} counter={c.counter} "
    ++ s!"en={c.enabled} pending={c.pending}"

end Mmc3
end Famicom.Cartridge
