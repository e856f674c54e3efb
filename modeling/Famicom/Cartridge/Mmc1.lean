import Famicom.Byte
import Famicom.Text
import Famicom.Cartridge.Mirroring
import Famicom.Cartridge.Storage

/-! The MMC1 chip: four 5-bit registers behind a serial line. Each write carries one bit, lowest
first; the fifth names the register by its address. -/
namespace Famicom.Cartridge

structure Mmc1 where
  control : UInt8 := 0x0C
  chr0 : UInt8 := 0
  chr1 : UInt8 := 0
  prg : UInt8 := 0
  /-- The bits collected so far. -/
  shift : UInt8 := 0
  count : UInt8 := 0
  /-- The 16 KiB banks at `$8000` and at `$C000`, worked out whenever a register changes. -/
  windows : Nat × Nat := (0, 0)
deriving DecidableEq

namespace Mmc1

def ramEnabled (m : Mmc1) : Bool := !Byte.has m.prg 0x10

def selected (m : Mmc1) (banks : Nat) : Nat × Nat :=
  let bank := (m.prg &&& 0x0F).toNat % banks
  let mode := m.control >>> 2 &&& 3
  if mode ≤ 1 then (bank / 2 * 2, min (bank / 2 * 2 + 1) (banks - 1))
  else if mode = 2 then (0, bank)
  else (bank, banks - 1)

def settle (m : Mmc1) (banks : Nat) : Mmc1 := { m with windows := m.selected banks }

def powerOn (banks : Nat) : Mmc1 := settle {} banks

def commit (m : Mmc1) (banks : Nat) (a : UInt16) (v : UInt8) : Mmc1 :=
  let m :=
    if a < 0xA000 then { m with control := v }
    else if a < 0xC000 then { m with chr0 := v }
    else if a < 0xE000 then { m with chr1 := v }
    else { m with prg := v }
  m.settle banks

/-- A write with bit 7 set drops what was collected and returns to the power-on bank mode. -/
def write (m : Mmc1) (banks : Nat) (a : UInt16) (v : UInt8) : Mmc1 :=
  if Byte.has v 0x80 then
    settle { m with shift := 0, count := 0, control := m.control ||| 0x0C } banks
  else
    let shift := m.shift ||| (v &&& 1) <<< m.count
    if m.count = 4 then { m with shift := 0, count := 0 }.commit banks a (shift &&& 0x1F)
    else { m with shift := shift, count := m.count + 1 }

def prgOffset (m : Mmc1) (a : UInt16) : Nat :=
  (if a < 0xC000 then m.windows.1 else m.windows.2) * 0x4000 + a.toNat % 0x4000

def chrOffset (m : Mmc1) (size a : Nat) : Nat :=
  if Byte.has m.control 0x10 then
    let bank := (if a % 0x2000 < 0x1000 then m.chr0 else m.chr1).toNat % bankCount size 0x1000
    bank * 0x1000 + a % 0x1000
  else
    let bank := (m.chr0 >>> 1).toNat % bankCount size 0x2000
    bank * 0x2000 + a % 0x2000

def mirroring (m : Mmc1) : Mirroring :=
  let mode := m.control &&& 3
  if mode = 0 then .singleLower
  else if mode = 1 then .singleUpper
  else if mode = 2 then .vertical
  else .horizontal

def describe (m : Mmc1) : String :=
  let control := Text.binary 5 m.control.toNat
  let (lo, hi) := m.windows
  s!"MMC1 ctrl={control} prg=[{lo},{hi}] chr=[{m.chr0},{m.chr1}] shift={m.shift}/{m.count}"

end Mmc1
end Famicom.Cartridge
