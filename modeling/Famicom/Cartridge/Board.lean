import Famicom.Cartridge.Mmc1
import Famicom.Cartridge.Mmc3

/-! The boards: registers between the console's address lines and the memory chips. -/
namespace Famicom.Cartridge

/-- A latch holds the last byte written to it, whole; decoding takes the bits that are wired. -/
inductive Board where
  | nrom (wiring : Mirroring)
  | mmc1 (chip : Mmc1)
  | uxrom (wiring : Mirroring) (latch : UInt8)
  | cnrom (wiring : Mirroring) (latch : UInt8)
  | mmc3 (chip : Mmc3)
  | axrom (latch : UInt8)
deriving DecidableEq

namespace Board

/-- The board with a given mapper number, as it powers on with a program chip of `size` bytes. -/
def ofMapper? (id : Nat) (wiring : Mirroring) (size : Nat) : Option Board :=
  match id with
  | 0 => some (.nrom wiring)
  | 1 => some (.mmc1 (.powerOn (bankCount size 0x4000)))
  | 2 => some (.uxrom wiring 0)
  | 3 => some (.cnrom wiring 0)
  | 4 => some (.mmc3 { horizontal := wiring == .horizontal })
  | 7 => some (.axrom 0)
  | _ => none

def reset (b : Board) (size : Nat) : Board :=
  match b with
  | nrom w => nrom w
  | mmc1 _ => mmc1 (.powerOn (bankCount size 0x4000))
  | uxrom w _ => uxrom w 0
  | cnrom w _ => cnrom w 0
  | mmc3 m => mmc3 m.reset
  | axrom _ => axrom 0

def decodesRam : Board → Bool
  | nrom _ | mmc1 _ | mmc3 _ => true
  | uxrom .. | cnrom .. | axrom _ => false

def ramReadable : Board → Bool
  | nrom _ => true
  | mmc1 m => m.ramEnabled
  | mmc3 m => m.ramEnabled
  | uxrom .. | cnrom .. | axrom _ => false

def ramWritable : Board → Bool
  | mmc3 m => m.ramEnabled && !m.ramProtected
  | b => b.ramReadable

def decodesRegisters : Board → Bool
  | nrom _ => false
  | _ => true

def write (b : Board) (size : Nat) (a : UInt16) (v : UInt8) : Board :=
  match b with
  | nrom w => nrom w
  | mmc1 m => mmc1 (m.write (bankCount size 0x4000) a v)
  | uxrom w _ => uxrom w v
  | cnrom w _ => cnrom w v
  | mmc3 m => mmc3 (m.write a v)
  | axrom _ => axrom v

/-- The byte of a program chip of `size` bytes behind an address from `$8000` up. -/
def prgOffset (b : Board) (size : Nat) (a : UInt16) : Nat :=
  match b with
  | nrom _ | cnrom .. => a.toNat % 0x8000
  | mmc1 m => m.prgOffset a
  | uxrom _ latch =>
    let banks := bankCount size 0x4000
    (if a < 0xC000 then latch.toNat % banks else banks - 1) * 0x4000 + a.toNat % 0x4000
  | mmc3 m => m.prgOffset size a
  | axrom latch =>
    (latch &&& 7).toNat % bankCount size 0x8000 * 0x8000 + a.toNat % 0x8000

/-- The byte of a character chip of `size` bytes behind an address below `$2000`. -/
def chrOffset (b : Board) (size a : Nat) : Nat :=
  match b with
  | nrom _ | uxrom .. | axrom _ => a
  | mmc1 m => m.chrOffset size a
  | cnrom _ latch => latch.toNat % bankCount size 0x2000 * 0x2000 + a
  | mmc3 m => m.chrOffset size a

def mirroring : Board → Mirroring
  | nrom w | uxrom w _ | cnrom w _ => w
  | mmc1 m => m.mirroring
  | mmc3 m => m.mirroring
  | axrom latch => if Byte.has latch 0x10 then .singleUpper else .singleLower

@[inline] def observe (b : Board) (a : Nat) : Board :=
  match b with
  | mmc3 m => mmc3 { m with lines := m.lines.observe a }
  | b => b

@[inline] def clock (b : Board) : Board :=
  match b with
  | mmc3 m => mmc3 { m with lines := m.lines.clock }
  | b => b

def irq : Board → Bool
  | mmc3 m => m.lines.pending
  | _ => false

def describe (b : Board) (s : Storage) : String :=
  match b with
  | nrom _ =>
    let kind := if 0x4000 < s.prgRom.size then 256 else 128
    let ram := if s.chrWritable then " (ram)" else ""
    s!"NROM-{kind} prg={s.prgRom.size / 1024}K chr={s.chr.size / 1024}K{ram}"
  | mmc1 m => m.describe
  | uxrom _ latch =>
    let banks := bankCount s.prgRom.size 0x4000
    s!"UxROM prg=[{latch.toNat % banks},{banks - 1}]"
  | cnrom _ latch => s!"CNROM chr={latch.toNat % bankCount s.chr.size 0x2000}"
  | mmc3 m => m.describe
  | axrom latch =>
    let bank := (latch &&& 7).toNat % bankCount s.prgRom.size 0x8000
    let page := if Byte.has latch 0x10 then 1 else 0
    s!"AxROM prg={bank} page={page}"

end Board
end Famicom.Cartridge
