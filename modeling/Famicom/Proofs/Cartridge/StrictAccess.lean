import Famicom.Cartridge
import Famicom.Proofs.Strict
import Mathlib.Tactic.SplitIfs

/-! Cartridges on a machine that stops at a fault. Each access stands here a second time, with its
differences, its remainders and its accesses to memory checked. None of the checks ever fails,
whatever the sizes of the chips and whatever the registers hold: a chip that is not there is not
read, and no chip counts as less than one bank. -/
namespace Famicom.Cartridge

theorem bankCount_pos (chip size : Nat) : 0 < bankCount chip size :=
  Nat.lt_of_lt_of_le Nat.one_pos (Nat.le_max_left _ _)

/-! The chips. -/

namespace Storage

def strictReadPrg (s : Storage) (offset : Nat) : Strict UInt8 :=
  if s.prgRom.isEmpty then pure 0xFF
  else do
    let i ← Strict.wrap offset s.prgRom.size
    Strict.getAt s.prgRom i

def strictReadChr (s : Storage) (offset : Nat) : Strict UInt8 :=
  if s.chr.isEmpty then pure 0
  else do
    let i ← Strict.wrap offset s.chr.size
    Strict.getAt s.chr i

def strictWriteChr (s : Storage) (offset : Nat) (v : UInt8) : Strict Storage :=
  if !s.chrWritable || s.chr.isEmpty then pure s
  else do
    let i ← Strict.wrap offset s.chr.size
    let chr ← Strict.setAt s.chr i v
    pure { s with chr }

def strictRamIndex (a : UInt16) : Strict Nat := do
  let i ← Strict.sub a.toNat 0x6000
  Strict.wrap i 0x2000

def strictReadRam (s : Storage) (a : UInt16) : Strict UInt8 := do
  let i ← strictRamIndex a
  Strict.get s.prgRam i

def strictWriteRam (s : Storage) (a : UInt16) (v : UInt8) : Strict Storage := do
  let i ← strictRamIndex a
  let prgRam ← Strict.set s.prgRam i v
  pure { s with prgRam }

variable (s : Storage)

theorem strictReadPrg_ok (offset : Nat) : s.strictReadPrg offset = .ok (s.readPrg offset) := by
  unfold strictReadPrg readPrg
  by_cases h : s.prgRom.size = 0
  · simp [Array.isEmpty, h, Strict.pure_eq]
  · have hpos : 0 < s.prgRom.size := Nat.pos_of_ne_zero h
    simp [Array.isEmpty, h, Strict.wrap_ok hpos, Strict.ok_bind,
      Strict.getAt_ok _ (Nat.mod_lt offset hpos)]

theorem strictReadChr_ok (offset : Nat) : s.strictReadChr offset = .ok (s.readChr offset) := by
  unfold strictReadChr readChr
  by_cases h : s.chr.size = 0
  · simp [Array.isEmpty, h, Strict.pure_eq]
  · have hpos : 0 < s.chr.size := Nat.pos_of_ne_zero h
    simp [Array.isEmpty, h, Strict.wrap_ok hpos, Strict.ok_bind,
      Strict.getAt_ok _ (Nat.mod_lt offset hpos)]

theorem strictWriteChr_ok (offset : Nat) (v : UInt8) :
    s.strictWriteChr offset v = .ok (s.writeChr offset v) := by
  unfold strictWriteChr writeChr
  by_cases h : s.chrWritable = false ∨ s.chr.size = 0
  · rw [dif_pos h, if_pos]
    · rfl
    · simpa [Array.isEmpty] using h
  · have hpos : 0 < s.chr.size := Nat.pos_of_ne_zero (not_or.mp h).2
    rw [dif_neg h, if_neg]
    · simp only [Strict.wrap_ok hpos, Strict.ok_bind, Strict.setAt_ok _ v (Nat.mod_lt offset hpos)]
      rfl
    · simpa [Array.isEmpty] using h

theorem strictRamIndex_ok {a : UInt16} (h : 0x6000 ≤ a.toNat) :
    strictRamIndex a = .ok (a.toNat % 0x2000) := by
  have hmod : (a.toNat - 0x6000) % 0x2000 = a.toNat % 0x2000 := by omega
  rw [strictRamIndex, Strict.sub_ok h, Strict.ok_bind, Strict.wrap_ok (by decide), hmod]

theorem strictReadRam_ok {a : UInt16} (h : 0x6000 ≤ a.toNat) :
    s.strictReadRam a = .ok (s.readRam a) := by
  rw [strictReadRam, strictRamIndex_ok h, Strict.ok_bind,
    Strict.get_ok _ (Nat.mod_lt _ (by decide))]
  rfl

theorem strictWriteRam_ok {a : UInt16} (h : 0x6000 ≤ a.toNat) (v : UInt8) :
    s.strictWriteRam a v = .ok (s.writeRam a v) := by
  rw [strictWriteRam, strictRamIndex_ok h, Strict.ok_bind,
    Strict.set_ok _ v (Nat.mod_lt _ (by decide))]
  rfl

end Storage

/-! The chips that switch banks. -/

namespace Mmc1
variable (m : Mmc1) {banks : Nat}

def strictSettle (m : Mmc1) (banks : Nat) : Strict Mmc1 := do
  let bank ← Strict.wrap (m.prg &&& 0x0F).toNat banks
  let last ← Strict.sub banks 1
  let mode := m.control >>> 2 &&& 3
  let windows :=
    if mode ≤ 1 then (bank / 2 * 2, min (bank / 2 * 2 + 1) last)
    else if mode = 2 then (0, bank)
    else (bank, last)
  pure { m with windows }

def strictCommit (m : Mmc1) (banks : Nat) (a : UInt16) (v : UInt8) : Strict Mmc1 :=
  let m :=
    if a < 0xA000 then { m with control := v }
    else if a < 0xC000 then { m with chr0 := v }
    else if a < 0xE000 then { m with chr1 := v }
    else { m with prg := v }
  m.strictSettle banks

def strictWrite (m : Mmc1) (banks : Nat) (a : UInt16) (v : UInt8) : Strict Mmc1 :=
  if Byte.has v 0x80 then
    strictSettle { m with shift := 0, count := 0, control := m.control ||| 0x0C } banks
  else
    let shift := m.shift ||| (v &&& 1) <<< m.count
    if m.count = 4 then { m with shift := 0, count := 0 }.strictCommit banks a (shift &&& 0x1F)
    else pure { m with shift := shift, count := m.count + 1 }

def strictChrOffset (m : Mmc1) (size a : Nat) : Strict Nat :=
  if Byte.has m.control 0x10 then do
    let bank ← Strict.wrap (if a % 0x2000 < 0x1000 then m.chr0 else m.chr1).toNat
      (bankCount size 0x1000)
    pure (bank * 0x1000 + a % 0x1000)
  else do
    let bank ← Strict.wrap (m.chr0 >>> 1).toNat (bankCount size 0x2000)
    pure (bank * 0x2000 + a % 0x2000)

theorem strictSettle_ok (h : 0 < banks) : m.strictSettle banks = .ok (m.settle banks) := by
  rw [strictSettle, Strict.wrap_ok h, Strict.ok_bind, Strict.sub_ok h, Strict.ok_bind]
  rfl

theorem strictWrite_ok (h : 0 < banks) (a : UInt16) (v : UInt8) :
    m.strictWrite banks a v = .ok (m.write banks a v) := by
  unfold strictWrite write strictCommit commit
  simp only [strictSettle_ok _ h, Strict.pure_eq]
  split_ifs <;> rfl

theorem strictChrOffset_ok (size a : Nat) :
    m.strictChrOffset size a = .ok (m.chrOffset size a) := by
  unfold strictChrOffset chrOffset
  simp only [Strict.wrap_ok (bankCount_pos _ _), Strict.ok_bind, Strict.pure_eq]
  split_ifs <;> rfl

end Mmc1

namespace Mmc3
variable (m : Mmc3)

/-- Where there is only one bank the second last is the first. -/
def strictPrgBank (m : Mmc3) (banks : Nat) (a : UInt16) : Strict Nat := do
  let last ← Strict.sub banks 1
  let r6 ← Strict.get m.banks 6
  let chosen ← Strict.wrap (r6 &&& 0x3F).toNat banks
  let r7 ← Strict.get m.banks 7
  let second ← Strict.wrap (r7 &&& 0x3F).toNat banks
  let swapped := Byte.has m.select 0x40
  pure <|
    if a < 0xA000 then if swapped then banks - 2 else chosen
    else if a < 0xC000 then second
    else if a < 0xE000 then if swapped then chosen else banks - 2
    else last

def strictChrOffset (m : Mmc3) (size a : Nat) : Strict Nat := do
  let a := (if Byte.has m.select 0x80 then a + 0x1000 else a) % 0x2000
  let half := a / 0x400 % 2
  let bank ←
    if a < 0x0800 then do let r ← Strict.get m.banks 0; pure ((r &&& 0xFE).toNat + half)
    else if a < 0x1000 then do let r ← Strict.get m.banks 1; pure ((r &&& 0xFE).toNat + half)
    else if a < 0x1400 then do let r ← Strict.get m.banks 2; pure r.toNat
    else if a < 0x1800 then do let r ← Strict.get m.banks 3; pure r.toNat
    else if a < 0x1C00 then do let r ← Strict.get m.banks 4; pure r.toNat
    else do let r ← Strict.get m.banks 5; pure r.toNat
  let bank ← Strict.wrap bank (bankCount size 0x400)
  pure (bank * 0x400 + a % 0x400)

def strictWrite (m : Mmc3) (a : UInt16) (v : UInt8) : Strict Mmc3 :=
  if a < 0xA000 ∧ a &&& 1 ≠ 0 then do
    let banks ← Strict.set m.banks (m.select &&& 7).toNat v
    pure { m with banks }
  else pure (m.write a v)

theorem strictPrgBank_ok {banks : Nat} (h : 0 < banks) (a : UInt16) :
    m.strictPrgBank banks a = .ok (m.prgBank banks a) := by
  unfold strictPrgBank prgBank
  simp only [Strict.sub_ok h, Strict.get_ok, Nat.reduceLT, Strict.wrap_ok h, Strict.ok_bind,
    Strict.pure_eq]

theorem strictChrOffset_ok (size a : Nat) :
    m.strictChrOffset size a = .ok (m.chrOffset size a) := by
  unfold strictChrOffset chrOffset
  simp only [Strict.get_ok, Nat.reduceLT, Strict.ok_bind, Strict.pure_eq]
  split_ifs <;> simp only [Strict.ok_bind, Strict.wrap_ok (bankCount_pos _ _)]

theorem select_lt : (m.select &&& 7).toNat < 8 := by
  rw [UInt8.toNat_and]
  exact Nat.and_lt_two_pow _ (n := 3) (by decide)

theorem strictWrite_ok (a : UInt16) (v : UInt8) : m.strictWrite a v = .ok (m.write a v) := by
  unfold strictWrite
  split_ifs with h
  · have heven : ¬(a &&& 1 == 0) = true := by simpa using h.2
    rw [Strict.set_ok _ v m.select_lt, Strict.ok_bind, write, if_pos h.1, if_neg heven]
    simp only [Nat.mod_eq_of_lt m.select_lt, Strict.pure_eq]
  · rfl

end Mmc3

/-! The boards. -/

namespace Board
variable (b : Board)

def strictPrgOffset (b : Board) (size : Nat) (a : UInt16) : Strict Nat :=
  match b with
  | nrom _ | cnrom .. => Strict.sub a.toNat 0x8000
  | mmc1 m => pure (m.prgOffset a)
  | uxrom _ latch => do
    let banks := bankCount size 0x4000
    let bank ← if a < 0xC000 then Strict.wrap latch.toNat banks else Strict.sub banks 1
    pure (bank * 0x4000 + a.toNat % 0x4000)
  | mmc3 m => do
    let bank ← m.strictPrgBank (bankCount size 0x2000) a
    pure (bank * 0x2000 + a.toNat % 0x2000)
  | axrom latch => do
    let bank ← Strict.wrap (latch &&& 7).toNat (bankCount size 0x8000)
    pure (bank * 0x8000 + a.toNat % 0x8000)

def strictChrOffset (b : Board) (size a : Nat) : Strict Nat :=
  match b with
  | nrom _ | uxrom .. | axrom _ => pure a
  | mmc1 m => m.strictChrOffset size a
  | cnrom _ latch => do
    let bank ← Strict.wrap latch.toNat (bankCount size 0x2000)
    pure (bank * 0x2000 + a)
  | mmc3 m => m.strictChrOffset size a

def strictWrite (b : Board) (size : Nat) (a : UInt16) (v : UInt8) : Strict Board :=
  match b with
  | mmc1 m => do
    let m ← m.strictWrite (bankCount size 0x4000) a v
    pure (mmc1 m)
  | mmc3 m => do
    let m ← m.strictWrite a v
    pure (mmc3 m)
  | b => pure (b.write size a v)

theorem strictPrgOffset_ok (size : Nat) {a : UInt16} (h : 0x8000 ≤ a.toNat) :
    b.strictPrgOffset size a = .ok (b.prgOffset size a) := by
  have hlt := a.toNat_lt
  cases b with
  | nrom | cnrom =>
    have hmod : a.toNat - 0x8000 = a.toNat % 0x8000 := by omega
    rw [strictPrgOffset, Strict.sub_ok h, hmod]
    rfl
  | mmc1 m => rfl
  | uxrom w latch =>
    simp only [strictPrgOffset, prgOffset, Strict.wrap_ok (bankCount_pos _ _),
      Strict.sub_ok (bankCount_pos _ _)]
    split_ifs <;> rfl
  | mmc3 m =>
    simp only [strictPrgOffset, Mmc3.strictPrgBank_ok _ (bankCount_pos _ _)]
    rfl
  | axrom latch =>
    simp only [strictPrgOffset, Strict.wrap_ok (bankCount_pos _ _)]
    rfl

theorem strictChrOffset_ok (size a : Nat) :
    b.strictChrOffset size a = .ok (b.chrOffset size a) := by
  cases b with
  | nrom | uxrom | axrom => rfl
  | mmc1 m => exact m.strictChrOffset_ok size a
  | cnrom w latch =>
    simp only [strictChrOffset, Strict.wrap_ok (bankCount_pos _ _)]
    rfl
  | mmc3 m => exact m.strictChrOffset_ok size a

theorem strictWrite_ok (size : Nat) (a : UInt16) (v : UInt8) :
    b.strictWrite size a v = .ok (b.write size a v) := by
  cases b with
  | mmc1 m =>
    simp only [strictWrite, m.strictWrite_ok (bankCount_pos _ _)]
    rfl
  | mmc3 m =>
    simp only [strictWrite, m.strictWrite_ok]
    rfl
  | nrom | uxrom | cnrom | axrom => rfl

end Board

/-! The cartridge. -/

def strictCpuRead (c : Cartridge) (a : UInt16) : Strict (Option UInt8) :=
  if a < 0x6000 then pure none
  else if a < 0x8000 then
    if c.board.ramReadable then do
      let v ← c.storage.strictReadRam a
      pure (some v)
    else pure none
  else do
    let offset ← c.board.strictPrgOffset c.storage.prgRom.size a
    let v ← c.storage.strictReadPrg offset
    pure (some v)

def strictCpuWrite (c : Cartridge) (a : UInt16) (v : UInt8) : Strict Cartridge :=
  if a < 0x6000 then pure c
  else if a < 0x8000 then
    if c.board.ramWritable then do
      let storage ← c.storage.strictWriteRam a v
      pure { c with storage }
    else pure c
  else do
    let board ← c.board.strictWrite c.storage.prgRom.size a v
    pure { c with board }

def strictPpuRead (c : Cartridge) (a : Nat) : Strict (Option UInt8 × Cartridge) :=
  let c := c.observe a
  if a < 0x2000 then do
    let offset ← c.board.strictChrOffset c.storage.chr.size a
    let v ← c.storage.strictReadChr offset
    pure (some v, c)
  else pure (none, c)

def strictPpuWrite (c : Cartridge) (a : Nat) (v : UInt8) : Strict Cartridge :=
  let c := c.observe a
  if a < 0x2000 then do
    let offset ← c.board.strictChrOffset c.storage.chr.size a
    let storage ← c.storage.strictWriteChr offset v
    pure { c with storage }
  else pure c

variable (c : Cartridge)

theorem toNat_of_not_lt {a b : UInt16} (h : ¬a < b) : b.toNat ≤ a.toNat :=
  UInt16.le_iff_toNat_le.mp (UInt16.not_lt.mp h)

theorem strictCpuRead_ok (a : UInt16) : c.strictCpuRead a = .ok (c.cpuRead a) := by
  unfold strictCpuRead cpuRead
  split_ifs with h6000 h8000 hram
  · rfl
  · simp only [c.storage.strictReadRam_ok (toNat_of_not_lt h6000)]
    rfl
  · rfl
  · simp only [c.board.strictPrgOffset_ok _ (toNat_of_not_lt h8000), Strict.ok_bind,
      Storage.strictReadPrg_ok]
    rfl

theorem strictCpuWrite_ok (a : UInt16) (v : UInt8) :
    c.strictCpuWrite a v = .ok (c.cpuWrite a v) := by
  unfold strictCpuWrite cpuWrite
  split_ifs with h6000 h8000 hram
  · rfl
  · simp only [c.storage.strictWriteRam_ok (toNat_of_not_lt h6000)]
    rfl
  · rfl
  · simp only [c.board.strictWrite_ok]
    rfl

theorem strictPpuRead_ok (a : Nat) : c.strictPpuRead a = .ok (c.ppuRead a) := by
  unfold strictPpuRead ppuRead chrRead
  simp only [Board.strictChrOffset_ok, Strict.ok_bind, Storage.strictReadChr_ok, Strict.pure_eq]
  split_ifs <;> rfl

theorem strictPpuWrite_ok (a : Nat) (v : UInt8) :
    c.strictPpuWrite a v = .ok (c.ppuWrite a v) := by
  unfold strictPpuWrite ppuWrite chrWrite
  simp only [Board.strictChrOffset_ok, Strict.ok_bind, Storage.strictWriteChr_ok, Strict.pure_eq]
  split_ifs <;> rfl

end Famicom.Cartridge
