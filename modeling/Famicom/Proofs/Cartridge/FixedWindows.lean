import Famicom.Proofs.Cartridge.Accesses
import Famicom.Proofs.Cartridge.Image
import Famicom.Proofs.Cartridge.StrictAccess

/-! What no history of a cartridge changes. What is in its ROMs stays as it was loaded; a window of
the program is a whole number of 8 KiB banks, so that the lower lines of an address always pass; and
the windows that are wired to a place show that place. -/
namespace Famicom.Cartridge

namespace Board

def mapperId : Board → Nat
  | nrom _ => 0
  | mmc1 _ => 1
  | uxrom .. => 2
  | cnrom .. => 3
  | mmc3 _ => 4
  | axrom _ => 7

section Kind
variable {id : Nat} {wiring : Mirroring} {size : Nat} {b : Board}

theorem mapperId_ofMapper (h : ofMapper? id wiring size = some b) : b.mapperId = id := by
  unfold ofMapper? at h
  split at h <;> cases h <;> rfl

theorem mapperId_after (b : Board) (size : Nat) (x : Access) :
    (b.after size x).mapperId = b.mapperId := by
  cases x with
  | cpuRead a => rfl
  | cpuWrite a v =>
    simp only [after]
    split_ifs
    · rfl
    · cases b <;> rfl
  | ppuRead a | ppuWrite a v | clock => cases b <;> rfl

theorem mapperId_reset (b : Board) (size : Nat) : (b.reset size).mapperId = b.mapperId := by
  cases b <;> rfl

end Kind

theorem prgOffset_mod (b : Board) (size : Nat) (a : UInt16) :
    b.prgOffset size a % 0x2000 = a.toNat % 0x2000 := by
  cases b with
  | nrom w | cnrom w latch =>
    simp only [prgOffset]
    omega
  | mmc1 m =>
    simp only [prgOffset, Mmc1.prgOffset]
    omega
  | uxrom w latch =>
    simp only [prgOffset]
    omega
  | mmc3 m =>
    simp only [prgOffset, Mmc3.prgOffset]
    omega
  | axrom latch =>
    simp only [prgOffset]
    omega

end Board

theorem mapperId_history (c : Cartridge) (es : Nat → Event) (n : Nat) :
    (c.history es n).board.mapperId = c.board.mapperId := by
  induction n with
  | zero => rfl
  | succ n ih =>
    rw [history, ← ih]
    cases es n with
    | access x => rw [afterEvent, board_after, Board.mapperId_after]
    | reset => exact Board.mapperId_reset _ _

/-! The windows. -/

theorem some_readPrg {s : Storage} (h : 0 < s.prgRom.size) (offset : Nat) :
    some (s.readPrg offset) = s.prgRom[offset % s.prgRom.size]? := by
  have hlt : offset % s.prgRom.size < s.prgRom.size := Nat.mod_lt _ h
  rw [Storage.readPrg, dif_neg (Nat.ne_of_gt h), Array.getElem?_eq_getElem hlt]

section Windows
variable {c : Cartridge} {banks : Nat} {a : UInt16}

theorem cpuRead_aligned (hsize : c.storage.prgRom.size = banks * 0x4000) (hbanks : 0 < banks)
    (ha : 0x8000 ≤ a) :
    ∃ (k : Nat) (hk : k < c.storage.prgRom.size), k % 0x2000 = a.toNat % 0x2000 ∧
      c.cpuRead a = some c.storage.prgRom[k] := by
  have hpos : 0 < c.storage.prgRom.size := by omega
  have hdvd : 0x2000 ∣ c.storage.prgRom.size := by omega
  have hlt := Nat.mod_lt (c.board.prgOffset c.storage.prgRom.size a) hpos
  refine ⟨_, hlt, ?_, ?_⟩
  · rw [Nat.mod_mod_of_dvd _ hdvd, Board.prgOffset_mod]
  · rw [cpuRead_high c ha, some_readPrg hpos, Array.getElem?_eq_getElem hlt]

theorem cpuRead_wired (hboard : c.board.mapperId = 0 ∨ c.board.mapperId = 3)
    (hpos : 0 < c.storage.prgRom.size) (ha : 0x8000 ≤ a) :
    c.cpuRead a = c.storage.prgRom[(a.toNat - 0x8000) % c.storage.prgRom.size]? := by
  have hlow : 0x8000 ≤ a.toNat := UInt16.le_iff_toNat_le.mp ha
  have hlt := a.toNat_lt
  have hoffset : c.board.prgOffset c.storage.prgRom.size a = a.toNat - 0x8000 := by
    cases hb : c.board with
    | nrom | cnrom =>
      rw [Board.prgOffset]
      omega
    | mmc1 | uxrom | mmc3 | axrom => simp [hb, Board.mapperId] at hboard
  rw [cpuRead_high c ha, some_readPrg hpos, hoffset]

theorem cpuRead_last16K (hboard : c.board.mapperId = 2)
    (hsize : c.storage.prgRom.size = banks * 0x4000) (hbanks : 0 < banks) (ha : 0xC000 ≤ a) :
    c.cpuRead a =
      c.storage.prgRom[c.storage.prgRom.size - 0x4000 + a.toNat % 0x4000]? := by
  have h8000 : 0x8000 ≤ a := UInt16.le_trans (by decide) ha
  have hcount : bankCount c.storage.prgRom.size 0x4000 = banks := by
    unfold bankCount
    omega
  have hoffset : c.board.prgOffset c.storage.prgRom.size a =
      c.storage.prgRom.size - 0x4000 + a.toNat % 0x4000 := by
    cases hb : c.board with
    | uxrom w latch =>
      rw [Board.prgOffset, if_neg (UInt16.not_lt.mpr ha), hcount]
      omega
    | nrom | mmc1 | cnrom | mmc3 | axrom => simp [hb, Board.mapperId] at hboard
  rw [cpuRead_high c h8000, some_readPrg (by omega), hoffset, Nat.mod_eq_of_lt (by omega)]

theorem cpuRead_last8K (hboard : c.board.mapperId = 4)
    (hsize : c.storage.prgRom.size = banks * 0x4000) (hbanks : 0 < banks) (ha : 0xE000 ≤ a) :
    c.cpuRead a =
      c.storage.prgRom[c.storage.prgRom.size - 0x2000 + a.toNat % 0x2000]? := by
  have h8000 : 0x8000 ≤ a := UInt16.le_trans (by decide) ha
  have hA000 : ¬a < 0xA000 := UInt16.not_lt.mpr (UInt16.le_trans (by decide) ha)
  have hC000 : ¬a < 0xC000 := UInt16.not_lt.mpr (UInt16.le_trans (by decide) ha)
  have hcount : bankCount c.storage.prgRom.size 0x2000 = 2 * banks := by
    unfold bankCount
    omega
  have hoffset : c.board.prgOffset c.storage.prgRom.size a =
      c.storage.prgRom.size - 0x2000 + a.toNat % 0x2000 := by
    cases hb : c.board with
    | mmc3 m =>
      rw [Board.prgOffset, Mmc3.prgOffset, Mmc3.prgBank, if_neg hA000, if_neg hC000,
        if_neg (UInt16.not_lt.mpr ha), hcount]
      omega
    | nrom | mmc1 | uxrom | cnrom | axrom => simp [hb, Board.mapperId] at hboard
  rw [cpuRead_high c h8000, some_readPrg (by omega), hoffset, Nat.mod_eq_of_lt (by omega)]

end Windows

/-- Whatever happens to a loaded cartridge, what is in its ROMs stays as it was in the image, no
access reaches outside a chip, and what is wired to a place in the program shows that place. -/
theorem windows_fixed {image : Array UInt8} {c : Cartridge} (h : load image = .ok c)
    (es : Nat → Event) (n : Nat) :
    let d := c.history es n
    let prg := program image c.header
    (d.storage.prgRom = prg ∧ d.storage.chrWritable = c.storage.chrWritable ∧
      (c.storage.chrWritable = false → d.storage.chr = characters image c.header)) ∧
    ((∀ a, d.strictCpuRead a = .ok (d.cpuRead a)) ∧
      (∀ a v, d.strictCpuWrite a v = .ok (d.cpuWrite a v)) ∧
      (∀ a, d.strictPpuRead a = .ok (d.ppuRead a)) ∧
      ∀ a v, d.strictPpuWrite a v = .ok (d.ppuWrite a v)) ∧
    (0 < prg.size →
      (∀ a, 0x8000 ≤ a → ∃ (k : Nat) (hk : k < prg.size),
        k % 0x2000 = a.toNat % 0x2000 ∧ d.cpuRead a = some prg[k]) ∧
      (c.header.mapperId = 2 → ∀ a, 0xC000 ≤ a →
        d.cpuRead a = prg[prg.size - 0x4000 + a.toNat % 0x4000]?) ∧
      (c.header.mapperId = 4 → ∀ a, 0xE000 ≤ a →
        d.cpuRead a = prg[prg.size - 0x2000 + a.toNat % 0x2000]?) ∧
      (c.header.mapperId = 0 ∨ c.header.mapperId = 3 → ∀ a, 0x8000 ≤ a →
        d.cpuRead a = prg[(a.toNat - 0x8000) % prg.size]?)) := by
  have hloaded := load_iff.mp h
  have hkeeps := keeps_history c es n
  have hprg : (c.history es n).storage.prgRom = program image c.header := by
    rw [hkeeps.prgRom_eq, hloaded.prgRom_eq]
  have hid : (c.history es n).board.mapperId = c.header.mapperId := by
    rw [mapperId_history]
    exact Board.mapperId_ofMapper hloaded.board_eq
  have hsize : (c.history es n).storage.prgRom.size = c.header.prgBanks * 0x4000 := by
    rw [hkeeps.prgRom_eq, hloaded.size_prgRom]
  intro d prg
  refine ⟨⟨hprg, hkeeps.chrWritable_eq, ?_⟩, ⟨d.strictCpuRead_ok, d.strictCpuWrite_ok,
    d.strictPpuRead_ok, d.strictPpuWrite_ok⟩, ?_⟩
  · intro hrom
    have hbanks : ¬c.header.chrBanks = 0 := by
      rw [hloaded.storage_eq] at hrom
      simpa [chips] using hrom
    rw [hkeeps.chr_eq hrom, hloaded.storage_eq]
    exact if_neg hbanks
  · simp only [prg, ← hprg, ← hid]
    intro hpos
    have hbanks : 0 < c.header.prgBanks := by omega
    refine ⟨?_, ?_, ?_, ?_⟩
    · intro a ha
      exact cpuRead_aligned hsize hbanks ha
    · intro hboard a ha
      exact cpuRead_last16K hboard hsize hbanks ha
    · intro hboard a ha
      exact cpuRead_last8K hboard hsize hbanks ha
    · intro hboard a ha
      exact cpuRead_wired hboard hpos ha

/-- An MMC3 board with four banks of 8 KiB, each full of its own number. -/
def fourBanksHead : Array UInt8 :=
  #[0x4E, 0x45, 0x53, 0x1A, 2, 0, 0x40, 0, 0, 0, 0, 0, 0, 0, 0, 0]

def fourBanksImage : Array UInt8 :=
  fourBanksHead ++ Array.ofFn (n := 0x8000) fun i => UInt8.ofNat (i / 0x2000)

def fourBanksHeader : Header where
  prgBanks := 2
  chrBanks := 0
  mapperId := 4
  vertical := false
  battery := false
  trainer := false
  fourScreen := false

def fourBanks : Cartridge where
  header := fourBanksHeader
  storage := chips fourBanksImage fourBanksHeader
  board := .mmc3 { horizontal := true }

theorem load_fourBanksImage : load fourBanksImage = .ok fourBanks := by
  apply load_iff.mpr
  constructor
  case parsed =>
    rw [fourBanksImage, Header.parse_append rfl]
    rfl
  case fits =>
    simp [fourBanksImage, fourBanksHead, fourBanks, fourBanksHeader, Header.imageSize,
      Header.prgStart, Header.prgSize, Header.chrSize]
  all_goals rfl

theorem program_fourBanks : program fourBanksImage fourBanks.header =
    Array.ofFn (n := 0x8000) fun i => UInt8.ofNat (i / 0x2000) :=
  program_append rfl (Array.size_ofFn)

theorem size_fourBanks : (program fourBanksImage fourBanks.header).size = 0x8000 := by
  rw [program_fourBanks, Array.size_ofFn]

/-- The switched windows are exchanged, and writes go to the program and to its last bank. -/
def meddled (i : Nat) : Event :=
  let script : List Event :=
    [.access (.cpuWrite 0x8000 0x46), .access (.cpuWrite 0x8001 7), .access (.cpuWrite 0xE000 9),
      .reset, .access (.cpuWrite 0x8000 0x47), .access (.cpuWrite 0x8001 3)]
  script[i]?.getD (.access .clock)

theorem windows_fixed_fourBanks : load fourBanksImage = .ok fourBanks ∧
    0 < (program fourBanksImage fourBanks.header).size ∧
    (fourBanks.history meddled 6).cpuRead 0xE000 = some 3 := by
  have hpos : 0 < (program fourBanksImage fourBanks.header).size := by
    rw [size_fourBanks]
    decide
  obtain ⟨-, -, hread⟩ := windows_fixed load_fourBanksImage meddled 6
  obtain ⟨-, -, hlast, -⟩ := hread hpos
  refine ⟨load_fourBanksImage, hpos, ?_⟩
  rw [hlast rfl 0xE000 (by decide), size_fourBanks, program_fourBanks, Array.getElem?_ofFn]
  rfl

end Famicom.Cartridge
