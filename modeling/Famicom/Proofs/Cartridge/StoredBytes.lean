import Famicom.Proofs.Cartridge.BankRegisters
import Famicom.Proofs.Latest

/-! What the RAM on a cartridge holds. A byte of work RAM is the last one written to its address
while the board let writes through, and a byte of character RAM the last one written through any
window that showed it. Locks, banks and resets come between a byte and its reader, and leave it
where it is. -/
namespace Famicom.Cartridge

/-! Work RAM. -/

namespace Board

/-- Whether the registers of a board let the processor read work RAM. -/
def shows : Board → Bool
  | nrom _ => true
  | mmc1 m => !m.prg.toNat.testBit 4
  | mmc3 m => m.ramEnabled
  | uxrom .. | cnrom .. | axrom _ => false

def permits : Board → Bool
  | nrom _ => true
  | mmc1 m => !m.prg.toNat.testBit 4
  | mmc3 m => m.ramEnabled && !m.ramProtected
  | uxrom .. | cnrom .. | axrom _ => false

theorem ramEnabled_eq (m : Mmc1) : m.ramEnabled = !m.prg.toNat.testBit 4 :=
  congrArg (!·) (Byte.has_eq_testBit m.prg 4 (by decide))

theorem ramReadable_eq (b : Board) : b.ramReadable = b.shows := by
  cases b with
  | mmc1 m => exact ramEnabled_eq m
  | nrom | uxrom | cnrom | mmc3 | axrom => rfl

theorem ramWritable_eq (b : Board) : b.ramWritable = b.permits := by
  cases b with
  | mmc1 m => exact ramEnabled_eq m
  | nrom | uxrom | cnrom | mmc3 | axrom => rfl

end Board

section WorkRam
variable {a : UInt16}

def ramPut? (c : Cartridge) (a : UInt16) : Event → Option UInt8
  | .access (.cpuWrite a' v) => if a' = a ∧ c.board.permits then some v else none
  | _ => none

theorem cpuRead_ram (c : Cartridge) (hlow : 0x6000 ≤ a) (hhigh : a < 0x8000) :
    c.cpuRead a = if c.board.shows then some (c.storage.readRam a) else none := by
  rw [cpuRead, if_neg (UInt16.not_lt.mpr hlow), if_pos hhigh, Board.ramReadable_eq]

theorem readRam_cpuWrite (c : Cartridge) (hlow : 0x6000 ≤ a) (hhigh : a < 0x8000) (a' : UInt16)
    (v : UInt8) : (c.cpuWrite a' v).storage.readRam a =
      if a' = a ∧ c.board.permits then v else c.storage.readRam a := by
  have hplace (hlow' : 0x6000 ≤ a') (hhigh' : a' < 0x8000) :
      a'.toNat % 0x2000 = a.toNat % 0x2000 ↔ a' = a := by
    simp only [UInt16.le_iff_toNat_le, UInt16.lt_iff_toNat_lt, UInt16.reduceToNat]
      at hlow hhigh hlow' hhigh'
    rw [← UInt16.toNat_inj]
    omega
  unfold cpuWrite
  by_cases hbelow : a' < 0x6000
  · have hne : a' ≠ a := by
      rintro rfl
      exact UInt16.not_lt.mpr hlow hbelow
    rw [if_pos hbelow, if_neg fun h => hne h.1]
  by_cases habove : a' < 0x8000
  · rw [if_neg hbelow, if_pos habove, Board.ramWritable_eq]
    by_cases hpermits : c.board.permits = true
    · rw [if_pos hpermits]
      simp only [Storage.readRam, Storage.writeRam, Ram.read_write,
        hplace (UInt16.not_lt.mp hbelow) habove, hpermits, and_true]
    · rw [if_neg hpermits, if_neg fun h => hpermits h.2]
  · have hne : a' ≠ a := by
      rintro rfl
      exact habove hhigh
    rw [if_neg hbelow, if_neg habove, if_neg fun h => hne h.1]

theorem prgRam_chrWrite (c : Cartridge) (a : Nat) (v : UInt8) :
    (c.chrWrite a v).storage.prgRam = c.storage.prgRam := by
  unfold chrWrite
  split_ifs
  · obtain ⟨chr, -, hwrite⟩ := writeChr_eq c.storage (c.board.chrOffset c.storage.chr.size a) v
    rw [hwrite]
  · rfl

theorem readRam_afterEvent (c : Cartridge) (hlow : 0x6000 ≤ a) (hhigh : a < 0x8000) (e : Event) :
    (c.afterEvent e).storage.readRam a = (c.ramPut? a e).getD (c.storage.readRam a) := by
  cases e with
  | reset => rfl
  | access x =>
    cases x with
    | cpuWrite a' v =>
      rw [afterEvent, after, readRam_cpuWrite c hlow hhigh, ramPut?]
      split_ifs <;> rfl
    | cpuRead a' => rfl
    | ppuRead a' =>
      rw [afterEvent, after, ppuRead, observe_eq]
      rfl
    | ppuWrite a' v =>
      rw [afterEvent, after, ppuWrite, Storage.readRam, prgRam_chrWrite, observe_eq]
      rfl
    | clock =>
      rw [afterEvent, after, clock_eq]
      rfl

end WorkRam

/-! Character RAM. It is one bank of 8 KiB, which every window of a board shows some part of. -/

section CharacterRam

theorem Board.chrOffset_lt (b : Board) {a : Nat} (ha : a < 0x2000) :
    b.chrOffset 0x2000 a < 0x2000 := by
  cases b with
  | nrom | uxrom | axrom => exact ha
  | mmc1 m =>
    have hhalves : bankCount 0x2000 0x1000 = 2 := by decide
    have hwhole : bankCount 0x2000 0x2000 = 1 := by decide
    unfold chrOffset Mmc1.chrOffset
    dsimp only
    rw [hhalves, hwhole]
    split_ifs <;> omega
  | cnrom wiring latch =>
    have hwhole : bankCount 0x2000 0x2000 = 1 := by decide
    unfold chrOffset
    dsimp only
    rw [hwhole]
    omega
  | mmc3 m =>
    have heighths : bankCount 0x2000 0x400 = 8 := by decide
    unfold chrOffset Mmc3.chrOffset
    dsimp only
    rw [heighths]
    omega

theorem Board.chrOffset_observe (b : Board) (size a a' : Nat) :
    (b.observe a').chrOffset size a = b.chrOffset size a := by
  rw [← chrOffset_withoutLines, withoutLines_observe, chrOffset_withoutLines]

def chrPlace (c : Cartridge) (a : Nat) : Nat := c.board.chrOffset c.storage.chr.size a

def chrPut? (c : Cartridge) (place : Nat) : Event → Option UInt8
  | .access (.ppuWrite a v) => if a < 0x2000 ∧ c.chrPlace a = place then some v else none
  | _ => none

theorem readChr_writeChr {s : Storage} (hram : s.chrWritable = true) (hsize : s.chr.size = 0x2000)
    {i j : Nat} (hi : i < 0x2000) (hj : j < 0x2000) (v : UInt8) :
    (s.writeChr i v).readChr j = if i = j then v else s.readChr j := by
  have hpos : ¬s.chr.size = 0 := by omega
  have hput : ¬(s.chrWritable = false ∨ s.chr.size = 0) := by simp [hram, hpos]
  rw [Storage.writeChr, dif_neg hput]
  simp [Storage.readChr, Array.getElem_set, hsize, Nat.mod_eq_of_lt, hi, hj]

theorem readChr_ppuWrite (c : Cartridge) (hram : c.storage.chrWritable = true)
    (hsize : c.storage.chr.size = 0x2000) {place : Nat} (hplace : place < 0x2000) (a : Nat)
    (v : UInt8) : (c.ppuWrite a v).storage.readChr place =
      if a < 0x2000 ∧ c.chrPlace a = place then v else c.storage.readChr place := by
  rw [ppuWrite, observe_eq, chrWrite]
  by_cases ha : a < 0x2000
  · have hoffset := c.board.chrOffset_lt ha
    rw [if_pos ha]
    simp only [Board.chrOffset_observe, hsize, readChr_writeChr hram hsize hoffset hplace, chrPlace,
      ha, true_and]
  · rw [if_neg ha, if_neg fun h => ha h.1]

theorem chr_cpuWrite (c : Cartridge) (a : UInt16) (v : UInt8) :
    (c.cpuWrite a v).storage.chr = c.storage.chr := by
  unfold cpuWrite
  split_ifs <;> rfl

theorem readChr_afterEvent (c : Cartridge) (hram : c.storage.chrWritable = true)
    (hsize : c.storage.chr.size = 0x2000) {place : Nat} (hplace : place < 0x2000) (e : Event) :
    (c.afterEvent e).storage.readChr place =
      (c.chrPut? place e).getD (c.storage.readChr place) := by
  cases e with
  | reset => rfl
  | access x =>
    cases x with
    | ppuWrite a v =>
      rw [afterEvent, after, readChr_ppuWrite c hram hsize hplace, chrPut?]
      split_ifs <;> rfl
    | cpuWrite a v =>
      simp only [afterEvent, after, Storage.readChr, chr_cpuWrite]
      rfl
    | cpuRead a => rfl
    | ppuRead a =>
      rw [afterEvent, after, ppuRead, observe_eq]
      rfl
    | clock =>
      rw [afterEvent, after, clock_eq]
      rfl

end CharacterRam

/-! A whole history. -/

section History
variable {image : Array UInt8} {c : Cartridge}

theorem readRam_history (h : load image = .ok c) (es : Nat → Event) {a : UInt16}
    (hlow : 0x6000 ≤ a) (hhigh : a < 0x8000) (n : Nat) : (c.history es n).storage.readRam a =
      (latest (fun i => (c.history es i).ramPut? a (es i)) n).getD 0 := by
  induction n with
  | zero =>
    rw [history, (load_iff.mp h).storage_eq]
    exact Ram.read_zeros _
  | succ n ih => rw [history, readRam_afterEvent _ hlow hhigh, ih, getD_latest_succ]

theorem chr_loaded (h : load image = .ok c) (hram : c.storage.chrWritable = true) :
    c.storage.chr = Array.replicate 0x2000 0 := by
  rw [(load_iff.mp h).storage_eq] at hram ⊢
  exact if_pos (beq_iff_eq.mp hram)

theorem readChr_history (h : load image = .ok c) (hram : c.storage.chrWritable = true)
    (es : Nat → Event) {place : Nat} (hplace : place < 0x2000) (n : Nat) :
    (c.history es n).storage.readChr place =
      (latest (fun i => (c.history es i).chrPut? place (es i)) n).getD 0 := by
  have hchr := chr_loaded h hram
  have hsize : c.storage.chr.size = 0x2000 := by rw [hchr, Array.size_replicate]
  induction n with
  | zero =>
    rw [history]
    simp [Storage.readChr, hchr, latest]
  | succ n ih =>
    have hkeeps := keeps_history c es n
    rw [history, readChr_afterEvent _ (hkeeps.chrWritable_eq.trans hram)
      (hkeeps.chr_size_eq.trans hsize) hplace, ih, getD_latest_succ]

/-- Whatever happens to a loaded cartridge, its RAM holds what was written to it last: what a lock,
a bank or a reset hides is there when it shows again. -/
theorem ram_faithful (h : load image = .ok c) (es : Nat → Event) (n : Nat) :
    let d := c.history es n
    (∀ a, 0x6000 ≤ a → a < 0x8000 → d.cpuRead a =
      if d.board.shows then
        some ((latest (fun i => (c.history es i).ramPut? a (es i)) n).getD 0)
      else none) ∧
    (c.storage.chrWritable = true → ∀ a < 0x2000, d.chrPlace a < 0x2000 ∧ (d.ppuRead a).1 =
      some ((latest (fun i => (c.history es i).chrPut? (d.chrPlace a) (es i)) n).getD 0)) := by
  intro d
  constructor
  · intro a hlow hhigh
    rw [cpuRead_ram d hlow hhigh, readRam_history h es hlow hhigh]
  · intro hram a ha
    have hsize : d.storage.chr.size = 0x2000 := by
      rw [(keeps_history c es n).chr_size_eq, chr_loaded h hram, Array.size_replicate]
    have hplace : d.chrPlace a < 0x2000 := by
      rw [chrPlace, hsize]
      exact d.board.chrOffset_lt ha
    refine ⟨hplace, ?_⟩
    rw [ppuRead_fst, chrRead, if_pos ha, ← readChr_history h hram es hplace]
    rfl

end History

/-- A byte is written, and one that comes while writes are shut out. A bank of characters is
reached through one window and is then shown by another. -/
def locked (i : Nat) : Event :=
  let script : List Event :=
    [.access (.cpuWrite 0x6123 5), .access (.ppuWrite 0x1400 7), .access (.cpuWrite 0xA001 0xC0),
      .access (.cpuWrite 0x6123 6), .access (.cpuWrite 0xA001 0), .access (.cpuWrite 0x6123 8),
      .reset, .access (.cpuWrite 0x8000 2), .access (.cpuWrite 0x8001 5)]
  script[i]?.getD (.access .clock)

theorem ram_faithful_locked : load fourBanksImage = .ok fourBanks ∧
    fourBanks.storage.chrWritable = true ∧ (fourBanks.history locked 5).cpuRead 0x6123 = none ∧
    (fourBanks.history locked 9).cpuRead 0x6123 = some 5 ∧
    ((fourBanks.history locked 9).ppuRead 0x1000).1 = some 7 := by
  obtain ⟨hshut, -⟩ := ram_faithful load_fourBanksImage locked 5
  obtain ⟨hwork, hcharacters⟩ := ram_faithful load_fourBanksImage locked 9
  refine ⟨load_fourBanksImage, rfl, ?_, ?_, ?_⟩
  · rw [hshut 0x6123 (by decide) (by decide)]
    decide +kernel
  · rw [hwork 0x6123 (by decide) (by decide)]
    decide +kernel
  · rw [(hcharacters rfl 0x1000 (by decide)).2]
    decide +kernel

end Famicom.Cartridge
