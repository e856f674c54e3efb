import Famicom.Proofs.Bytes
import Famicom.Proofs.Cartridge.FixedWindows
import Mathlib.Data.List.Basic
import Mathlib.Data.List.Induction
import Mathlib.Tactic.IntervalCases

/-! What the MMC3 board decodes, from the writes to it. One port chooses a bank register and the
other fills the one chosen then, so that a register holds the last value sent while it was chosen.
The windows are functions of these values alone: reads and dots turn the scanline counter and
nothing else. -/
namespace Famicom.Cartridge

namespace RegisterWrite

/-- A write to the port that chooses a bank register and the order of the windows. -/
def chooses (w : RegisterWrite) : Bool := w.address < 0xA000 && w.address.toNat % 2 == 0

/-- A write to the port that fills the chosen register. -/
def fills (w : RegisterWrite) : Bool := w.address < 0xA000 && w.address.toNat % 2 == 1

end RegisterWrite

namespace Mmc3

/-! What the writes leave. -/

def selector (ws : List RegisterWrite) : UInt8 :=
  ((ws.filter RegisterWrite.chooses).getLast?.map RegisterWrite.value).getD 0

/-- What write number `k` puts in register `i`: the one that the writes before it chose. -/
def put? (ws : List RegisterWrite) (i k : Nat) : Option UInt8 :=
  (ws[k]?.filter fun w => w.fills && (selector (ws.take k)).toNat % 8 == i).map
    RegisterWrite.value

def register (ws : List RegisterWrite) (i : Fin 8) : UInt8 :=
  ((List.range ws.length).filterMap (put? ws i)).getLast?.getD firstBanks[i]

/-! What the values select, from their numbers. -/

section Windows
variable (select : UInt8) (r : Fin 8 → UInt8)

/-- The bank of 1 KiB in each of eight windows. The first two registers name pairs. -/
def chrWindow (window : Nat) : Nat :=
  match window with
  | 0 => (r 0).toNat / 2 * 2
  | 1 => (r 0).toNat / 2 * 2 + 1
  | 2 => (r 1).toNat / 2 * 2
  | 3 => (r 1).toNat / 2 * 2 + 1
  | 4 => (r 2).toNat
  | 5 => (r 3).toNat
  | 6 => (r 4).toNat
  | _ => (r 5).toNat

/-- Bit 7 turns line 12 of the address round. -/
def chrLine (a : Nat) : Nat := if select.toNat / 128 % 2 = 1 then a ^^^ 0x1000 else a

end Windows

/-! One more write. -/

section Snoc
variable (ws : List RegisterWrite) (w : RegisterWrite)

theorem selector_snoc :
    selector (ws ++ [w]) = if w.chooses then w.value else selector ws := by
  unfold selector
  rw [List.filter_append]
  by_cases h : w.chooses = true <;> simp [h]

theorem put?_snoc_of_lt (i : Nat) {k : Nat} (hk : k < ws.length) :
    put? (ws ++ [w]) i k = put? ws i k := by
  unfold put?
  rw [List.getElem?_append_left hk, List.take_append_of_le_length hk.le]

theorem put?_snoc (i : Nat) : put? (ws ++ [w]) i ws.length =
    if w.fills = true ∧ (selector ws).toNat % 8 = i then some w.value else none := by
  unfold put?
  rw [List.getElem?_concat_length, List.take_left]
  by_cases hfills : w.fills = true <;> by_cases hi : (selector ws).toNat % 8 = i <;>
    simp [hfills, hi]

theorem register_snoc (i : Fin 8) : register (ws ++ [w]) i =
    if w.fills = true ∧ (selector ws).toNat % 8 = i then w.value else register ws i := by
  have hbefore : (List.range ws.length).filterMap (put? (ws ++ [w]) i) =
      (List.range ws.length).filterMap (put? ws i) := by
    apply List.filterMap_congr
    intro k hk
    exact put?_snoc_of_lt ws w i (List.mem_range.mp hk)
  unfold register
  rw [List.length_append, List.length_singleton, List.range_succ, List.filterMap_append, hbefore,
    List.filterMap_cons, put?_snoc]
  split_ifs <;> simp

end Snoc

/-! The chip. -/

theorem even_iff (a : UInt16) : (a &&& 1 == 0) = true ↔ a.toNat % 2 = 0 := by
  rw [beq_iff_eq, ← UInt16.toNat_inj, UInt16.toNat_and]
  show a.toNat &&& 1 = 0 ↔ _
  rw [Nat.and_one_is_mod]

theorem toNat_low_three (v : UInt8) : (v &&& 7).toNat = v.toNat % 8 := by
  rw [UInt8.toNat_and]
  exact Nat.and_two_pow_sub_one_eq_mod _ 3

theorem write_cases (m : Mmc3) (w : RegisterWrite) :
    w.chooses = true ∧ w.fills = false ∧
      m.write w.address w.value = { m with select := w.value } ∨
    w.chooses = false ∧ w.fills = true ∧
      m.write w.address w.value = { m with
        banks := m.banks.set (m.select.toNat % 8) w.value (Nat.mod_lt _ (by decide)) } ∨
    w.chooses = false ∧ w.fills = false ∧
      (m.write w.address w.value).select = m.select ∧
      (m.write w.address w.value).banks = m.banks := by
  obtain ⟨a, v⟩ := w
  unfold RegisterWrite.chooses RegisterWrite.fills write
  by_cases hlow : a < 0xA000
  · by_cases heven : a.toNat % 2 = 0
    · have hbit : (a &&& 1 == 0) = true := (even_iff a).mpr heven
      left
      rw [if_pos hlow, if_pos hbit]
      simp [hlow, heven]
    · have hbit : ¬(a &&& 1 == 0) = true := mt (even_iff a).mp heven
      have hodd : a.toNat % 2 = 1 := by omega
      right
      left
      rw [if_pos hlow, if_neg hbit]
      simp only [toNat_low_three, Nat.mod_mod]
      simp [hlow, hodd]
  · right
    right
    rw [if_neg hlow]
    simp only [hlow, decide_false, Bool.false_and, true_and]
    split_ifs <;> exact ⟨rfl, rfl⟩

structure Holds (ws : List RegisterWrite) (m : Mmc3) : Prop where
  select_eq : m.select = selector ws
  banks_eq : ∀ i : Fin 8, m.banks[i] = register ws i

namespace Holds
variable {ws : List RegisterWrite} {m : Mmc3}

theorem start (horizontal : Bool) : Holds [] { horizontal } := ⟨rfl, fun _ => rfl⟩

theorem lines (h : Holds ws m) (lines : LineCounter) : Holds ws { m with lines } :=
  ⟨h.select_eq, h.banks_eq⟩

theorem write (h : Holds ws m) (w : RegisterWrite) :
    Holds (ws ++ [w]) (m.write w.address w.value) := by
  obtain ⟨hchooses, hfills, hwrite⟩ | ⟨hchooses, hfills, hwrite⟩ |
    ⟨hchooses, hfills, hselect, hbanks⟩ := write_cases m w
  · constructor
    · simp [hwrite, selector_snoc, hchooses]
    · intro i
      simp [hwrite, register_snoc, hfills, h.banks_eq i]
  · constructor
    · simp [hwrite, selector_snoc, hchooses, h.select_eq]
    · intro i
      have hi := h.banks_eq i
      simp only [hwrite, register_snoc, hfills, true_and, ← h.select_eq]
      simp only [Fin.getElem_fin, Vector.getElem_set] at hi ⊢
      split_ifs with hsame
      · rfl
      · exact hi
  · constructor
    · simp [hselect, selector_snoc, hchooses, h.select_eq]
    · intro i
      simp only [hbanks, register_snoc, hfills, h.banks_eq i]
      simp

end Holds

/-! The windows of the chip. -/

theorem toNat_pair (v : UInt8) : (v &&& 0xFE).toNat = v.toNat / 2 * 2 := by
  have h : ∀ n < 256, (UInt8.ofNat n &&& 0xFE).toNat = n / 2 * 2 := by decide +kernel
  simpa using h v.toNat v.toNat_lt

theorem turns_iff (v : UInt8) : Byte.has v 0x80 = true ↔ v.toNat / 128 % 2 = 1 :=
  Byte.has_two_pow v (k := 7) (by decide)

theorem chrLine_eq (select : UInt8) {a : Nat} (ha : a < 0x2000) :
    (if Byte.has select 0x80 then a + 0x1000 else a) % 0x2000 = chrLine select a := by
  have hdiv : (a ^^^ 0x1000) / 2 ^ 12 = a / 2 ^ 12 ^^^ 1 := Nat.xor_div_two_pow
  have hmod : (a ^^^ 0x1000) % 2 ^ 12 = a % 2 ^ 12 ^^^ 0 := Nat.xor_mod_two_pow
  have hflip : ∀ q < 2, q ^^^ 1 = 1 - q := by decide
  rw [hflip _ (by omega)] at hdiv
  rw [Nat.xor_zero] at hmod
  unfold chrLine
  simp only [turns_iff]
  split_ifs <;> omega

theorem chrLine_low (select : UInt8) {a : Nat} (ha : a < 0x2000) :
    chrLine select a < 0x2000 ∧ chrLine select a % 0x400 = a % 0x400 := by
  rw [← chrLine_eq select ha]
  split_ifs <;> omega

theorem chrWindow_eq (r : Fin 8 → UInt8) {a : Nat} (ha : a < 0x2000) :
    (if a < 0x0800 then (r 0).toNat / 2 * 2 + a / 0x400 % 2
      else if a < 0x1000 then (r 1).toNat / 2 * 2 + a / 0x400 % 2
      else if a < 0x1400 then (r 2).toNat
      else if a < 0x1800 then (r 3).toNat
      else if a < 0x1C00 then (r 4).toNat
      else (r 5).toNat) = chrWindow r (a / 0x400) := by
  have hwindow : a / 0x400 < 8 := by omega
  have h0800 : a < 0x0800 ↔ a / 0x400 < 2 := by omega
  have h1000 : a < 0x1000 ↔ a / 0x400 < 4 := by omega
  have h1400 : a < 0x1400 ↔ a / 0x400 < 5 := by omega
  have h1800 : a < 0x1800 ↔ a / 0x400 < 6 := by omega
  have h1C00 : a < 0x1C00 ↔ a / 0x400 < 7 := by omega
  simp only [h0800, h1000, h1400, h1800, h1C00]
  generalize a / 0x400 = window at hwindow
  interval_cases window <;> rfl

theorem chrOffset_eq (m : Mmc3) (size : Nat) {a : Nat} (ha : a < 0x2000) : m.chrOffset size a =
    chrWindow (m.banks[·]) (chrLine m.select a / 0x400) % bankCount size 0x400 * 0x400 +
      a % 0x400 := by
  obtain ⟨hlt, hlow⟩ := chrLine_low m.select ha
  unfold chrOffset
  simp only [chrLine_eq m.select ha, toNat_pair, ← hlow]
  rw [← chrWindow_eq (m.banks[·]) hlt]
  rfl

end Mmc3

/-! Reads and dots. They are seen by the scanline counter alone. -/

namespace Board

/-- The board with its scanline counter as at power-on. -/
def withoutLines : Board → Board
  | mmc3 m => mmc3 { m with lines := {} }
  | b => b

section WithoutLines
variable (b : Board) (size : Nat)

@[simp] theorem ramReadable_withoutLines : b.withoutLines.ramReadable = b.ramReadable := by
  cases b <;> rfl

@[simp] theorem prgOffset_withoutLines (a : UInt16) :
    b.withoutLines.prgOffset size a = b.prgOffset size a := by
  cases b <;> rfl

@[simp] theorem chrOffset_withoutLines (a : Nat) :
    b.withoutLines.chrOffset size a = b.chrOffset size a := by
  cases b <;> rfl

@[simp] theorem mirroring_withoutLines : b.withoutLines.mirroring = b.mirroring := by
  cases b <;> rfl

@[simp] theorem withoutLines_withoutLines : b.withoutLines.withoutLines = b.withoutLines := by
  cases b <;> rfl

@[simp] theorem withoutLines_observe (a : Nat) : (b.observe a).withoutLines = b.withoutLines := by
  cases b <;> rfl

@[simp] theorem withoutLines_clock : b.clock.withoutLines = b.withoutLines := by
  cases b <;> rfl

end WithoutLines
end Board

def withoutLines (c : Cartridge) : Cartridge := { c with board := c.board.withoutLines }

section WithoutLines
variable (c : Cartridge)

theorem chrRead_withoutLines (a : Nat) : c.withoutLines.chrRead a = c.chrRead a := by
  simp [chrRead, withoutLines]

theorem mirroring_withoutLines : c.withoutLines.mirroring = c.mirroring := by
  simp [mirroring, withoutLines]

theorem withoutLines_observe (a : Nat) : (c.observe a).withoutLines = c.withoutLines := by
  simp [observe_eq, withoutLines]

theorem ppuRead_fst (a : Nat) : (c.ppuRead a).1 = c.chrRead a := by
  rw [ppuRead, ← chrRead_withoutLines, withoutLines_observe, chrRead_withoutLines]

end WithoutLines

/-- Whether an access can change anything but the scanline counter. -/
def Access.writes : Access → Bool
  | cpuWrite .. | ppuWrite .. => true
  | cpuRead _ | ppuRead _ | clock => false

theorem withoutLines_after_read (c : Cartridge) {x : Access} (h : x.writes = false) :
    (c.after x).withoutLines = c.withoutLines := by
  cases x with
  | cpuRead a => rfl
  | ppuRead a => exact withoutLines_observe c a
  | clock => simp [after, clock_eq, withoutLines]
  | cpuWrite a v | ppuWrite a v => cases h

namespace Mmc3

end Mmc3
end Famicom.Cartridge
