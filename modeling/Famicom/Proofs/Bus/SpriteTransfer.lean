import Famicom.Proofs.Bus.Reads
import Famicom.Proofs.Bytes
import Mathlib.Data.List.Induction

/-! A sprite transfer copies a page as it stood. Away from the devices a read leaves only its value
on the bus, and where nothing drives the bus that value is read again; so each of the reads finds
what was there before the first, and sprite memory, filled around from its address on, ends up at
that address again. -/
namespace Famicom

namespace Ppu

def fill (p : Ppu) (bytes : List UInt8) : Ppu := bytes.foldl writeOam p

section Fill
variable (p : Ppu)

theorem fill_snoc (bytes : List UInt8) (v : UInt8) :
    p.fill (bytes ++ [v]) = (p.fill bytes).writeOam v := List.foldl_append

theorem fill_eq (bytes : List UInt8) : p.fill bytes = { p with
    oam := (p.fill bytes).oam
    oamAddr := p.oamAddr + UInt8.ofNat bytes.length } := by
  induction bytes using List.reverseRecOn with
  | nil =>
    simp [fill]
  | append_singleton bytes v ih =>
    rw [fill_snoc, ih]
    simp [writeOam, UInt8.add_assoc]

/-- Up to a whole turn, each byte is found as far behind the first as it came. -/
theorem read_fill {bytes : List UInt8} (h : bytes.length ≤ 256) (i : Nat) :
    Ram.read (p.fill bytes).oam i =
      (bytes[(i + 256 - p.oamAddr.toNat) % 256]?).getD (Ram.read p.oam i) := by
  induction bytes using List.reverseRecOn with
  | nil => rfl
  | append_singleton bytes v ih =>
    rw [List.length_append, List.length_singleton] at h
    have hstart := p.oamAddr.toNat_lt
    have hplace : (p.fill bytes).oamAddr.toNat = (p.oamAddr.toNat + bytes.length) % 256 := by
      rw [fill_eq, UInt8.toNat_add, UInt8.toNat_ofNat']
      omega
    rw [fill_snoc, writeOam, Ram.read_write, hplace, ih (by omega)]
    split_ifs with hhere
    · have hlast : (i + 256 - p.oamAddr.toNat) % 256 = bytes.length := by omega
      rw [hlast, List.getElem?_concat_length, Option.getD_some]
    · obtain hless | hmore :=
        Nat.lt_or_ge ((i + 256 - p.oamAddr.toNat) % 256) bytes.length
      · rw [List.getElem?_append_left hless]
      · rw [List.getElem?_eq_none hmore, List.getElem?_eq_none]
        rw [List.length_append, List.length_singleton]
        omega

end Fill
end Ppu

theorem Byte.toNat_onPage (page : UInt8) {i : Nat} (h : i < 256) :
    (word 0 page + i.toUInt16).toNat = page.toNat * 256 + i := by
  have hpage := page.toNat_lt
  have hplace : i.toUInt16.toNat = i := UInt16.toNat_ofNat_of_lt' (Nat.lt_trans h (by decide))
  rw [UInt16.toNat_add, toNat_word, hplace, UInt8.toNat_zero]
  omega

theorem Byte.high_onPage (page : UInt8) {i : Nat} (h : i < 256) :
    high (word 0 page + i.toUInt16) = page := by
  rw [← UInt8.toNat_inj, toNat_high, toNat_onPage page h]
  omega

namespace Bus

def shown (b : Bus) (a : UInt16) (n : Nat) : List UInt8 :=
  (List.range n).map fun i => b.peek (a + i.toUInt16)

theorem shown_succ (b : Bus) (a : UInt16) (n : Nat) :
    b.shown a (n + 1) = b.shown a n ++ [b.peek (a + n.toUInt16)] := by
  rw [shown, List.range_succ, List.map_append]
  rfl

theorem shown_subset (b : Bus) (a : UInt16) {m n : Nat} (h : m ≤ n) :
    b.shown a m ⊆ b.shown a n :=
  List.map_subset _ (List.range_subset.mpr h)

/-- Addresses that can be read without a trace: no device is there, and none of their bytes, when
it is left on the bus, changes what is shown. -/
structure Steady (b : Bus) (a : UInt16) (n : Nat) : Prop where
  quiet : ∀ i < n, Quiet (a + i.toUInt16)
  peek_eq : ∀ i < n, ∀ v ∈ b.shown a n,
    { b with openBus := v }.peek (a + i.toUInt16) = b.peek (a + i.toUInt16)

theorem peek_quiet {a : UInt16} (h : Quiet a) (b : Bus) (p : Ppu) :
    { b with ppu := p }.peek a = b.peek a := by
  obtain hram | hcartridge := h
  · rw [peek, if_pos hram, peek, if_pos hram]
  · rw [peek_cartridge _ hcartridge, peek_cartridge _ hcartridge]
    rfl

theorem copyOam_succ (b : Bus) (a : UInt16) (n : Nat) : b.copyOam a (n + 1) =
    let (v, b') := (b.copyOam a n).read (a + n.toUInt16)
    { b' with ppu := b'.ppu.writeOam v } := by
  induction n generalizing b a with
  | zero => simp [copyOam]
  | succ n ih =>
    rw [← next_address]
    exact ih _ (a + 1)

/-- Every read of the transfer finds what was there before the first. -/
theorem copyOam_eq {b : Bus} {a : UInt16} {m n : Nat} (h : Steady b a m) (hn : n ≤ m) :
    b.copyOam a n = { b with
      ppu := b.ppu.fill (b.shown a n)
      openBus := (b.shown a n).getLast?.getD b.openBus } := by
  induction n with
  | zero => rfl
  | succ n ih =>
    have hle := Nat.le_of_lt hn
    have hquiet := h.quiet n hn
    rw [copyOam_succ, ih hle]
    -- What the last read left on the bus is one of the bytes, or was there from the start.
    generalize hlast : (b.shown a n).getLast?.getD b.openBus = v
    have hbus : { b with openBus := v }.peek (a + n.toUInt16) = b.peek (a + n.toUInt16) := by
      rw [← hlast]
      cases hbyte : (b.shown a n).getLast? with
      | none => rfl
      | some w => exact h.peek_eq n hn w (b.shown_subset a hle (List.mem_of_getLast? hbyte))
    have hpeek : { b with ppu := b.ppu.fill (b.shown a n), openBus := v }.peek (a + n.toUInt16) =
        b.peek (a + n.toUInt16) :=
      (peek_quiet hquiet { b with openBus := v } (b.ppu.fill (b.shown a n))).trans hbus
    rw [read_quiet hquiet, hpeek, shown_succ, Ppu.fill_snoc, List.getLast?_concat, Option.getD_some]

/-! Whole pages. -/

/-- A page is driven as a whole or not at all. -/
theorem driven_congr (b : Bus) {a a' : UInt16} (h : Byte.high a = Byte.high a') :
    b.Driven a ↔ b.Driven a' := by
  have hbelow (page : UInt8) : a < Byte.word 0 page ↔ a' < Byte.word 0 page := by
    rw [Byte.lt_page, Byte.lt_page, h]
  have h2 : a < 0x2000 ↔ a' < 0x2000 := hbelow 0x20
  have h6 : a < 0x6000 ↔ a' < 0x6000 := hbelow 0x60
  have h8 : a < 0x8000 ↔ a' < 0x8000 := hbelow 0x80
  have hread (c : Cartridge) : (c.cpuRead a).isSome = (c.cpuRead a').isSome := by
    simp only [Cartridge.cpuRead, h6, h8]
    split_ifs <;> rfl
  have hcartridge : (b.cartridge.bind (·.cpuRead a)).isSome =
      (b.cartridge.bind (·.cpuRead a')).isSome := by
    cases b.cartridge with
    | none => rfl
    | some c => exact hread c
  rw [Driven, Driven, h2, hcartridge]

theorem peek_undriven {b : Bus} {a : UInt16} (hquiet : Quiet a) (h : ¬b.Driven a) :
    b.peek a = b.openBus := by
  obtain ⟨hram, hnone⟩ := not_or.mp h
  have hcartridge := hquiet.resolve_left hram
  rw [Option.not_isSome_iff_eq_none] at hnone
  rw [peek_cartridge _ hcartridge, hnone, Option.getD_none]

theorem steady_page (b : Bus) {page : UInt8} (h : ¬(0x20 ≤ page ∧ page ≤ 0x40)) :
    Steady b (Byte.word 0 page) 256 := by
  have hquiet (i : Nat) (hi : i < 256) : Quiet (Byte.word 0 page + i.toUInt16) := by
    have ha := Byte.toNat_onPage page hi
    simp only [UInt8.le_iff_toNat_le, UInt8.reduceToNat] at h
    simp only [Quiet, UInt16.lt_iff_toNat_lt, UInt16.le_iff_toNat_le, ha, UInt16.reduceToNat]
    omega
  have hdriven (i : Nat) (hi : i < 256) :
      b.Driven (Byte.word 0 page + i.toUInt16) ↔ b.Driven (Byte.word 0 page) := by
    apply b.driven_congr
    rw [Byte.high_onPage page hi, Byte.high_word]
  refine ⟨hquiet, ?_⟩
  intro i hi v hv
  by_cases hpage : b.Driven (Byte.word 0 page)
  · exact peek_driven ((hdriven i hi).mpr hpage) v
  · -- Nothing but the last value on the bus is ever read.
    obtain ⟨j, hj, rfl⟩ := List.mem_map.mp hv
    rw [List.mem_range] at hj
    rw [peek_undriven (hquiet j hj) ((hdriven j hj).not.mpr hpage)]

/-- A transfer puts the bytes of a page, as they were before it, at the sprite address on and once
around. The address is the same again, and nothing else changes but the last value on the bus. -/
theorem transferOam_copies (b : Bus) {page : UInt8} (h : ¬(0x20 ≤ page ∧ page ≤ 0x40)) :
    (∀ i < 256, Ram.read (b.transferOam page).ppu.oam (b.ppu.oamAddr.toNat + i) =
        b.peek (UInt16.ofNat (256 * page.toNat + i))) ∧
      (b.transferOam page).ppu.oamAddr = b.ppu.oamAddr ∧
      b.transferOam page = { b with
        ppu.oam := (b.transferOam page).ppu.oam
        openBus := (b.transferOam page).openBus } := by
  have hcopy := copyOam_eq (b.steady_page h) (Nat.le_refl 256)
  have hlength : (b.shown (Byte.word 0 page) 256).length = 256 := by
    rw [shown, List.length_map, List.length_range]
  have hfill := b.ppu.fill_eq (b.shown (Byte.word 0 page) 256)
  have haround : b.ppu.oamAddr + UInt8.ofNat 256 = b.ppu.oamAddr := UInt8.add_zero _
  rw [hlength, haround] at hfill
  have htransfer : b.transferOam page = { b with
      ppu := b.ppu.fill (b.shown (Byte.word 0 page) 256)
      openBus := (b.shown (Byte.word 0 page) 256).getLast?.getD b.openBus } := hcopy
  refine ⟨?_, ?_, ?_⟩
  · intro i hi
    have hplace : (b.ppu.oamAddr.toNat + i + 256 - b.ppu.oamAddr.toNat) % 256 = i := by omega
    have haddress : Byte.word 0 page + i.toUInt16 = UInt16.ofNat (256 * page.toNat + i) := by
      rw [← UInt16.toNat_inj, Byte.toNat_onPage page hi, Nat.mul_comm]
      have := page.toNat_lt
      exact (UInt16.toNat_ofNat_of_lt' (show _ < 65536 by omega)).symm
    rw [htransfer, Ppu.read_fill _ (Nat.le_of_eq hlength), hplace, shown, List.getElem?_map,
      List.getElem?_range hi, Option.map_some, Option.getD_some, haddress]
  · rw [htransfer, hfill]
  · rw [htransfer, hfill]

/-- From a mirror of internal RAM around the end of sprite memory: of the page at `$0200`, byte
`$20`. -/
theorem transferOam_copies_around :
    let b : Bus := { ram := Ram.write (Ram.zeros _) 0x220 7, ppu := { oamAddr := 0xF0 } }
    ¬((0x20 : UInt8) ≤ 0x0A ∧ (0x0A : UInt8) ≤ 0x40) ∧
      Ram.read (b.transferOam 0x0A).ppu.oam 0x10 = 7 ∧
      (b.transferOam 0x0A).ppu.oamAddr = 0xF0 := by
  intro b
  have hpage : ¬((0x20 : UInt8) ≤ 0x0A ∧ (0x0A : UInt8) ≤ 0x40) := by decide
  obtain ⟨hbytes, haddress, -⟩ := transferOam_copies b hpage
  have hpeek : b.peek 0x0A20 = 7 := by
    rw [peek, if_pos (by decide), Ram.read_write]
    rfl
  have haround (m : Ram 256) : Ram.read m (0xF0 + 0x20) = Ram.read m 0x10 := rfl
  have hbyte := hbytes 0x20 (by decide)
  exact ⟨hpage, (haround _).symm.trans (hbyte.trans hpeek), haddress⟩

end Bus

end Famicom
