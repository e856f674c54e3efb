import Famicom.Proofs.Bus
import Famicom.Proofs.Cartridge.BankRegisters

/-! What a read of the processor's bus leaves behind. A device may be acknowledged by it, shifted or
moved on, and the scanline counter of a cartridge may see it; whatever is stored stays. In internal
RAM, and where the cartridge drives the bus, it leaves nothing but its value on the bus. -/
namespace Famicom

namespace Ppu

theorem oam_read (p : Ppu) (r : Nat) (data : UInt8) : (p.read r data).2.oam = p.oam := by
  rw [read_eq]

theorem palette_read (p : Ppu) (r : Nat) (data : UInt8) :
    (p.read r data).2.palette = p.palette := by
  rw [read_eq]

end Ppu

namespace PictureBus

structure Keeps (b b' : PictureBus) : Prop where
  vram_eq : b'.vram = b.vram
  cartridge_eq :
    b'.cartridge.map Cartridge.withoutLines = b.cartridge.map Cartridge.withoutLines

namespace Keeps
variable {b b' : PictureBus}

theorem refl (b : PictureBus) : Keeps b b := ⟨rfl, rfl⟩

theorem map_eq (h : Keeps b b') {α : Type} {f : Cartridge → α}
    (hf : ∀ c : Cartridge, f c.withoutLines = f c) :
    b'.cartridge.map f = b.cartridge.map f := by
  have hcomp : f ∘ Cartridge.withoutLines = f := funext hf
  have hmap := congrArg (Option.map f) h.cartridge_eq
  simpa only [Option.map_map, hcomp] using hmap

theorem mirroring_eq (h : Keeps b b') : b'.mirroring = b.mirroring := by
  have hmap := h.map_eq Cartridge.mirroring_withoutLines
  unfold mirroring
  cases hb : b.cartridge <;> cases hb' : b'.cartridge <;> simp_all

theorem observe (b : PictureBus) (a : Nat) : Keeps b (b.observe a) := by
  obtain ⟨vram, cartridge⟩ := b
  cases cartridge with
  | none => exact .refl _
  | some c =>
    constructor
    · rfl
    · simp [PictureBus.observe, Cartridge.withoutLines_observe]

end Keeps
end PictureBus

namespace Bus

/-- The memories are as they were, and so are the registers of the board that select banks, and the
arrangement of the nametables. -/
structure Keeps (b b' : Bus) : Prop where
  ram_eq : b'.ram = b.ram
  vram_eq : b'.picture.vram = b.picture.vram
  oam_eq : b'.ppu.oam = b.ppu.oam
  palette_eq : b'.ppu.palette = b.ppu.palette
  storage_eq : b'.cartridge.map (·.storage) = b.cartridge.map (·.storage)
  board_eq : b'.cartridge.map (·.board.withoutLines) = b.cartridge.map (·.board.withoutLines)
  mirroring_eq : b'.picture.mirroring = b.picture.mirroring

namespace Keeps
variable {b b' : Bus}

theorem of_picture (hram : b'.ram = b.ram) (hpicture : b.picture.Keeps b'.picture)
    (hoam : b'.ppu.oam = b.ppu.oam) (hpalette : b'.ppu.palette = b.ppu.palette) :
    Keeps b b' where
  ram_eq := hram
  vram_eq := hpicture.vram_eq
  oam_eq := hoam
  palette_eq := hpalette
  storage_eq := hpicture.map_eq fun _ => rfl
  board_eq := hpicture.map_eq fun c => c.board.withoutLines_withoutLines
  mirroring_eq := hpicture.mirroring_eq

theorem refl (b : Bus) : Keeps b b := .of_picture rfl (.refl _) rfl rfl

theorem readPpu (b : Bus) (r : Nat) : Keeps b (b.readPpu r).2 := by
  unfold Bus.readPpu
  cases b.ppu.readFetch? r with
  | none => exact .of_picture rfl (.refl _) (b.ppu.oam_read r 0) (b.ppu.palette_read r 0)
  | some a => exact .of_picture rfl (.observe _ _) (b.ppu.oam_read r _) (b.ppu.palette_read r _)

theorem readDevice (b : Bus) (a : UInt16) : Keeps b (b.readDevice a).2 := by
  unfold Bus.readDevice
  split_ifs
  · exact .refl b
  · exact .readPpu b _
  · exact .of_picture rfl (.refl _) rfl rfl
  · exact .of_picture rfl (.refl _) rfl rfl
  · exact .of_picture rfl (.refl _) rfl rfl
  · exact .refl b
  · cases b.picture.cartridge <;> exact .refl b

end Keeps

/-- A peek shows what a read returns, and a read changes nothing that is stored, whatever the
address. -/
theorem peek_shows_read (b : Bus) (a : UInt16) :
    b.peek a = (b.read a).1 ∧ Keeps b (b.read a).2 := by
  refine ⟨(b.read_fst a).symm, ?_⟩
  have h := Keeps.readDevice b a
  exact ⟨h.ram_eq, h.vram_eq, h.oam_eq, h.palette_eq, h.storage_eq, h.board_eq, h.mirroring_eq⟩

/-! Places that do not notice a read. -/

/-- An address at which there is no device but internal RAM or the cartridge. -/
def Quiet (a : UInt16) : Prop := a < 0x2000 ∨ 0x4020 ≤ a

theorem read_quiet {a : UInt16} (h : Quiet a) (b : Bus) :
    b.read a = (b.peek a, { b with openBus := b.peek a }) := by
  apply Prod.ext
  · exact b.read_fst a
  · rw [← b.read_fst a]
    obtain hram | hcartridge := h
    · rw [read, readDevice, if_pos hram]
    · exact b.read_cartridge hcartridge

/-- An address in internal RAM, or one at which the cartridge drives the bus. -/
def Driven (b : Bus) (a : UInt16) : Prop :=
  a < 0x2000 ∨ (b.cartridge.bind (·.cpuRead a)).isSome

section Driven
variable {b : Bus} {a : UInt16}

theorem le_of_cpuRead (h : (b.cartridge.bind (·.cpuRead a)).isSome) : 0x4020 ≤ a := by
  obtain ⟨v, hv⟩ := Option.isSome_iff_exists.mp h
  obtain ⟨c, -, hc⟩ := Option.bind_eq_some_iff.mp hv
  have hlow : ¬a < 0x6000 := by
    intro hlt
    rw [Cartridge.cpuRead, if_pos hlt] at hc
    cases hc
  exact UInt16.le_trans (by decide) (UInt16.not_lt.mp hlow)

theorem read_driven (h : b.Driven a) : b.read a = (b.peek a, { b with openBus := b.peek a }) :=
  read_quiet (h.imp_right le_of_cpuRead) b

theorem peek_driven (h : b.Driven a) (v : UInt8) : { b with openBus := v }.peek a = b.peek a := by
  obtain hram | hdriven := h
  · rw [peek, peek, if_pos hram, if_pos hram]
  · have ha := le_of_cpuRead hdriven
    obtain ⟨w, hw⟩ := Option.isSome_iff_exists.mp hdriven
    have hw' : ({ b with openBus := v }.cartridge.bind (·.cpuRead a)) = some w := hw
    rw [peek_cartridge _ ha, peek_cartridge _ ha, hw, hw', Option.getD_some, Option.getD_some]

end Driven

/-! Bytes one after another. -/

def fetch (b : Bus) (a : UInt16) : (n : Nat) → List UInt8 × Bus
  | 0 => ([], b)
  | n + 1 =>
    let (v, b) := b.read a
    let (vs, b) := fetch b (a + 1) n
    (v :: vs, b)

theorem next_address (a : UInt16) (i : Nat) : a + 1 + i.toUInt16 = a + (i + 1).toUInt16 := by
  simp [UInt16.add_assoc, UInt16.add_comm]

theorem length_fetch (b : Bus) (a : UInt16) (n : Nat) : (b.fetch a n).1.length = n := by
  induction n generalizing b a with
  | zero => rfl
  | succ n ih => simp [fetch, ih]

/-- Where its addresses are driven, a fetch gets the bytes that peeks show, and leaves only the last
one on the bus. -/
theorem fetch_driven {b : Bus} {a : UInt16} {n : Nat}
    (h : ∀ i < n, b.Driven (a + i.toUInt16)) :
    (b.fetch a n).1 = (List.range n).map (fun i => b.peek (a + i.toUInt16)) ∧
      ∃ v, (b.fetch a n).2 = { b with openBus := v } := by
  induction n generalizing b a with
  | zero => exact ⟨rfl, b.openBus, rfl⟩
  | succ n ih =>
    have hfirst : b.Driven a := by simpa using h 0 (Nat.zero_lt_succ n)
    have hrest (i : Nat) (hi : i < n) :
        { b with openBus := b.peek a }.Driven (a + 1 + i.toUInt16) := by
      rw [next_address]
      exact h (i + 1) (Nat.succ_lt_succ hi)
    obtain ⟨hbytes, v, hbus⟩ := ih hrest
    rw [fetch, read_driven hfirst]
    refine ⟨?_, v, hbus⟩
    simp only [hbytes, List.range_succ_eq_map, List.map_cons, List.map_map]
    congr 1
    · simp
    · apply List.map_congr_left
      intro i hi
      have hlt := Nat.succ_lt_succ (List.mem_range.mp hi)
      rw [next_address]
      exact peek_driven (h (i + 1) hlt) (b.peek a)

end Bus
end Famicom
