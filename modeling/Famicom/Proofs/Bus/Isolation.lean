import Famicom.Proofs.Bus.DataPort
import Famicom.Proofs.Cartridge.StoredBytes
import Famicom.Proofs.Cpu.Frame

/-! What a write of the processor can change. The decoder of its bus hands every address to one
device, and of all that is stored a write changes one byte at most, in the place that its address
names. Internal RAM answers below the other devices, and only the processor reaches it: whatever the
machine did since its reset, a byte there is the last one written to it. -/
namespace Famicom

theorem Ram.place_of_changed {n : Nat} [Ram.Sized n] {m : Ram n} {a i : Nat} {v : UInt8}
    (h : (m.write a v)[i]? ≠ m[i]?) : i = a % n := by
  by_contra hne
  exact h (Vector.getElem?_set_ne _ (Ne.symm hne))

namespace Bus

/-! Who takes a write. -/

inductive Device where
  | ram | ppu | transfer | pads | apu | nobody | cartridge
deriving DecidableEq

def taker (a : UInt16) : Device :=
  if a < 0x2000 then .ram
  else if a < 0x4000 then .ppu
  else if a = 0x4014 then .transfer
  else if a = 0x4016 then .pads
  else if a < 0x4018 then .apu
  else if a < 0x4020 then .nobody
  else .cartridge

theorem taker_ram {a : UInt16} : taker a = .ram ↔ a < 0x2000 := by
  grind [taker]

theorem taker_ppu {a : UInt16} : taker a = .ppu ↔ 0x2000 ≤ a ∧ a < 0x4000 := by
  grind [taker]

theorem taker_transfer {a : UInt16} : taker a = .transfer ↔ a = 0x4014 := by
  grind [taker]

theorem taker_pads {a : UInt16} : taker a = .pads ↔ a = 0x4016 := by
  grind [taker]

theorem taker_apu {a : UInt16} : taker a = .apu ↔
    0x4000 ≤ a ∧ a ≤ 0x4013 ∨ a = 0x4015 ∨ a = 0x4017 := by
  grind [taker]

theorem taker_cartridge {a : UInt16} : taker a = .cartridge ↔ 0x4020 ≤ a := by
  grind [taker]

theorem writePpu_eq (b : Bus) (r : Nat) (v : UInt8) : b.writePpu r v =
    { b with
      picture := (b.ppu.writeTarget? r).elim b.picture (b.picture.write · v)
      ppu := b.ppu.write r v } := by
  unfold writePpu
  cases b.ppu.writeTarget? r <;> rfl

theorem write_eq (b : Bus) (a : UInt16) (v : UInt8) : b.write a v =
    { ram := if taker a = .ram then Ram.write b.ram a.toNat v else b.ram
      picture :=
        if taker a = .ppu then
          (b.ppu.writeTarget? (a.toNat % 8)).elim b.picture (b.picture.write · v)
        else if taker a = .cartridge then
          { b.picture with cartridge := b.picture.cartridge.map (·.cpuWrite a v) }
        else b.picture
      ppu := if taker a = .ppu then b.ppu.write (a.toNat % 8) v else b.ppu
      apu := if taker a = .apu then b.apu.write a v else b.apu
      pad1 := if taker a = .pads then b.pad1.writeStrobe v else b.pad1
      pad2 := if taker a = .pads then b.pad2.writeStrobe v else b.pad2
      openBus := v
      oamPage := if taker a = .transfer then some v else b.oamPage } := by
  simp only [write, taker, writePpu_eq]
  split_ifs <;> grind

/-! The places. -/

inductive Memory where
  | ram | vram | palette | characters | oam | workRam

def Memory.ofPicture : Memory → Prop
  | vram | palette | characters => True
  | ram | oam | workRam => False

def byte? (b : Bus) (m : Memory) (i : Nat) : Option UInt8 :=
  match m with
  | .ram => b.ram[i]?
  | .vram => b.picture.vram[i]?
  | .palette => b.ppu.palette[i]?
  | .characters => b.cartridge.bind (·.storage.chr[i]?)
  | .oam => b.ppu.oam[i]?
  | .workRam => b.cartridge.bind (·.storage.prgRam[i]?)

/-- The place that the data register points at. -/
def dataPlace? (b : Bus) : Option (Memory × Nat) :=
  let t := b.ppu.target
  if t < 0x2000 then
    b.cartridge.map fun c => (.characters, c.chrPlace t % c.storage.chr.size)
  else if t < 0x3F00 then some (.vram, b.picture.mirroring.vramOffset t)
  else some (.palette, Ppu.Palette.index t)

def place? (b : Bus) (a : UInt16) : Option (Memory × Nat) :=
  match taker a with
  | .ram => some (.ram, a.toNat % 0x800)
  | .ppu =>
    match a.toNat % 8 with
    | 4 => some (.oam, b.ppu.oamAddr.toNat)
    | 7 => b.dataPlace?
    | _ => none
  | .cartridge => some (.workRam, a.toNat % 0x2000)
  | .transfer | .pads | .apu | .nobody => none

end Bus

/-! What one device does with a write. -/

namespace Ppu
variable (p : Ppu) (r : Nat) (v : UInt8)

theorem writeData_eq : p.writeData v = { p with
    v := (p.writeData v).v
    palette := if p.targetsPalette then Palette.write p.palette p.target v else p.palette } := by
  unfold writeData
  split_ifs <;> rw [advanceTarget_eq]

theorem write_memories :
    (p.write r v).oam = (if r = 4 then Ram.write p.oam p.oamAddr.toNat v else p.oam) ∧
    (p.write r v).palette =
      if r = 7 ∧ p.targetsPalette then Palette.write p.palette p.target v else p.palette := by
  match r with
  | 5 =>
    simp only [write, writeScroll]
    cases p.toggle <;> simp
  | 6 =>
    simp only [write, writeAddress]
    cases p.toggle <;> simp
  | 7 =>
    have hwrite : p.write 7 v = { p with latch := v }.writeData v := rfl
    rw [hwrite, writeData_eq]
    refine ⟨rfl, ?_⟩
    simp only [true_and]
    rfl
  | 0 | 1 | 2 | 3 | 4 | _ + 8 => simp [write, writeOam]

end Ppu

namespace Cartridge

theorem chrWrite_observe (c : Cartridge) (a a' : Nat) (v : UInt8) :
    ((c.observe a').chrWrite a v).withoutLines = (c.chrWrite a v).withoutLines := by
  rw [observe_eq, chrWrite, chrWrite]
  split_ifs
  · simp [withoutLines, Board.chrOffset_observe]
  · simp [withoutLines]

theorem place_of_chrWrite {c : Cartridge} {a i : Nat} {v : UInt8}
    (h : (c.chrWrite a v).storage.chr[i]? ≠ c.storage.chr[i]?) :
    a < 0x2000 ∧ i = c.chrPlace a % c.storage.chr.size := by
  unfold chrWrite at h
  split_ifs at h with ha
  · refine ⟨ha, ?_⟩
    simp only [Storage.writeChr] at h
    split_ifs at h
    · exact absurd rfl h
    · by_contra hne
      exact h (Array.getElem?_set_ne (Nat.mod_lt _ (by omega)) (Ne.symm hne))
  · exact absurd rfl h

theorem place_of_cpuWrite {c : Cartridge} {a : UInt16} {v : UInt8} {i : Nat}
    (h : (c.cpuWrite a v).storage.prgRam[i]? ≠ c.storage.prgRam[i]?) : i = a.toNat % 0x2000 := by
  unfold cpuWrite at h
  split_ifs at h
  · exact absurd rfl h
  · exact Ram.place_of_changed h
  · exact absurd rfl h
  · exact absurd rfl h

end Cartridge

namespace PictureBus

/-- The registers of the board, the scanline counter apart. -/
def registers (x : PictureBus) : Option Cartridge.Board := x.cartridge.map (·.board.withoutLines)

theorem write_cartridge (x : PictureBus) (a : Nat) (v : UInt8) :
    (x.write a v).cartridge.map Cartridge.withoutLines =
      x.cartridge.map fun c => (c.chrWrite (a % 0x4000) v).withoutLines := by
  have hobserve (t : Nat) : (x.observe t).cartridge = x.cartridge.map (·.observe t) := by
    obtain ⟨vram, cartridge⟩ := x
    cases cartridge <;> rfl
  have hwritten (t : Nat) : ((x.observe t).cartridge.map (·.chrWrite t v)).map
      Cartridge.withoutLines = x.cartridge.map fun c => (c.chrWrite t v).withoutLines := by
    rw [hobserve, Option.map_map, Option.map_map]
    congr 1
    funext c
    exact c.chrWrite_observe t t v
  rw [← hwritten, write]
  split_ifs with hlow
  · rfl
  all_goals
    have habove (c : Cartridge) : c.chrWrite (a % 0x4000) v = c := if_neg hlow
    simp only [habove, Option.map_id_fun', id]

theorem write_bind (x : PictureBus) (a : Nat) (v : UInt8) {α : Type} {f : Cartridge → Option α}
    (hf : ∀ c : Cartridge, f c.withoutLines = f c) :
    (x.write a v).cartridge.bind f = x.cartridge.bind fun c => f (c.chrWrite (a % 0x4000) v) := by
  have hbind (o : Option Cartridge) : o.bind f = (o.map Cartridge.withoutLines).bind f := by
    cases o with
    | none => rfl
    | some c => exact (hf c).symm
  rw [hbind, write_cartridge, Option.bind_map]
  congr 1
  funext c
  exact hf _

theorem write_registers (x : PictureBus) (a : Nat) (v : UInt8) :
    (x.write a v).registers = x.registers := by
  have hmap := congrArg (Option.map Cartridge.board) (x.write_cartridge a v)
  simpa [registers, Function.comp_def, Cartridge.withoutLines, Cartridge.chrWrite_board] using hmap

end PictureBus

namespace Bus

/-! What the bus does with it. -/

section Write
variable {b : Bus} {a : UInt16} {v : UInt8} {m : Memory} {i : Nat}

theorem picture_changed {α : Type} {f : PictureBus → α}
    (h : f (b.write a v).picture ≠ f b.picture) :
    (taker a = .ppu ∧ a.toNat % 8 = 7 ∧ f (b.picture.write b.ppu.target v) ≠ f b.picture) ∨
    (taker a = .cartridge ∧
      f { b.picture with cartridge := b.picture.cartridge.map (·.cpuWrite a v) } ≠
        f b.picture) := by
  rw [write_eq] at h
  dsimp only at h
  split_ifs at h with hppu hcartridge
  · unfold Ppu.writeTarget? at h
    split_ifs at h with hdata
    · rw [Bool.and_eq_true, decide_eq_true_eq] at hdata
      exact .inl ⟨hppu, hdata.1, h⟩
    · exact absurd rfl h
  · exact .inr ⟨hcartridge, h⟩
  · exact absurd rfl h

theorem place?_data (htaker : taker a = .ppu) (hr : a.toNat % 8 = 7) :
    b.place? a = b.dataPlace? := by
  rw [place?, htaker, hr]
  rfl

theorem ram_place (h : (b.write a v).ram[i]? ≠ b.ram[i]?) : b.place? a = some (.ram, i) := by
  rw [write_eq] at h
  dsimp only at h
  split_ifs at h with htaker
  · rw [Ram.place_of_changed h, place?, htaker]
  · exact absurd rfl h

theorem oam_place (h : (b.write a v).ppu.oam[i]? ≠ b.ppu.oam[i]?) :
    b.place? a = some (.oam, i) := by
  rw [write_eq] at h
  dsimp only at h
  split_ifs at h with htaker
  · rw [(b.ppu.write_memories _ v).1] at h
    split_ifs at h with hr
    · have hplace := Ram.place_of_changed h
      rw [Nat.mod_eq_of_lt b.ppu.oamAddr.toNat_lt] at hplace
      rw [place?, htaker, hr, hplace]
      rfl
    · exact absurd rfl h
  · exact absurd rfl h

theorem palette_place (h : (b.write a v).ppu.palette[i]? ≠ b.ppu.palette[i]?) :
    b.place? a = some (.palette, i) := by
  rw [write_eq] at h
  dsimp only at h
  split_ifs at h with htaker
  · rw [(b.ppu.write_memories _ v).2] at h
    split_ifs at h with hdata
    · have hpalette : 0x3F00 ≤ b.ppu.target := (Ppu.targetsPalette_iff b.ppu).mp hdata.2
      have hlow : ¬b.ppu.target < 0x2000 := by omega
      have hindex : Ppu.Palette.index b.ppu.target < 32 := by
        unfold Ppu.Palette.index
        split_ifs <;> omega
      have hplace := Ram.place_of_changed h
      rw [Nat.mod_eq_of_lt hindex] at hplace
      rw [place?_data htaker hdata.1, dataPlace?, if_neg hlow, if_neg (Nat.not_lt.mpr hpalette),
        hplace]
    · exact absurd rfl h
  · exact absurd rfl h

theorem target_mod (p : Ppu) : p.target % 0x4000 = p.target := Nat.mod_mod _ _

theorem vram_place (h : (b.write a v).picture.vram[i]? ≠ b.picture.vram[i]?) :
    b.place? a = some (.vram, i) := by
  obtain ⟨htaker, hr, hchanged⟩ | ⟨-, hchanged⟩ := picture_changed (f := (·.vram[i]?)) h
  · rw [PictureBus.write_vram, target_mod] at hchanged
    split_ifs at hchanged with hrange
    · have hplace := Ram.place_of_changed hchanged
      rw [Nat.mod_eq_of_lt (Mirroring.vramOffset_lt _ _)] at hplace
      rw [place?_data htaker hr, dataPlace?, if_neg (Nat.not_lt.mpr hrange.1), if_pos hrange.2,
        hplace]
    · exact absurd rfl hchanged
  · exact absurd rfl hchanged

theorem characters_place (h : (b.write a v).cartridge.bind (·.storage.chr[i]?) ≠
    b.cartridge.bind (·.storage.chr[i]?)) : b.place? a = some (.characters, i) := by
  obtain ⟨htaker, hr, hchanged⟩ | ⟨-, hchanged⟩ :=
    picture_changed (f := (·.cartridge.bind (·.storage.chr[i]?))) h
  · rw [PictureBus.write_bind _ _ _ fun _ => rfl, target_mod] at hchanged
    rw [place?_data htaker hr, dataPlace?, cartridge]
    cases hc : b.picture.cartridge with
    | none =>
      rw [hc] at hchanged
      exact absurd rfl hchanged
    | some c =>
      rw [hc] at hchanged
      obtain ⟨hlow, hplace⟩ := Cartridge.place_of_chrWrite hchanged
      rw [if_pos hlow, hplace]
      rfl
  · simp only [Option.bind_map, Function.comp_def, Cartridge.chr_cpuWrite] at hchanged
    exact absurd rfl hchanged

theorem workRam_place (h : (b.write a v).cartridge.bind (·.storage.prgRam[i]?) ≠
    b.cartridge.bind (·.storage.prgRam[i]?)) : b.place? a = some (.workRam, i) := by
  obtain ⟨-, -, hchanged⟩ | ⟨htaker, hchanged⟩ :=
    picture_changed (f := (·.cartridge.bind (·.storage.prgRam[i]?))) h
  · rw [PictureBus.write_bind _ _ _ fun _ => rfl] at hchanged
    simp only [Cartridge.prgRam_chrWrite] at hchanged
    exact absurd rfl hchanged
  · dsimp only at hchanged
    rw [Option.bind_map] at hchanged
    cases hc : b.picture.cartridge with
    | none =>
      rw [hc] at hchanged
      exact absurd rfl hchanged
    | some c =>
      rw [hc] at hchanged
      rw [place?, htaker, Cartridge.place_of_cpuWrite hchanged]

/-- Of everything that is stored a write changes the place that its address names at most. -/
theorem place_of_changed (h : (b.write a v).byte? m i ≠ b.byte? m i) :
    b.place? a = some (m, i) := by
  cases m with
  | ram => exact ram_place h
  | vram => exact vram_place h
  | palette => exact palette_place h
  | characters => exact characters_place h
  | oam => exact oam_place h
  | workRam => exact workRam_place h

/-- What a write has to be for byte `i` of a memory to change. -/
def Reaches (b : Bus) (a : UInt16) (i : Nat) : Memory → Prop
  | .ram => a < 0x2000 ∧ i = a.toNat % 0x800
  | .vram | .palette | .characters => (0x2000 ≤ a ∧ a < 0x4000) ∧ a.toNat % 8 = 7
  | .oam => (0x2000 ≤ a ∧ a < 0x4000) ∧ a.toNat % 8 = 4 ∧ i = b.ppu.oamAddr.toNat
  | .workRam => 0x4020 ≤ a

theorem ofPicture_of_data (h : b.dataPlace? = some (m, i)) : m.ofPicture := by
  unfold dataPlace? at h
  dsimp only at h
  split_ifs at h
  · obtain ⟨c, -, hplace⟩ := Option.map_eq_some_iff.mp h
    cases hplace
    trivial
  · cases h
    trivial
  · cases h
    trivial

theorem reaches_of_place (h : b.place? a = some (m, i)) : b.Reaches a i m := by
  unfold place? at h
  cases htaker : taker a with
  | ram =>
    rw [htaker] at h
    cases h
    exact ⟨taker_ram.mp htaker, rfl⟩
  | ppu =>
    have hrange := taker_ppu.mp htaker
    rw [htaker] at h
    dsimp only at h
    split at h
    · next hr =>
      cases h
      exact ⟨hrange, hr, rfl⟩
    · next hr =>
      have hpicture := ofPicture_of_data h
      cases m with
      | vram | palette | characters => exact ⟨hrange, hr⟩
      | ram | oam | workRam => exact hpicture.elim
    · cases h
  | cartridge =>
    rw [htaker] at h
    cases h
    exact taker_cartridge.mp htaker
  | transfer | pads | apu | nobody =>
    rw [htaker] at h
    cases h

theorem cartridge_of_registers (h : (b.write a v).picture.registers ≠ b.picture.registers) :
    0x4020 ≤ a := by
  obtain ⟨-, -, hchanged⟩ | ⟨htaker, -⟩ := picture_changed h
  · exact absurd (PictureBus.write_registers _ _ _) hchanged
  · exact taker_cartridge.mp htaker

theorem cartridge_of_mirroring (h : (b.write a v).picture.mirroring ≠ b.picture.mirroring) :
    0x4020 ≤ a := by
  obtain ⟨-, -, hchanged⟩ | ⟨htaker, -⟩ := picture_changed h
  · exact absurd (PictureBus.write_mirroring _ _ _) hchanged
  · exact taker_cartridge.mp htaker

end Write

/-- What changes is what a write to the address may change, and of the memories one byte at most. -/
structure Isolated (b b' : Bus) (a : UInt16) : Prop where
  byte {m : Memory} {i : Nat} : b'.byte? m i ≠ b.byte? m i → b.Reaches a i m
  single {m m' : Memory} {i i' : Nat} : b'.byte? m i ≠ b.byte? m i →
    b'.byte? m' i' ≠ b.byte? m' i' → m = m' ∧ i = i'
  pads : b'.pad1 ≠ b.pad1 ∨ b'.pad2 ≠ b.pad2 → a = 0x4016
  apu : b'.apu ≠ b.apu → 0x4000 ≤ a ∧ a ≤ 0x4013 ∨ a = 0x4015 ∨ a = 0x4017
  transfer : b'.oamPage ≠ b.oamPage → a = 0x4014
  registers : b'.picture.registers ≠ b.picture.registers → 0x4020 ≤ a
  mirroring : b'.picture.mirroring ≠ b.picture.mirroring → 0x4020 ≤ a

theorem isolated_write (b : Bus) (a : UInt16) (v : UInt8) : Isolated b (b.write a v) a where
  byte h := reaches_of_place (place_of_changed h)
  single h h' := by
    have hplace := (place_of_changed h).symm.trans (place_of_changed h')
    cases hplace
    exact ⟨rfl, rfl⟩
  pads h := by
    rw [← taker_pads]
    by_contra hne
    simp [write_eq, hne] at h
  apu h := by
    rw [← taker_apu]
    by_contra hne
    simp [write_eq, hne] at h
  transfer h := by
    rw [← taker_transfer]
    by_contra hne
    simp [write_eq, hne] at h
  registers := cartridge_of_registers
  mirroring := cartridge_of_mirroring

/-! A run. -/

/-- What goes on over the bus, and the clocks of what is on it. -/
inductive Operation where
  | read (a : UInt16)
  | write (a : UInt16) (v : UInt8)
  | takePage
  | transfer (page : UInt8)
  | serve
  | clockCartridge
  | clockPpu
  | clockApu
  | sample
  | press (seat : Nat) (mask : UInt8)

def after (b : Bus) : Operation → Bus
  | .read a => (b.read a).2
  | .write a v => b.write a v
  | .takePage => b.takeOamPage.2
  | .transfer page => b.transferOam page
  | .serve => b.serveDmc.2
  | .clockCartridge => b.clockCartridge
  | .clockPpu => b.clockPpu
  | .clockApu => b.clockApu
  | .sample => b.takeSample
  | .press seat mask => b.setButtons seat mask

def history (b : Bus) (es : Nat → Operation) : Nat → Bus
  | 0 => b
  | n + 1 => (b.history es n).after (es n)

/-- What an operation puts in byte `i` of internal RAM. -/
def Operation.ramPut? (i : Nat) : Operation → Option UInt8
  | write a v => if a < 0x2000 ∧ a.toNat % 0x800 = i % 0x800 then some v else none
  | _ => none

theorem ram_read (b : Bus) (a : UInt16) : (b.read a).2.ram = b.ram :=
  (peek_shows_read b a).2.ram_eq

theorem ram_copyOam (b : Bus) (a : UInt16) (n : Nat) : (b.copyOam a n).ram = b.ram := by
  induction n generalizing b a with
  | zero => rfl
  | succ n ih =>
    rw [copyOam, ih]
    exact b.ram_read a

theorem ram_kept (b : Bus) {e : Operation} (h : ∀ a v, e ≠ .write a v) :
    (b.after e).ram = b.ram := by
  cases e with
  | read a => exact b.ram_read a
  | write a v => exact absurd rfl (h a v)
  | transfer page => exact b.ram_copyOam _ _
  | serve => exact b.ram_read _
  | clockPpu =>
    obtain ⟨picture, data, hclock⟩ := b.clockPpu_eq
    rw [after, hclock]
  | press seat mask =>
    match seat with
    | 0 | 1 | _ + 2 => rfl
  | takePage | clockCartridge | clockApu | sample => rfl

theorem ram_after (b : Bus) (e : Operation) (i : Nat) :
    Ram.read (b.after e).ram i = (e.ramPut? i).getD (Ram.read b.ram i) := by
  unfold Operation.ramPut?
  split
  · rw [after, ram_write]
    split_ifs <;> rfl
  · next h => rw [b.ram_kept h, Option.getD_none]

theorem ram_history (b : Bus) (es : Nat → Operation) (n i : Nat) :
    Ram.read (b.reset.history es n).ram i = (latest (fun k => (es k).ramPut? i) n).getD 0 := by
  induction n with
  | zero => exact Ram.read_zeros i
  | succ n ih => rw [history, ram_after, ih, getD_latest_succ]

/-- Each write stays with the device that it is for, so internal RAM holds what was written to it
last, whatever else went on. -/
theorem memories_isolated :
    (∀ (b : Bus) (a : UInt16) (v : UInt8), Isolated b (b.write a v) a) ∧
    ∀ (b : Bus) (es : Nat → Operation) (n : Nat) (a : UInt16), a < 0x2000 →
      ((b.reset.history es n).read a).1 =
        (latest (fun k => (es k).ramPut? a.toNat) n).getD 0 := by
  refine ⟨isolated_write, fun b es n a ha => ?_⟩
  rw [read_fst, peek, if_pos ha, ram_history]

/-- A byte is written through one mirror of internal RAM and then through another. A sprite
transfer and writes to other devices come between and after. -/
def mirrored (k : Nat) : Operation :=
  let script : List Operation :=
    [.write 0x0801 5, .write 0x4014 2, .takePage, .transfer 2, .clockPpu, .write 0x2004 9,
      .write 0x1801 7, .serve, .write 0x8001 3, .clockApu, .read 0x2007]
  script[k]?.getD .clockCartridge

theorem memories_isolated_mirrored :
    Reaches {} 0x1801 1 .ram ∧ (0x1001 : UInt16) < 0x2000 ∧
      ((({} : Bus).reset.history mirrored 20).read 0x1001).1 = 7 := by
  obtain ⟨hwrite, hrun⟩ := memories_isolated
  refine ⟨(hwrite {} 0x1801 7).byte ?_, by decide, ?_⟩
  · decide +kernel
  · rw [hrun {} mirrored 20 0x1001 (by decide)]
    decide +kernel

end Bus
end Famicom
