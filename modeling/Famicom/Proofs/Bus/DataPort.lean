import Famicom.Proofs.Bus.Dots
import Famicom.Proofs.Bus.Reads
import Famicom.Proofs.Bytes
import Famicom.Proofs.Latest
import Mathlib.Algebra.BigOperators.Intervals

/-! The data port as a memory. With rendering off a program reaches the picture memory through one
register, after it has written an address to another: what it reads there is what it wrote there,
whatever it did in between. -/
namespace Famicom

inductive PortAccess where
  | readControl
  | control (v : UInt8)
  /-- The two halves of an address, the high one first, with some dots between them. -/
  | address (hi lo : UInt8) (wait : Nat)
  | read
  | write (v : UInt8)
  | dot
  | board (a : UInt16) (above : 0x4020 ≤ a) (v : UInt8)

namespace Bus

def afterPort (b : Bus) : PortAccess → Bus
  | .readControl => (b.read 0x2000).2
  | .control v => b.write 0x2000 v
  | .address hi lo wait => ((b.write 0x2006 hi).dots wait).write 0x2006 lo
  | .read => (b.read 0x2007).2
  | .write v => b.write 0x2007 v
  | .dot => b.dot
  | .board a _ v => b.write a v

def portHistory (b : Bus) (es : Nat → PortAccess) : Nat → Bus
  | 0 => b
  | n + 1 => (b.portHistory es n).afterPort (es n)

end Bus

/-! What the accesses say. -/

namespace PortAccess

def pointed (hi lo : UInt8) : Nat := hi.toNat % 64 * 256 + lo.toNat

def pointed? : PortAccess → Option Nat
  | address hi lo _ => some (pointed hi lo)
  | _ => none

def control? : PortAccess → Option UInt8
  | control v => some v
  | _ => none

def moves : PortAccess → Bool
  | read | write _ => true
  | _ => false

section Spec
variable (es : Nat → PortAccess)

/-- How far the address moves on, by what was written to the control register last. -/
def step (n : Nat) : Nat :=
  if ((latest (fun i => (es i).control?) n).getD 0).toNat.testBit 2 then 32 else 1

def moved (n : Nat) : Nat := if (es n).moves then step es n else 0

/-- The address that access `n` finds, before it is cut to fourteen bits. -/
def reached : (n : Nat) → Nat
  | 0 => 0
  | n + 1 => (es n).pointed?.getD (reached n + moved es n)

def target (n : Nat) : Nat := reached es n % 0x4000

def put? (kind : Nat → Bool) (n : Nat) : Option UInt8 :=
  match es n with
  | write v => if kind (target es n) then some v else none
  | _ => none

/-- A nametable address that is folded to the same place. -/
def foldsTo (m : Mirroring) (a t : Nat) : Bool :=
  0x2000 ≤ t && t < 0x3F00 && m.vramOffset t == m.vramOffset a

/-- The entry of palette memory, in which four addresses stand for others. -/
def entry (a : Nat) : Nat :=
  match a % 32 with
  | 0x10 => 0x00
  | 0x14 => 0x04
  | 0x18 => 0x08
  | 0x1C => 0x0C
  | i => i

def sameEntry (a t : Nat) : Bool := 0x3F00 ≤ t && entry t == entry a

theorem foldsTo_iff (m : Mirroring) (a t : Nat) : foldsTo m a t = true ↔
    (0x2000 ≤ t ∧ t < 0x3F00) ∧ m.vramOffset t = m.vramOffset a := by
  simp [foldsTo]

theorem sameEntry_iff (a t : Nat) : sameEntry a t = true ↔ 0x3F00 ≤ t ∧ entry t = entry a := by
  simp [sameEntry]

/-- The last byte written to a place of the nametables. -/
def nametableByte (m : Mirroring) (n a : Nat) : UInt8 :=
  (latest (put? es (foldsTo m a)) n).getD 0

/-- The last byte written to an entry of the palette, of which six bits are kept. -/
def paletteByte (n a : Nat) : UInt8 := (latest (put? es (sameEntry a)) n).getD 0 &&& 0x3F

theorem reached_none {j n : Nat} (hn : j ≤ n)
    (h : ∀ i, j ≤ i → i < n → (es i).pointed? = none) :
    reached es n = reached es j + ∑ i ∈ Finset.Ico j n, moved es i := by
  induction n, hn using Nat.le_induction with
  | base => rw [Finset.Ico_self, Finset.sum_empty, Nat.add_zero]
  | succ n hn ih =>
    rw [reached, h n hn (Nat.lt_succ_self n), Option.getD_none,
      ih fun i hj hi => h i hj (Nat.lt_succ_of_lt hi), Finset.sum_Ico_succ_top hn, Nat.add_assoc]

end Spec
end PortAccess

/-! What the port depends on. -/

/-- The part of the machine that the port reaches. -/
structure Port where
  ctrl : UInt8
  mask : UInt8
  toggle : Bool
  v : Ppu.Scroll
  t : Ppu.Scroll
  buffer : UInt8
  palette : Ram 32
  vram : Ram 0x1000
  mirroring : Mirroring

namespace Port

def of (p : Ppu) (x : PictureBus) : Port where
  ctrl := p.ctrl
  mask := p.mask
  toggle := p.toggle
  v := p.v
  t := p.t
  buffer := p.buffer
  palette := p.palette
  vram := x.vram
  mirroring := x.mirroring

def address (p : Port) : Nat := p.v.raw % 0x4000

def next (p : Port) : Ppu.Scroll := p.v.advance (if p.ctrl.toNat.testBit 2 then 32 else 1)

def fetched (p : Port) : Nat := if 0x3F00 ≤ p.address then p.address - 0x1000 else p.address

end Port

/-! The picture bus. -/

namespace PictureBus
variable (x : PictureBus) (a : Nat) (v : UInt8)

theorem read_keeps : x.Keeps (x.read a).2 := .observe _ _

theorem read_nametable (hlow : 0x2000 ≤ a) (hhigh : a < 0x3F00) :
    (x.read a).1 = Ram.read x.vram (x.mirroring.vramOffset a) := by
  have hmod : a % 0x4000 = a := Nat.mod_eq_of_lt (by omega)
  have hkeeps := Keeps.observe x a
  rw [read, hmod, peek, hmod, if_neg (by omega), if_pos hhigh, hkeeps.vram_eq, hkeeps.mirroring_eq]

theorem chrWrite_mirroring (c : Cartridge) : (c.chrWrite a v).mirroring = c.mirroring := by
  rw [Cartridge.mirroring, Cartridge.mirroring, Cartridge.chrWrite_board,
    (Cartridge.Keeps.chrWrite c a v).header_eq]

theorem write_mirroring : (x.write a v).mirroring = x.mirroring := by
  have hkeeps := Keeps.observe x (a % 0x4000)
  rw [← hkeeps.mirroring_eq, write]
  split_ifs
  · unfold mirroring
    cases (x.observe (a % 0x4000)).cartridge with
    | none => rfl
    | some c => exact chrWrite_mirroring _ v c
  · rfl
  · rfl

theorem write_vram : (x.write a v).vram =
    if 0x2000 ≤ a % 0x4000 ∧ a % 0x4000 < 0x3F00 then
      Ram.write x.vram (x.mirroring.vramOffset (a % 0x4000)) v
    else x.vram := by
  have hkeeps := Keeps.observe x (a % 0x4000)
  rw [← hkeeps.mirroring_eq, ← hkeeps.vram_eq, write]
  by_cases hlow : a % 0x4000 < 0x2000
  · rw [if_pos hlow, if_neg fun h => Nat.not_lt.mpr h.1 hlow]
  · by_cases hhigh : a % 0x4000 < 0x3F00
    · rw [if_neg hlow, if_pos hhigh, if_pos ⟨Nat.not_lt.mp hlow, hhigh⟩]
    · rw [if_neg hlow, if_neg hhigh, if_neg fun h => hhigh h.2]

end PictureBus

/-! The registers. -/

namespace Ppu

theorem rendering_idle {p : Ppu} (h : p.mask = 0) : p.rendering = false := by
  rw [rendering, h]
  rfl

theorem advanceTarget_idle {p : Ppu} (h : p.mask = 0) : p.advanceTarget =
    { p with v := p.v.advance (if p.ctrl.toNat.testBit 2 then 32 else 1) } := by
  have hstep : Byte.has p.ctrl 0x04 = p.ctrl.toNat.testBit 2 :=
    Byte.has_eq_testBit p.ctrl 2 (by decide)
  rw [advanceTarget, rendering_idle h, Bool.false_and, if_neg Bool.false_ne_true, hstep]

theorem targetsPalette_iff (p : Ppu) : p.targetsPalette = true ↔ 0x3F00 ≤ p.v.raw % 0x4000 := by
  rw [targetsPalette, decide_eq_true_eq]
  rfl

end Ppu

namespace Bus

def port (b : Bus) : Port := .of b.ppu b.picture

section Accesses
variable (b : Bus)

theorem port_dot (hmask : b.port.mask = 0) : b.dot.port = b.port := by
  have hrendering : b.ppu.rendering = false := Ppu.rendering_idle hmask
  have hfetch : b.clockCartridge.ppu.fetch? = none := by
    change b.ppu.fetch? = none
    rw [Ppu.fetch?, hrendering]
    rfl
  have hkeeps : b.picture.Keeps b.clockCartridge.picture := by
    refine ⟨rfl, ?_⟩
    simp only [clockCartridge, Option.map_map]
    congr 1
    funext c
    exact Cartridge.withoutLines_after_read c (x := .clock) rfl
  have hppu : Port.of (b.ppu.clock 0) b.clockCartridge.picture =
      Port.of b.ppu b.clockCartridge.picture := by
    rw [Ppu.clock_eq, Ppu.compose_eq, Ppu.fetches, hrendering]
    rfl
  have hdot : b.dot.port = Port.of (b.ppu.clock 0) b.clockCartridge.picture := by
    rw [dot, clockPpu, hfetch]
    rfl
  rw [hdot, hppu, Port.of, hkeeps.vram_eq, hkeeps.mirroring_eq]
  rfl

theorem port_dots (hmask : b.port.mask = 0) (n : Nat) : (b.dots n).port = b.port := by
  induction n with
  | zero => rfl
  | succ n ih => rw [dots_succ, port_dot _ (ih ▸ hmask), ih]

theorem port_readControl : (b.read 0x2000).2.port = b.port := rfl

theorem port_control (v : UInt8) : (b.write 0x2000 v).port =
    { b.port with ctrl := v, t := b.port.t.setTable v.toNat } := rfl

theorem port_high (htoggle : b.port.toggle = false) (v : UInt8) : (b.write 0x2006 v).port =
    { b.port with t := b.port.t.setHigh v, toggle := true } := by
  have hwrite : (b.write 0x2006 v).port = Port.of (b.ppu.write 6 v) b.picture := rfl
  have htoggle : { b.ppu with latch := v }.toggle = false := htoggle
  rw [hwrite, Ppu.write, Ppu.writeAddress, htoggle]
  rfl

theorem port_low (htoggle : b.port.toggle = true) (v : UInt8) : (b.write 0x2006 v).port =
    { b.port with t := b.port.t.setLow v, v := b.port.t.setLow v, toggle := false } := by
  have hwrite : (b.write 0x2006 v).port = Port.of (b.ppu.write 6 v) b.picture := rfl
  have htoggle : { b.ppu with latch := v }.toggle = true := htoggle
  rw [hwrite, Ppu.write, Ppu.writeAddress, htoggle]
  rfl

theorem port_read (hmask : b.port.mask = 0) : (b.read 0x2007).2.port =
    { b.port with v := b.port.next, buffer := (b.picture.read b.port.fetched).1 } := by
  have hfetch : b.ppu.readFetch? 7 = some b.port.fetched := by
    simp only [Ppu.readFetch?, Ppu.targetsPalette_iff]
    rfl
  have hread : (b.read 0x2007).2.port =
      Port.of (b.ppu.read 7 (b.picture.read b.port.fetched).1).2
        (b.picture.read b.port.fetched).2 := by
    have hdevice : (b.read 0x2007).2.port = (b.readPpu 7).2.port := rfl
    rw [hdevice, readPpu, hfetch]
    rfl
  have hkeeps := b.picture.read_keeps b.port.fetched
  have hppu (data : UInt8) (x : PictureBus) : Port.of (b.ppu.read 7 data).2 x =
      { Port.of b.ppu x with v := b.port.next, buffer := data } := by
    have hnext := Ppu.advanceTarget_idle (p := { b.ppu with buffer := data }) hmask
    simp only [Ppu.read, Ppu.readData, hnext]
    rfl
  rw [hread, hppu, Port.of, hkeeps.vram_eq, hkeeps.mirroring_eq]
  rfl

theorem port_write (hmask : b.port.mask = 0) (v : UInt8) : (b.write 0x2007 v).port =
    { b.port with
      v := b.port.next
      palette := if 0x3F00 ≤ b.port.address then Ppu.Palette.write b.port.palette b.port.address v
        else b.port.palette
      vram := if 0x2000 ≤ b.port.address ∧ b.port.address < 0x3F00 then
          Ram.write b.port.vram (b.port.mirroring.vramOffset b.port.address) v
        else b.port.vram } := by
  have hdevice : (b.write 0x2007 v).port = Port.of (b.ppu.write 7 v)
      (if 0x3F00 ≤ b.port.address then b.picture else b.picture.write b.port.address v) := by
    have hwrite : (b.write 0x2007 v).port = ({ b with openBus := v }.writePpu 7 v).port := rfl
    have htarget : b.ppu.writeTarget? 7 =
        if 0x3F00 ≤ b.port.address then none else some b.port.address := by
      simp only [Ppu.writeTarget?, Bool.and_eq_true, decide_true, true_and, Bool.not_eq_true',
        ← Bool.not_eq_true, Ppu.targetsPalette_iff, ite_not]
      rfl
    rw [hwrite, writePpu, htarget]
    split_ifs <;> rfl
  have hppu (x : PictureBus) : Port.of (b.ppu.write 7 v) x =
      { Port.of b.ppu x with
        v := b.port.next
        palette :=
          if 0x3F00 ≤ b.port.address then Ppu.Palette.write b.port.palette b.port.address v
          else b.port.palette } := by
    have hin : { b.ppu with latch := v }.targetsPalette = true ↔ 0x3F00 ≤ b.port.address :=
      Ppu.targetsPalette_iff _
    simp only [Ppu.write, Ppu.writeData, hin]
    split_ifs <;> rw [Ppu.advanceTarget_idle]
    · rfl
    · exact hmask
    · rfl
    · exact hmask
  have htarget : b.port.address % 0x4000 = b.port.address := Nat.mod_mod _ _
  rw [hdevice, hppu]
  by_cases hpalette : 0x3F00 ≤ b.port.address
  · simp only [if_pos hpalette, if_neg fun h : _ ∧ _ => Nat.not_lt.mpr hpalette h.2]
    rfl
  · simp only [if_neg hpalette, Port.of, PictureBus.write_vram, PictureBus.write_mirroring, htarget]
    rfl

theorem port_board {a : UInt16} (above : 0x4020 ≤ a) (v : UInt8) : (b.write a v).port =
    { b.port with mirroring := (b.write a v).port.mirroring } := by
  obtain ⟨hram, hppu, hio⟩ := above_devices above
  simp only [write, if_neg hram, if_neg hppu, if_neg hio]
  rfl

theorem port_address (hmask : b.port.mask = 0) (htoggle : b.port.toggle = false) (hi lo : UInt8)
    (wait : Nat) : ∃ t, (b.afterPort (.address hi lo wait)).port =
      { b.port with v := ⟨PortAccess.pointed hi lo⟩, t, toggle := false } := by
  have hhigh := b.port_high htoggle hi
  have hdots := (b.write 0x2006 hi).port_dots (by rw [hhigh]; exact hmask) wait
  rw [hhigh] at hdots
  have hlow := ((b.write 0x2006 hi).dots wait).port_low (by rw [hdots]) lo
  have hlow_lt := lo.toNat_lt
  have hpointed : (b.port.t.setHigh hi).setLow lo = ⟨PortAccess.pointed hi lo⟩ := by
    apply congrArg Ppu.Scroll.mk
    simp only [Ppu.Scroll.setHigh, PortAccess.pointed]
    omega
  rw [hdots, hpointed] at hlow
  exact ⟨_, hlow⟩

end Accesses

/-! A run. -/

open PortAccess

/-- The port holds what the accesses said. -/
structure Holds (es : Nat → PortAccess) (m : Mirroring) (n : Nat) (p : Port) : Prop where
  ctrl_eq : p.ctrl = (latest (fun i => (es i).control?) n).getD 0
  mask_eq : p.mask = 0
  toggle_eq : p.toggle = false
  address_eq : p.address = target es n
  vram_eq : ∀ a, 0x2000 ≤ a → a < 0x3F00 →
    Ram.read p.vram (m.vramOffset a) = nametableByte es m n a
  palette_eq : ∀ a, 0x3F00 ≤ a → Ppu.Palette.read p.palette a = paletteByte es n a

section Run
variable {es : Nat → PortAccess} {m : Mirroring} {n : Nat} {p : Port}

theorem put?_of_not_write {kind : Nat → Bool} (h : ∀ v, es n ≠ .write v) :
    put? es kind n = none := by
  unfold put?
  split
  · exact absurd ‹_› (h _)
  · rfl

theorem put?_of_write {kind : Nat → Bool} {v : UInt8} (h : es n = .write v) :
    put? es kind n = if kind (target es n) then some v else none := by
  rw [put?, h]

theorem nametableByte_succ (a : Nat) : nametableByte es m (n + 1) a =
    (put? es (foldsTo m a) n).getD (nametableByte es m n a) := getD_latest_succ _ n 0

theorem paletteByte_succ (a : Nat) : paletteByte es (n + 1) a =
    ((put? es (sameEntry a) n).map (· &&& 0x3F)).getD (paletteByte es n a) := by
  rw [paletteByte, getD_latest_succ]
  cases put? es (sameEntry a) n <;> rfl

theorem Holds.quiet (h : Holds es m n p) (hwrite : ∀ v, es n ≠ .write v) {q : Port}
    (hctrl : q.ctrl = ((es n).control?).getD p.ctrl) (hmask : q.mask = p.mask)
    (htoggle : q.toggle = p.toggle) (haddress : q.address = target es (n + 1))
    (hvram : q.vram = p.vram) (hpalette : q.palette = p.palette) : Holds es m (n + 1) q where
  ctrl_eq := by rw [hctrl, h.ctrl_eq, getD_latest_succ]
  mask_eq := hmask.trans h.mask_eq
  toggle_eq := htoggle.trans h.toggle_eq
  address_eq := haddress
  vram_eq a hlow hhigh := by
    rw [hvram, h.vram_eq a hlow hhigh, nametableByte_succ, put?_of_not_write hwrite,
      Option.getD_none]
  palette_eq a ha := by
    rw [hpalette, h.palette_eq a ha, paletteByte_succ, put?_of_not_write hwrite, Option.map_none,
      Option.getD_none]

theorem target_of_rest (hpointed : (es n).pointed? = none) (hmoves : (es n).moves = false) :
    target es (n + 1) = target es n := by
  rw [target, reached, hpointed, Option.getD_none, moved, hmoves]
  rfl

theorem Holds.next (h : Holds es m n p) (hpointed : (es n).pointed? = none)
    (hmoves : (es n).moves = true) : p.next.raw % 0x4000 = target es (n + 1) := by
  have haddress : p.v.raw % 0x4000 = reached es n % 0x4000 := h.address_eq
  rw [target, reached, hpointed, Option.getD_none, moved, hmoves, if_pos rfl, step, ← h.ctrl_eq]
  simp only [Port.next, Ppu.Scroll.advance, Ppu.Scroll.ofNat]
  omega

theorem index_eq (a : Nat) : Ppu.Palette.index a = entry a := by
  have hfour : a % 4 = a % 32 % 4 := (Nat.mod_mod_of_dvd a (by decide)).symm
  have hsixteen : a % 16 = a % 32 % 16 := (Nat.mod_mod_of_dvd a (by decide)).symm
  have hlt : a % 32 < 32 := Nat.mod_lt _ (by decide)
  unfold Ppu.Palette.index entry
  rw [hfour, hsixteen]
  generalize a % 32 = i at hlt
  interval_cases i <;> rfl

theorem entry_lt (a : Nat) : entry a < 32 := by
  rw [← index_eq, Ppu.Palette.index]
  split_ifs <;> omega

theorem palette_read_write (x : Ram 32) (t a : Nat) (v : UInt8) :
    Ppu.Palette.read (Ppu.Palette.write x t v) a =
      if entry t = entry a then v &&& 0x3F else Ppu.Palette.read x a := by
  rw [Ppu.Palette.read, Ppu.Palette.write, Ram.read_write, index_eq, index_eq,
    Nat.mod_eq_of_lt (entry_lt t), Nat.mod_eq_of_lt (entry_lt a), Ppu.Palette.read, index_eq]

theorem vram_read_write (x : Ram 0x1000) (t a : Nat) (v : UInt8) :
    Ram.read (Ram.write x (m.vramOffset t) v) (m.vramOffset a) =
      if m.vramOffset t = m.vramOffset a then v else Ram.read x (m.vramOffset a) := by
  rw [Ram.read_write, Nat.mod_eq_of_lt (m.vramOffset_lt t), Nat.mod_eq_of_lt (m.vramOffset_lt a)]

theorem Holds.write (h : Holds es m n p) {v : UInt8} (hwrite : es n = .write v) {q : Port}
    (hctrl : q.ctrl = p.ctrl) (hmask : q.mask = p.mask) (htoggle : q.toggle = p.toggle)
    (haddress : q.v = p.next)
    (hvram : q.vram = if 0x2000 ≤ p.address ∧ p.address < 0x3F00 then
      Ram.write p.vram (m.vramOffset p.address) v else p.vram)
    (hpalette : q.palette = if 0x3F00 ≤ p.address then
      Ppu.Palette.write p.palette p.address v else p.palette) : Holds es m (n + 1) q where
  ctrl_eq := by rw [hctrl, h.ctrl_eq, getD_latest_succ, hwrite]; rfl
  mask_eq := hmask.trans h.mask_eq
  toggle_eq := htoggle.trans h.toggle_eq
  address_eq := by
    rw [Port.address, haddress]
    exact h.next (by rw [hwrite]; rfl) (by rw [hwrite]; rfl)
  vram_eq a hlow hhigh := by
    rw [nametableByte_succ, ← h.vram_eq a hlow hhigh, hvram, put?_of_write hwrite,
      ← h.address_eq]
    by_cases hin : 0x2000 ≤ p.address ∧ p.address < 0x3F00
    · rw [if_pos hin, vram_read_write]
      simp only [foldsTo_iff, and_iff_right hin]
      split_ifs <;> rfl
    · rw [if_neg hin, if_neg fun h => hin ((foldsTo_iff m a _).mp h).1]
      rfl
  palette_eq a ha := by
    rw [paletteByte_succ, ← h.palette_eq a ha, hpalette, put?_of_write hwrite,
      ← h.address_eq]
    by_cases hin : 0x3F00 ≤ p.address
    · rw [if_pos hin, palette_read_write]
      simp only [sameEntry_iff, and_iff_right hin]
      split_ifs <;> rfl
    · rw [if_neg hin, if_neg fun h => hin ((sameEntry_iff a _).mp h).1]
      rfl

theorem Holds.start {b : Bus} (hppu : b.ppu = {}) (hvram : b.picture.vram = Ram.zeros _) :
    Holds es m 0 b.port := by
  have hport : b.port = Port.of {} b.picture := by rw [port, hppu]
  rw [hport]
  refine ⟨rfl, rfl, rfl, rfl, fun a _ _ => ?_, fun a _ => ?_⟩
  · rw [Port.of, hvram]
    exact Ram.read_zeros _
  · have hzero : paletteByte es 0 a = 0 &&& 0x3F := rfl
    rw [hzero, UInt8.zero_and]
    exact Ram.read_zeros (n := 32) _

theorem Holds.access {b : Bus} (h : Holds es m n b.port) (hwired : b.port.mirroring = m) :
    Holds es m (n + 1) (b.afterPort (es n)).port := by
  have hrest (hpointed : (es n).pointed? = none) (hmoves : (es n).moves = false) :
      b.port.address = target es (n + 1) :=
    h.address_eq.trans (target_of_rest hpointed hmoves).symm
  cases hx : es n with
  | readControl =>
    rw [afterPort, port_readControl]
    exact h.quiet (by simp [hx]) (hx ▸ rfl) rfl rfl (hrest (hx ▸ rfl) (hx ▸ rfl)) rfl rfl
  | control v =>
    rw [afterPort, port_control]
    exact h.quiet (by simp [hx]) (hx ▸ rfl) rfl rfl (hrest (hx ▸ rfl) (hx ▸ rfl)) rfl rfl
  | address hi lo wait =>
    obtain ⟨t, hport⟩ := b.port_address h.mask_eq h.toggle_eq hi lo wait
    have haddress : pointed hi lo % 0x4000 = target es (n + 1) := by
      rw [target, reached, hx]
      rfl
    rw [hport]
    exact h.quiet (by simp [hx]) (hx ▸ rfl) rfl h.toggle_eq.symm haddress rfl rfl
  | read =>
    rw [afterPort, b.port_read h.mask_eq]
    exact h.quiet (by simp [hx]) (hx ▸ rfl) rfl rfl (h.next (hx ▸ rfl) (hx ▸ rfl)) rfl rfl
  | write v =>
    rw [afterPort, b.port_write h.mask_eq, hwired]
    exact h.write hx rfl rfl rfl rfl rfl rfl
  | dot =>
    rw [afterPort, b.port_dot h.mask_eq]
    exact h.quiet (by simp [hx]) (hx ▸ rfl) rfl rfl (hrest (hx ▸ rfl) (hx ▸ rfl)) rfl rfl
  | board a above v =>
    rw [afterPort, b.port_board above]
    exact h.quiet (by simp [hx]) (hx ▸ rfl) rfl rfl (hrest (hx ▸ rfl) (hx ▸ rfl)) rfl rfl

theorem holds_history {b : Bus} (hppu : b.ppu = {}) (hvram : b.picture.vram = Ram.zeros _)
    (hwired : ∀ n, (b.portHistory es n).picture.mirroring = m) (n : Nat) :
    Holds es m n (b.portHistory es n).port := by
  induction n with
  | zero => exact .start hppu hvram
  | succ n ih => exact ih.access (hwired n)

/-! What is read back. -/

theorem value_read (b : Bus) : (b.read 0x2007).1 =
    if 0x3F00 ≤ b.port.address then Ppu.Palette.read b.port.palette b.port.address
    else b.port.buffer := by
  have hpeek : (b.read 0x2007).1 = b.ppu.peek 7 := b.read_fst 0x2007
  rw [hpeek, Ppu.peek]
  simp only [Ppu.targetsPalette_iff]
  rfl

theorem pointed_lt (hi lo : UInt8) : pointed hi lo < 0x4000 := by
  have := lo.toNat_lt
  unfold pointed
  omega

theorem Holds.buffer {b : Bus} (h : Holds es m n b.port) (hwired : b.port.mirroring = m)
    (hi lo : UInt8) (wait : Nat) {a : Nat} (hlow : 0x2000 ≤ a) (hhigh : a < 0x3F00)
    (ha : (if 0x3F00 ≤ pointed hi lo then pointed hi lo - 0x1000 else pointed hi lo) = a) :
    ((b.afterPort (.address hi lo wait)).read 0x2007).2.port.buffer = nametableByte es m n a := by
  obtain ⟨t, hport⟩ := b.port_address h.mask_eq h.toggle_eq hi lo wait
  have hmask : (b.afterPort (.address hi lo wait)).port.mask = 0 := by
    rw [hport]
    exact h.mask_eq
  have hfetched : (b.afterPort (.address hi lo wait)).port.fetched = a := by
    rw [hport, Port.fetched, Port.address, Nat.mod_eq_of_lt (pointed_lt hi lo), ha]
  have hvram : (b.afterPort (.address hi lo wait)).picture.vram = b.port.vram :=
    congrArg Port.vram hport
  have hmirroring : (b.afterPort (.address hi lo wait)).picture.mirroring = m :=
    (congrArg Port.mirroring hport).trans hwired
  rw [port_read _ hmask, hfetched]
  dsimp only
  rw [PictureBus.read_nametable _ _ hlow hhigh, hvram, hmirroring, h.vram_eq a hlow hhigh]

theorem Holds.read_buffered {b : Bus} (h : Holds es m n b.port) (hwired : b.port.mirroring = m)
    (hi lo : UInt8) (wait : Nat) (hi' lo' : UInt8) (wait' : Nat) (hlow : 0x2000 ≤ pointed hi lo)
    (hhigh : pointed hi lo < 0x3F00) (hother : pointed hi' lo' < 0x3F00) :
    ((((b.afterPort (.address hi lo wait)).afterPort .read).afterPort
      (.address hi' lo' wait')).read 0x2007).1 = nametableByte es m n (pointed hi lo) := by
  obtain ⟨t, hpoint⟩ := b.port_address h.mask_eq h.toggle_eq hi lo wait
  have hbuffer := h.buffer hwired hi lo wait hlow hhigh (if_neg (Nat.not_le.mpr hhigh))
  generalize b.afterPort (.address hi lo wait) = pointing at hpoint hbuffer ⊢
  have hpointing : pointing.port.mask = 0 := by
    rw [hpoint]
    exact h.mask_eq
  have hread := pointing.port_read hpointing
  have hmask : (pointing.afterPort .read).port.mask = 0 :=
    (congrArg Port.mask hread).trans hpointing
  have htoggle : (pointing.afterPort .read).port.toggle = false := by
    refine (congrArg Port.toggle hread).trans ?_
    rw [hpoint]
  obtain ⟨t', hpoint'⟩ := (pointing.afterPort .read).port_address hmask htoggle hi' lo' wait'
  have haddress : ¬0x3F00 ≤ pointed hi' lo' % 0x4000 := by omega
  rw [value_read, hpoint', Port.address, if_neg haddress]
  exact hbuffer

theorem Holds.read_palette {b : Bus} (h : Holds es m n b.port) (hi lo : UInt8) (wait : Nat)
    (hhigh : 0x3F00 ≤ pointed hi lo) : ((b.afterPort (.address hi lo wait)).read 0x2007).1 =
      paletteByte es n (pointed hi lo) := by
  obtain ⟨t, hpoint⟩ := b.port_address h.mask_eq h.toggle_eq hi lo wait
  rw [value_read, hpoint, Port.address, Nat.mod_eq_of_lt (pointed_lt hi lo), if_pos hhigh]
  exact h.palette_eq _ hhigh

/-- Without rendering the data port is a memory. An access goes to the address set last, moved on by
the steps in force since; a nametable read through the buffer returns the last byte written to any
address that is folded to its place; and a palette read returns the last colour at once, while the
buffer takes up the nametable byte below. -/
theorem dataPort_faithful {b : Bus} (hppu : b.ppu = {}) (hvram : b.picture.vram = Ram.zeros _)
    (hwired : ∀ n, (b.portHistory es n).picture.mirroring = m) (n : Nat) :
    let s := b.portHistory es n
    (∀ j < n, ∀ hi lo wait, es j = .address hi lo wait →
      (∀ i, j < i → i < n → (es i).pointed? = none) →
      s.ppu.target = (pointed hi lo + ∑ i ∈ Finset.Ico (j + 1) n, moved es i) % 0x4000) ∧
    ((∀ i < n, (es i).pointed? = none) →
      s.ppu.target = (∑ i ∈ Finset.range n, moved es i) % 0x4000) ∧
    (∀ hi lo wait hi' lo' wait', 0x2000 ≤ pointed hi lo → pointed hi lo < 0x3F00 →
      pointed hi' lo' < 0x3F00 →
      let buffered := (s.afterPort (.address hi lo wait)).afterPort .read
      ((buffered.afterPort (.address hi' lo' wait')).read 0x2007).1 =
        nametableByte es m n (pointed hi lo)) ∧
    ∀ hi lo wait, 0x3F00 ≤ pointed hi lo →
      let r := (s.afterPort (.address hi lo wait)).read 0x2007
      r.1 = paletteByte es n (pointed hi lo) ∧
      r.2.ppu.buffer = nametableByte es m n (pointed hi lo - 0x1000) := by
  intro s
  have hholds : Holds es m n s.port := holds_history hppu hvram hwired n
  have htarget : s.ppu.target = reached es n % 0x4000 := hholds.address_eq
  refine ⟨?_, ?_, ?_, ?_⟩
  · intro j hj hi lo wait hset hlast
    rw [htarget, reached_none es hj hlast, reached, hset]
    rfl
  · intro hnone
    rw [htarget, reached_none es (Nat.zero_le n) fun i _ hi => hnone i hi, reached, Nat.zero_add,
      Finset.range_eq_Ico]
  · intro hi lo wait hi' lo' wait' hlow hhigh hother buffered
    exact hholds.read_buffered (hwired n) hi lo wait hi' lo' wait' hlow hhigh hother
  · intro hi lo wait hhigh r
    have hlt := pointed_lt hi lo
    exact ⟨hholds.read_palette hi lo wait hhigh,
      hholds.buffer (hwired n) hi lo wait (by omega) (by omega) (if_pos hhigh)⟩

/-! Where the mirroring does not change. -/

theorem Holds.wired {b : Bus} (h : Holds es m n b.port)
    (hboard : ∀ a above v, es n ≠ .board a above v) :
    (b.afterPort (es n)).port.mirroring = b.port.mirroring := by
  cases hx : es n with
  | readControl | control v => rfl
  | address hi lo wait =>
    obtain ⟨t, hport⟩ := b.port_address h.mask_eq h.toggle_eq hi lo wait
    rw [hport]
  | read => rw [afterPort, b.port_read h.mask_eq]
  | write v => rw [afterPort, b.port_write h.mask_eq]
  | dot => rw [afterPort, b.port_dot h.mask_eq]
  | board a above v => exact absurd hx (hboard a above v)

theorem wired_of_no_board {b : Bus} (hppu : b.ppu = {}) (hvram : b.picture.vram = Ram.zeros _)
    (hboard : ∀ n a above v, es n ≠ .board a above v) (n : Nat) :
    (b.portHistory es n).picture.mirroring = b.picture.mirroring := by
  have hrun (n : Nat) : Holds es b.picture.mirroring n (b.portHistory es n).port ∧
      (b.portHistory es n).picture.mirroring = b.picture.mirroring := by
    induction n with
    | zero => exact ⟨.start hppu hvram, rfl⟩
    | succ n ih => exact ⟨ih.1.access ih.2, (ih.1.wired (hboard n)).trans ih.2⟩
  exact (hrun n).2

end Run

/-- A column is written, one byte under the other, and then a colour. -/
def columnAndColour : Nat → PortAccess
  | 0 => .control 0x04
  | 1 => .address 0x20 0x00 9
  | 2 => .write 7
  | 3 => .write 8
  | 4 => .control 0
  | 5 => .address 0xFF 0x10 0
  | 6 => .write 0xFF
  | _ => .dot

/-- The second byte is also at the same place of the next page, and the colour is that of the
backdrop. -/
theorem dataPort_faithful_columnAndColour :
    let b : Bus := {}
    let s := b.portHistory columnAndColour 7
    (b.ppu = {} ∧ b.picture.vram = Ram.zeros _ ∧
      ∀ n, (b.portHistory columnAndColour n).picture.mirroring = .horizontal) ∧
    s.ppu.target = 0x3F11 ∧
    ((((s.afterPort (.address 0x24 0x20 0)).afterPort .read).afterPort
      (.address 0 0 0)).read 0x2007).1 = 8 ∧
    ((s.afterPort (.address 0x3F 0x00 0)).read 0x2007).1 = 0x3F := by
  intro b s
  have hboard : ∀ n a above v, columnAndColour n ≠ .board a above v := by
    intro n a above v
    unfold columnAndColour
    split <;> simp
  have hwired : ∀ n, (b.portHistory columnAndColour n).picture.mirroring = .horizontal :=
    wired_of_no_board rfl rfl hboard
  obtain ⟨haddress, -, hnametable, hpalette⟩ := dataPort_faithful rfl rfl hwired 7
  refine ⟨⟨rfl, rfl, hwired⟩, ?_, ?_, ?_⟩
  · have hlast : ∀ i, 5 < i → i < 7 → (columnAndColour i).pointed? = none := by
      intro i hfirst hlast
      interval_cases i
      rfl
    rw [haddress 5 (by decide) 0xFF 0x10 0 rfl hlast]
    decide
  · rw [hnametable 0x24 0x20 0 0 0 0 (by decide) (by decide) (by decide)]
    decide
  · rw [(hpalette 0x3F 0x00 0 (by decide)).1]
    decide

end Bus
end Famicom
