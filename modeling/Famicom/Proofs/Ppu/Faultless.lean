import Famicom.Bus
import Famicom.Proofs.Ppu.StrictDot

/-! The picture unit never faults. However registers are accessed between dots, each sum and
difference fits, each index is inside its memory, and no address of palette memory is put out on the
picture bus. -/
namespace Famicom.Ppu

/-! The registers. -/

def strictReadFetch? (p : Ppu) (r : Nat) : Strict (Option Nat) :=
  if r = 7 then
    if p.targetsPalette then do
      let a ← Strict.sub p.target 0x1000
      pure (some a)
    else pure (some p.target)
  else pure none

def strictAdvanceTarget (p : Ppu) : Strict Ppu :=
  if p.rendering && p.onRenderLine then do
    let v ← p.v.strictStepX
    let v ← v.strictStepY
    pure { p with v }
  else pure { p with v := p.v.advance (if Byte.has p.ctrl 0x04 then 32 else 1) }

def strictReadData (p : Ppu) (data : UInt8) : Strict (UInt8 × Ppu) := do
  let v ← (if p.targetsPalette then Palette.strictRead p.palette p.target else pure p.buffer)
  let p ← { p with buffer := data }.strictAdvanceTarget
  pure (v, p)

def strictRead (p : Ppu) (r : Nat) (data : UInt8) : Strict (UInt8 × Ppu) := do
  let (v, p) ← (match r with
    | 2 => pure (p.status, { p with vblank := false, toggle := false })
    | 4 => do
      let v ← Strict.get p.oam p.oamAddr.toNat
      pure (v, p)
    | 7 => p.strictReadData data
    | _ => pure (p.latch, p))
  pure (v, { p with latch := v })

def strictWriteOam (p : Ppu) (v : UInt8) : Strict Ppu := do
  let oam ← Strict.set p.oam p.oamAddr.toNat v
  pure { p with oam, oamAddr := p.oamAddr + 1 }

def strictWriteData (p : Ppu) (v : UInt8) : Strict Ppu :=
  if p.targetsPalette then do
    let palette ← Palette.strictWrite p.palette p.target v
    { p with palette }.strictAdvanceTarget
  else p.strictAdvanceTarget

def strictWrite (p : Ppu) (r : Nat) (v : UInt8) : Strict Ppu :=
  let p := { p with latch := v }
  match r with
  | 4 => p.strictWriteOam v
  | 7 => p.strictWriteData v
  -- The other registers are stored, field by field.
  | _ => pure (p.write r v)

section Registers
variable {p : Ppu}

theorem strictReadFetch?_ok (p : Ppu) (r : Nat) :
    p.strictReadFetch? r = .ok (p.readFetch? r) := by
  unfold strictReadFetch? readFetch?
  split_ifs with hr hp
  · rw [targetsPalette, decide_eq_true_eq] at hp
    rw [Strict.sub_ok (by omega)]
    rfl
  · rfl
  · rfl

theorem strictAdvanceTarget_ok (hv : p.v.raw < 0x8000) :
    p.strictAdvanceTarget = .ok p.advanceTarget := by
  rw [strictAdvanceTarget, Scroll.strictStepX_ok hv, Strict.ok_bind,
    Scroll.strictStepY_ok (Scroll.stepX_lt hv), advanceTarget]
  split_ifs <;> rfl

theorem strictReadData_ok (hv : p.v.raw < 0x8000) (data : UInt8) :
    p.strictReadData data = .ok (p.readData data) := by
  have hbuffer : { p with buffer := data }.strictAdvanceTarget =
      .ok { p with buffer := data }.advanceTarget := strictAdvanceTarget_ok hv
  rw [strictReadData, Palette.strictRead_ok, hbuffer, readData]
  split_ifs <;> rfl

theorem strictRead_ok (hv : p.v.raw < 0x8000) (r : Nat) (data : UInt8) :
    p.strictRead r data = .ok (p.read r data) := by
  match r with
  | 4 =>
    simp only [strictRead, Strict.get_read p.oam p.oamAddr.toNat_lt]
    rfl
  | 7 =>
    simp only [strictRead, strictReadData_ok hv]
    rfl
  | 0 | 1 | 2 | 3 | 5 | 6 | _ + 8 => rfl

theorem strictWriteOam_ok (p : Ppu) (v : UInt8) : p.strictWriteOam v = .ok (p.writeOam v) := by
  rw [strictWriteOam, Strict.set_write p.oam v p.oamAddr.toNat_lt]
  rfl

theorem strictWriteData_ok (hv : p.v.raw < 0x8000) (v : UInt8) :
    p.strictWriteData v = .ok (p.writeData v) := by
  rw [strictWriteData, writeData, Palette.strictWrite_ok, Strict.ok_bind]
  split_ifs
  · exact strictAdvanceTarget_ok hv
  · exact strictAdvanceTarget_ok hv

theorem strictWrite_ok (hv : p.v.raw < 0x8000) (r : Nat) (v : UInt8) :
    p.strictWrite r v = .ok (p.write r v) := by
  match r with
  | 4 => exact strictWriteOam_ok _ v
  | 7 =>
    have hlatch : { p with latch := v }.v.raw < 0x8000 := hv
    exact strictWriteData_ok hlatch v
  | 0 | 1 | 2 | 3 | 5 | 6 | _ + 8 => rfl

theorem readFetch?_lt (p : Ppu) {r a : Nat} (h : p.readFetch? r = some a) : a < 0x3F00 := by
  have htarget : p.target < 0x4000 := Nat.mod_lt _ (by decide)
  unfold readFetch? targetsPalette at h
  split_ifs at h with hr hp
  · rw [Option.some.injEq] at h
    omega
  · rw [decide_eq_true_eq] at hp
    rw [Option.some.injEq] at h
    omega

theorem writeTarget?_lt (p : Ppu) {r a : Nat} (h : p.writeTarget? r = some a) : a < 0x3F00 := by
  unfold writeTarget? targetsPalette at h
  split_ifs at h with hr
  rw [Bool.and_eq_true, Bool.not_eq_true', decide_eq_false_iff_not] at hr
  cases h
  exact Nat.lt_of_not_le hr.2

end Registers
end Famicom.Ppu

/-! The picture bus, on which palette memory does not answer. -/

namespace Famicom

namespace PictureBus

def strictRead (b : PictureBus) (a : Nat) : Strict (UInt8 × PictureBus) :=
  if a % 0x4000 < 0x3F00 then pure (b.read a) else .error .address

def strictWrite (b : PictureBus) (a : Nat) (v : UInt8) : Strict PictureBus :=
  if a % 0x4000 < 0x3F00 then pure (b.write a v) else .error .address

theorem strictRead_ok (b : PictureBus) {a : Nat} (h : a < 0x3F00) :
    b.strictRead a = .ok (b.read a) :=
  if_pos (Nat.lt_of_le_of_lt (Nat.mod_le a _) h)

theorem strictWrite_ok (b : PictureBus) {a : Nat} (h : a < 0x3F00) (v : UInt8) :
    b.strictWrite a v = .ok (b.write a v) :=
  if_pos (Nat.lt_of_le_of_lt (Nat.mod_le a _) h)

end PictureBus

namespace Bus

def strictClockPpu (b : Bus) : Strict Bus := do
  let fetch ← b.ppu.strictFetch?
  match fetch with
  | some a => do
    let (data, picture) ← b.picture.strictRead a
    let ppu ← b.ppu.strictClock data
    pure { b with picture, ppu }
  | none => do
    let ppu ← b.ppu.strictClock 0
    pure { b with ppu }

def strictReadPpu (b : Bus) (r : Nat) : Strict (UInt8 × Bus) := do
  let fetch ← b.ppu.strictReadFetch? r
  match fetch with
  | some a => do
    let (data, picture) ← b.picture.strictRead a
    let (v, ppu) ← b.ppu.strictRead r data
    pure (v, { b with picture, ppu })
  | none => do
    let (v, ppu) ← b.ppu.strictRead r 0
    pure (v, { b with ppu })

def strictWritePpu (b : Bus) (r : Nat) (v : UInt8) : Strict Bus :=
  match b.ppu.writeTarget? r with
  | some a => do
    let picture ← b.picture.strictWrite a v
    let ppu ← b.ppu.strictWrite r v
    pure { b with picture, ppu }
  | none => do
    let ppu ← b.ppu.strictWrite r v
    pure { b with ppu }

variable {b : Bus}

theorem strictClockPpu_ok (h : b.ppu.WellFormed) : b.strictClockPpu = .ok b.clockPpu := by
  rw [strictClockPpu, Ppu.strictFetch?_ok, Strict.ok_bind, clockPpu]
  cases hf : b.ppu.fetch? with
  | some a =>
    have ha : a < 0x3F00 := (b.ppu.fetch?_lt hf).trans (by decide)
    simp only [b.picture.strictRead_ok ha, Strict.ok_bind, Ppu.strictClock_ok _ h]
    rfl
  | none =>
    simp only [Ppu.strictClock_ok _ h]
    rfl

theorem strictReadPpu_ok (h : b.ppu.WellFormed) (r : Nat) :
    b.strictReadPpu r = .ok (b.readPpu r) := by
  rw [strictReadPpu, Ppu.strictReadFetch?_ok, Strict.ok_bind, readPpu]
  cases hf : b.ppu.readFetch? r with
  | some a =>
    simp only [b.picture.strictRead_ok (b.ppu.readFetch?_lt hf), Strict.ok_bind,
      Ppu.strictRead_ok h.v_lt]
    rfl
  | none =>
    simp only [Ppu.strictRead_ok h.v_lt]
    rfl

theorem strictWritePpu_ok (h : b.ppu.WellFormed) (r : Nat) (v : UInt8) :
    b.strictWritePpu r v = .ok (b.writePpu r v) := by
  unfold strictWritePpu writePpu
  cases hf : b.ppu.writeTarget? r with
  | some a =>
    simp only [b.picture.strictWrite_ok (b.ppu.writeTarget?_lt hf), Strict.ok_bind,
      Ppu.strictWrite_ok h.v_lt]
    rfl
  | none =>
    simp only [Ppu.strictWrite_ok h.v_lt]
    rfl

end Bus

namespace Ppu

/-- An address that the unit puts out, in its own dots or for an access to the data register. -/
def PutsOut (p : Ppu) (a : Nat) : Prop :=
  p.fetch? = some a ∨ ∃ r, p.readFetch? r = some a ∨ p.writeTarget? r = some a

/-- Every state that the unit gets into is well formed, and in it nothing faults: neither a dot nor
an access to a register or to sprite memory. All addresses put out lie below palette memory, so that
the picture bus answers each of them, whatever is on it. -/
theorem faultless_of_reachable {p : Ppu} (h : p.Reachable) :
    p.WellFormed ∧ (∀ a, p.PutsOut a → a < 0x3F00) ∧
    (p.strictFetch? = .ok p.fetch? ∧ ∀ data, p.strictClock data = .ok (p.clock data)) ∧
    (∀ r, p.strictReadFetch? r = .ok (p.readFetch? r) ∧
      ∀ data, p.strictRead r data = .ok (p.read r data)) ∧
    (∀ r v, p.strictWrite r v = .ok (p.write r v)) ∧
    (∀ v, p.strictWriteOam v = .ok (p.writeOam v)) ∧
    ∀ b : Bus, b.ppu = p → b.strictClockPpu = .ok b.clockPpu ∧
      (∀ r, b.strictReadPpu r = .ok (b.readPpu r)) ∧
      ∀ r v, b.strictWritePpu r v = .ok (b.writePpu r v) := by
  have hp := h.wellFormed
  refine ⟨hp, ?_, ⟨p.strictFetch?_ok, fun data => strictClock_ok data hp⟩,
    fun r => ⟨p.strictReadFetch?_ok r, fun data => strictRead_ok hp.v_lt r data⟩,
    fun r v => strictWrite_ok hp.v_lt r v, p.strictWriteOam_ok, ?_⟩
  · rintro a (hf | ⟨r, hr | hw⟩)
    · exact (p.fetch?_lt hf).trans (by decide)
    · exact p.readFetch?_lt hr
    · exact p.writeTarget?_lt hw
  · rintro b rfl
    exact ⟨Bus.strictClockPpu_ok hp, Bus.strictReadPpu_ok hp, Bus.strictWritePpu_ok hp⟩

/-- Rendering is switched on in the middle of the first line, before any sprites were chosen. -/
theorem faultless_of_reachable_midline :
    (({} : Ppu).switchOn striped 100 0x1E).Reachable ∧
    (({} : Ppu).switchOn striped 100 0x1E).WellFormed ∧
    (({} : Ppu).switchOn striped 100 0x1E).strictClock 7 =
      .ok ((({} : Ppu).switchOn striped 100 0x1E).clock 7) := by
  have hr : (({} : Ppu).switchOn striped 100 0x1E).Reachable := Reachable.start.switchOn striped 0x1E
  obtain ⟨hwf, -, ⟨-, hclock⟩, -⟩ := faultless_of_reachable hr
  exact ⟨hr, hwf, hclock 7⟩

end Ppu
end Famicom
