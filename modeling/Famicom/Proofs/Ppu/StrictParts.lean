import Famicom.Proofs.Ppu.WellFormed
import Famicom.Proofs.Strict

/-! The parts of the picture unit on a machine that stops at a fault. Each step stands here a second
time, with its sums, differences and memory accesses checked; what wraps by design stays as it is.
Within the bounds of its part none of the checks fails, and the second step is the first. -/
namespace Famicom.Ppu

/-! The scroll position, whose words have 16 bits. -/

namespace Scroll

def strictStepX (s : Scroll) : Strict Scroll :=
  if s.coarseX = 31 then pure (s.setCoarseX 0).flipTableX
  else do
    let raw ← Strict.add 16 s.raw 1
    pure ⟨raw⟩

def strictStepY (s : Scroll) : Strict Scroll :=
  if s.fineY < 7 then do
    let raw ← Strict.add 16 s.raw 0x1000
    pure ⟨raw⟩
  else
    let top := s.setFineY 0
    if s.coarseY = 29 then pure (top.setCoarseY 0).flipTableY
    else if s.coarseY = 31 then pure (top.setCoarseY 0)
    else do
      let y ← Strict.add 8 s.coarseY 1
      pure (top.setCoarseY y)

variable {s : Scroll}

theorem strictStepX_ok (h : s.raw < 0x8000) : s.strictStepX = .ok s.stepX := by
  unfold strictStepX stepX
  rw [Strict.add_ok (by omega)]
  split_ifs <;> rfl

theorem strictStepY_ok (h : s.raw < 0x8000) : s.strictStepY = .ok s.stepY := by
  have := s.coarseY_lt
  unfold strictStepY stepY
  rw [Strict.add_ok (by omega), Strict.add_ok (by omega)]
  dsimp only
  split_ifs <;> rfl

end Scroll

/-! The background. -/

namespace Background

/-- A shift by more than the width of the shifter is a fault. -/
def strictTap (shifter : UInt16) (x : UInt8) : Strict UInt8 := do
  let n ← Strict.sub 15 x.toNat
  pure (shifter >>> UInt16.ofNat n &&& 1).toUInt8

def strictColour (b : Background) (x : UInt8) : Strict UInt8 := do
  let hi ← strictTap b.patternHi x
  let lo ← strictTap b.patternLo x
  pure (hi <<< 1 ||| lo)

def strictPalette (b : Background) (x : UInt8) : Strict UInt8 := do
  let hi ← strictTap b.attrHi x
  let lo ← strictTap b.attrLo x
  pure (hi <<< 1 ||| lo)

def strictPatternAddress (b : Background) (table fineY : Nat) : Strict Nat := do
  let a ← Strict.add 16 table (b.tile.toNat * 16)
  Strict.add 16 a fineY

theorem strictTap_ok (shifter : UInt16) {x : UInt8} (h : x.toNat < 8) :
    strictTap shifter x = .ok (tap shifter x) := by
  have hshift : UInt16.ofNat (15 - x.toNat) = 15 - x.toUInt16 := by
    apply UInt16.toNat_inj.mp
    rw [UInt16.toNat_sub_of_le]
    · simp
      omega
    · rw [UInt16.le_iff_toNat_le]
      simp
      omega
  rw [strictTap, Strict.sub_ok (by omega), Strict.ok_bind, hshift]
  rfl

theorem strictColour_ok (b : Background) {x : UInt8} (h : x.toNat < 8) :
    b.strictColour x = .ok (b.colour x) := by
  rw [strictColour, strictTap_ok _ h, strictTap_ok _ h]
  rfl

theorem strictPalette_ok (b : Background) {x : UInt8} (h : x.toNat < 8) :
    b.strictPalette x = .ok (b.palette x) := by
  rw [strictPalette, strictTap_ok _ h, strictTap_ok _ h]
  rfl

theorem patternAddress_lt (b : Background) {table fineY : Nat} (ht : table ≤ 0x1000)
    (hy : fineY < 8) : b.patternAddress table fineY < 0x1FF8 := by
  have := b.tile.toNat_lt
  unfold patternAddress
  omega

theorem strictPatternAddress_ok (b : Background) {table fineY : Nat} (ht : table ≤ 0x1000)
    (hy : fineY < 8) :
    b.strictPatternAddress table fineY = .ok (b.patternAddress table fineY) := by
  have := b.tile.toNat_lt
  rw [strictPatternAddress, Strict.add_ok (by omega), Strict.ok_bind, Strict.add_ok (by omega)]
  rfl

end Background

/-! Sprites. -/

def Sprite.strictAdvance (s : Sprite) : Strict Sprite :=
  if s.wait ≠ 0 then do
    let wait ← Strict.sub s.wait 1
    pure { s with wait }
  else pure { s with lo := s.lo <<< 1, hi := s.hi <<< 1 }

theorem Sprite.strictAdvance_ok (s : Sprite) : s.strictAdvance = .ok s.advance := by
  unfold Sprite.strictAdvance Sprite.advance
  split_ifs with h
  · rw [Strict.sub_ok (Nat.pos_of_ne_zero h)]
    rfl
  · rfl

namespace SpriteUnit

def strictClear (u : SpriteUnit) (i : Nat) : Strict SpriteUnit := do
  let chosen ← Strict.set u.chosen i 0xFF
  pure { u with chosen }

def strictChoose (u : SpriteUnit) (oam : Ram 256) : Strict SpriteUnit := do
  let source ← Strict.mul 32 u.index 4
  let target ← Strict.mul 32 u.count 4
  let row ← Strict.get oam source
  let chosen ← Strict.set u.chosen target row
  let tile ← Strict.get oam (source + 1)
  let chosen ← Strict.set chosen (target + 1) tile
  let attr ← Strict.get oam (source + 2)
  let chosen ← Strict.set chosen (target + 2) attr
  let column ← Strict.get oam (source + 3)
  let chosen ← Strict.set chosen (target + 3) column
  let count ← Strict.add 8 u.count 1
  pure { u with chosen, count, firstChosen := u.firstChosen || u.index == 0 }

def strictOverflows (u : SpriteUnit) (oam : Ram 256) (line height : Nat) : Strict Bool :=
  if u.index < 64 && 8 ≤ u.count then do
    let source ← Strict.mul 32 u.index 4
    let row ← Strict.get oam source
    pure (covers row line height)
  else pure false

def strictEvaluate (u : SpriteUnit) (oam : Ram 256) (line height : Nat) : Strict SpriteUnit :=
  if u.index < 64 then do
    let source ← Strict.mul 32 u.index 4
    let row ← Strict.get oam source
    let v ← (if u.count < 8 && covers row line height then u.strictChoose oam else pure u)
    let index ← Strict.add 8 u.index 1
    pure { v with index }
  else pure u

def strictTake (u : SpriteUnit) (slot : Nat) : Strict SpriteUnit := do
  let source ← Strict.mul 32 slot 4
  let row ← Strict.get u.chosen source
  let tile ← Strict.get u.chosen (source + 1)
  let attr ← Strict.get u.chosen (source + 2)
  let column ← Strict.get u.chosen (source + 3)
  pure { u with row, tile, attr, column, shown := if slot = 0 then u.count else u.shown }

/-- The distance from the top of the sprite wraps; it is not looked at in a slot without an
entry. -/
def strictPatternAddress (u : SpriteUnit) (tall : Bool) (table line slot : Nat) : Strict Nat :=
  let filled := slot < u.count
  let flip := filled && Byte.has u.attr 0x80
  let row := if filled then (line + 256 - u.row.toNat) % 16 else 0
  let tile := u.tile.toNat
  if tall then do
    let row ← (if flip then Strict.sub 15 row else pure row)
    let tile ← Strict.add 16 (tile / 2 * 2) (row / 8)
    let a ← Strict.add 16 (u.tile.toNat % 2 * 0x1000) (tile * 16)
    Strict.add 16 a (row % 8)
  else do
    let row ← (if flip then Strict.sub 7 (row % 8) else pure (row % 8))
    let a ← Strict.add 16 table (tile * 16)
    Strict.add 16 a row

def strictModifySlot (u : SpriteUnit) (slot : Nat) (f : Sprite → Sprite) : Strict SpriteUnit := do
  let s ← Strict.get u.slots slot
  let slots ← Strict.set u.slots slot (f s)
  pure { u with slots }

def strictFirstSolid (slots : Vector Sprite 8) (i : Nat) : (n : Nat) → Strict (Option Sprite)
  | 0 => pure none
  | n + 1 => do
    let s ← Strict.get slots i
    if s.solid then pure (some s) else strictFirstSolid slots (i + 1) n

def strictAdvanceFirst (slots : Vector Sprite 8) : (n : Nat) → Strict (Vector Sprite 8)
  | 0 => pure slots
  | n + 1 => do
    let s ← Strict.get slots n
    let s ← s.strictAdvance
    let slots ← Strict.set slots n s
    strictAdvanceFirst slots n

variable {u : SpriteUnit}

theorem strictClear_ok (u : SpriteUnit) {i : Nat} (h : i < 32) :
    u.strictClear i = .ok (u.clear i) := by
  rw [strictClear, Strict.set_write _ _ h]
  rfl

theorem strictChoose_ok (oam : Ram 256) (hi : u.index < 64) (hc : u.count < 8) :
    u.strictChoose oam = .ok (u.choose oam) := by
  simp only [strictChoose, Strict.mul_ok (show u.index * 4 < 2 ^ 32 by omega),
    Strict.mul_ok (show u.count * 4 < 2 ^ 32 by omega), Strict.ok_bind]
  rw [Strict.get_read oam (by omega), Strict.ok_bind, Strict.set_write _ _ (by omega),
    Strict.ok_bind, Strict.get_read oam (by omega), Strict.ok_bind,
    Strict.set_write _ _ (by omega), Strict.ok_bind, Strict.get_read oam (by omega),
    Strict.ok_bind, Strict.set_write _ _ (by omega), Strict.ok_bind,
    Strict.get_read oam (by omega), Strict.ok_bind, Strict.set_write _ _ (by omega),
    Strict.ok_bind, Strict.add_ok (by omega), Strict.ok_bind]
  rfl

theorem strictOverflows_ok (u : SpriteUnit) (oam : Ram 256) (line height : Nat) :
    u.strictOverflows oam line height = .ok (u.overflows oam line height) := by
  unfold strictOverflows overflows
  cases h : u.index < 64 && 8 ≤ u.count
  · rfl
  · rw [Bool.and_eq_true, decide_eq_true_eq] at h
    rw [if_pos rfl, Strict.mul_ok (by omega), Strict.ok_bind, Strict.get_read oam (by omega)]
    rfl

theorem strictEvaluate_ok (u : SpriteUnit) (oam : Ram 256) (line height : Nat) :
    u.strictEvaluate oam line height = .ok (u.evaluate oam line height) := by
  unfold strictEvaluate evaluate
  dsimp only
  split_ifs with hi hc
  · rw [Strict.mul_ok (by omega), Strict.ok_bind, Strict.get_read oam (by omega), Strict.ok_bind,
      if_pos hc, Strict.add_ok (by omega)]
    rw [Bool.and_eq_true, decide_eq_true_eq] at hc
    rw [strictChoose_ok oam hi hc.1]
    rfl
  · rw [Strict.mul_ok (by omega), Strict.ok_bind, Strict.get_read oam (by omega), Strict.ok_bind,
      if_neg hc, Strict.add_ok (by omega)]
    rfl
  · rfl

theorem strictTake_ok (u : SpriteUnit) {slot : Nat} (h : slot < 8) :
    u.strictTake slot = .ok (u.take slot) := by
  rw [strictTake, Strict.mul_ok (by omega), Strict.ok_bind, Strict.get_read _ (by omega),
    Strict.ok_bind, Strict.get_read _ (by omega), Strict.ok_bind, Strict.get_read _ (by omega),
    Strict.ok_bind, Strict.get_read _ (by omega)]
  rfl

theorem patternAddress_lt (u : SpriteUnit) (tall : Bool) {table : Nat} (ht : table ≤ 0x1000)
    (line slot : Nat) : u.patternAddress tall table line slot < 0x1FF8 := by
  have := u.tile.toNat_lt
  unfold patternAddress
  dsimp only
  split_ifs <;> omega

theorem strictPatternAddress_ok (u : SpriteUnit) (tall : Bool) {table : Nat}
    (ht : table ≤ 0x1000) (line slot : Nat) :
    u.strictPatternAddress tall table line slot = .ok (u.patternAddress tall table line slot) := by
  have := u.tile.toNat_lt
  unfold strictPatternAddress patternAddress
  dsimp only
  generalize hrow : (if slot < u.count then (line + 256 - u.row.toNat) % 16 else 0) = row
  have hlt : row < 16 := by
    rw [← hrow]
    split_ifs <;> omega
  cases tall <;> cases decide (slot < u.count) && Byte.has u.attr 0x80 <;>
    simp only [Bool.false_eq_true, if_true, if_false]
  · rw [Strict.pure_eq, Strict.ok_bind, Strict.add_ok (by omega), Strict.ok_bind,
      Strict.add_ok (by omega)]
  · rw [Strict.sub_ok (by omega), Strict.ok_bind, Strict.add_ok (by omega), Strict.ok_bind,
      Strict.add_ok (by omega)]
  · rw [Strict.pure_eq, Strict.ok_bind, Strict.add_ok (by omega), Strict.ok_bind,
      Strict.add_ok (by omega), Strict.ok_bind, Strict.add_ok (by omega)]
  · rw [Strict.sub_ok (by omega), Strict.ok_bind, Strict.add_ok (by omega), Strict.ok_bind,
      Strict.add_ok (by omega), Strict.ok_bind, Strict.add_ok (by omega)]

theorem strictModifySlot_ok (u : SpriteUnit) {slot : Nat} (h : slot < 8) (f : Sprite → Sprite) :
    u.strictModifySlot slot f = .ok (u.modifySlot slot f) := by
  rw [strictModifySlot, Strict.get_ok _ h, Strict.ok_bind, Strict.set_ok _ _ h]
  simp only [modifySlot, Nat.mod_eq_of_lt h]
  rfl

theorem strictFirstSolid_ok (slots : Vector Sprite 8) (i n : Nat) (h : i + n ≤ 8) :
    strictFirstSolid slots i n = .ok (firstSolid slots i n) := by
  induction n generalizing i with
  | zero => rfl
  | succ n ih =>
    have hi : i < 8 := by omega
    rw [strictFirstSolid, firstSolid, Strict.get_ok slots hi, Strict.ok_bind, dif_pos hi,
      ih (i + 1) (by omega)]
    split_ifs <;> rfl

theorem strictAdvanceFirst_ok (slots : Vector Sprite 8) (n : Nat) (h : n ≤ 8) :
    strictAdvanceFirst slots n = .ok (advanceFirst slots n) := by
  induction n generalizing slots with
  | zero => rfl
  | succ n ih =>
    have hn : n < 8 := h
    rw [strictAdvanceFirst, advanceFirst, Strict.get_ok slots hn, Strict.ok_bind, dif_pos hn,
      Sprite.strictAdvance_ok, Strict.ok_bind, Strict.set_ok slots _ hn, Strict.ok_bind,
      ih _ (by omega)]

end SpriteUnit

/-! The palette. -/

namespace Palette

def strictRead (m : Ram 32) (a : Nat) : Strict UInt8 := Strict.get m (index a)

def strictWrite (m : Ram 32) (a : Nat) (v : UInt8) : Strict (Ram 32) :=
  Strict.set m (index a) (v &&& 0x3F)

def strictRgba (emphasis colour : UInt8) : Strict UInt32 := do
  let base ← Strict.mul 32 emphasis.toNat 64
  let entry ← Strict.add 32 base colour.toNat
  Strict.get shades entry

theorem index_lt (a : Nat) : index a < 32 := by
  unfold index
  split_ifs <;> omega

theorem strictRead_ok (m : Ram 32) (a : Nat) : strictRead m a = .ok (read m a) :=
  Strict.get_read m (index_lt a)

theorem strictWrite_ok (m : Ram 32) (a : Nat) (v : UInt8) :
    strictWrite m a v = .ok (write m a v) :=
  Strict.set_write m _ (index_lt a)

theorem strictRgba_ok {emphasis colour : UInt8} (he : emphasis.toNat < 8)
    (hc : colour.toNat < 64) : strictRgba emphasis colour = .ok (rgba emphasis colour) := by
  rw [strictRgba, Strict.mul_ok (by omega), Strict.ok_bind, Strict.add_ok (by omega),
    Strict.ok_bind, Strict.get_ok _ (by omega), rgba]
  simp only [Nat.mod_eq_of_lt (show emphasis.toNat * 64 + colour.toNat < 512 by omega)]

end Palette

end Famicom.Ppu
