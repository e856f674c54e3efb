import Famicom.Proofs.Ppu.StrictParts

/-! A dot of the picture unit, checked step by step. Where a part needs a bound on what the parts
before it left, it is the well-formedness of the state between them. -/
namespace Famicom.Ppu

/-! The parts of a dot. -/

def strictGather (p : Ppu) (data : UInt8) : Strict Ppu := do
  let phase ← Strict.sub p.dot 1
  let p := if p.showsBackground then { p with background := p.background.shift } else p
  match phase % 8 with
  | 0 => pure { p with background := { p.background.load with tile := data } }
  | 2 => pure { p with background.attr := p.v.attributeBits data }
  | 4 => pure { p with background.lo := data }
  | 6 => pure { p with background.hi := data }
  | 7 => do
    let v ← p.v.strictStepX
    pure { p with v }
  | _ => pure p

def strictBackgroundDot (p : Ppu) (data : UInt8) : Strict Ppu := do
  let d := p.dot
  let p ← (if gathers d then p.strictGather data else pure p)
  if d = 256 then do
    let v ← p.v.strictStepY
    pure { p with v }
  else if d = 257 then pure { p with background := p.background.load, v := p.v.copyX p.t }
  else if d = 338 || d = 340 then pure { p with background.tile := data }
  else if p.scanline = 261 && 280 ≤ d && d ≤ 304 then pure { p with v := p.v.copyY p.t }
  else pure p

def strictChooseDot (p : Ppu) : Strict Ppu :=
  let d := p.dot
  if d = 0 then pure p
  else if d ≤ 64 then
    if d = 1 then pure { p with sprites := p.sprites.begin }
    else if d % 2 = 0 then do
      let i ← Strict.sub (d / 2) 1
      let sprites ← p.sprites.strictClear i
      pure { p with sprites }
    else pure p
  else if d ≤ 256 && p.scanline != 261 && d % 2 == 1 then do
    let found ← p.sprites.strictOverflows p.oam p.scanline p.spriteHeight
    let sprites ← p.sprites.strictEvaluate p.oam p.scanline p.spriteHeight
    pure { p with overflow := p.overflow || found, sprites }
  else pure p

def strictSpriteFetchDot (p : Ppu) (data : UInt8) : Strict Ppu := do
  let offset ← Strict.sub p.dot 257
  let slot := offset / 8
  let p := { p with oamAddr := 0 }
  match offset % 8 with
  | 0 => do
    let sprites ← p.sprites.strictTake slot
    pure { p with sprites }
  | 4 => do
    let sprites ← p.sprites.strictModifySlot slot fun s => { s with lo := p.sprites.plane slot data }
    pure { p with sprites }
  | 6 => do
    let sprites ← p.sprites.strictModifySlot slot fun s => { s with hi := p.sprites.plane slot data }
    pure { p with sprites }
  | 7 => do
    let sprites ← p.sprites.strictModifySlot slot fun s => { s with
      attr := p.sprites.attr
      wait := p.sprites.column.toNat
      first := slot == 0 && p.sprites.firstChosen }
    pure { p with sprites }
  | _ => pure p

def strictRenderDot (p : Ppu) (data : UInt8) : Strict Ppu := do
  let q ← p.strictBackgroundDot data
  let q ← q.strictChooseDot
  if 257 ≤ p.dot && p.dot ≤ 320 then q.strictSpriteFetchDot data else pure q

def strictBackgroundPixel (p : Ppu) (x : Nat) : Strict (UInt8 × UInt8) :=
  if p.showsBackground && (8 ≤ x || Byte.has p.mask 0x02) then do
    let colour ← p.background.strictColour p.fineX
    let palette ← p.background.strictPalette p.fineX
    pure (colour, palette)
  else pure (0, 0)

def strictSpritePixel (p : Ppu) (x : Nat) : Strict (Option Sprite) :=
  if p.showsSprites && (8 ≤ x || Byte.has p.mask 0x04) then
    SpriteUnit.strictFirstSolid p.sprites.slots 0 p.sprites.shown
  else pure none

def strictShade (p : Ppu) (entry : Nat) : Strict UInt32 := do
  let colour ← Palette.strictRead p.palette entry
  Palette.strictRgba (p.mask >>> 5) (if Byte.has p.mask 0x01 then colour &&& 0x30 else colour)

def strictPixelDot (p : Ppu) : Strict Ppu := do
  let x ← Strict.sub p.dot 1
  let (colour, palette) ← p.strictBackgroundPixel x
  let sprite ← p.strictSpritePixel x
  let rgba ← p.strictShade (mix colour palette sprite)
  let start ← Strict.mul 32 p.scanline 256
  let pixel ← Strict.add 32 start x
  let back ← Strict.set p.back pixel rgba
  let p := { p with zeroHit := p.zeroHit || p.hitsZero x colour sprite, back }
  if p.rendering then do
    let slots ← SpriteUnit.strictAdvanceFirst p.sprites.slots p.sprites.shown
    pure { p with sprites.slots := slots }
  else pure p

/-- The count of frames has room for any run. -/
def strictAdvance (p : Ppu) (rendering : Bool) : Strict Ppu := do
  let dot ← Strict.add 16 p.dot 1
  if p.dot < 340 then pure { p with dot }
  else do
    let scanline ← Strict.add 16 p.scanline 1
    if p.scanline < 261 then pure { p with dot := 0, scanline }
    else
      let frame := p.frame + 1
      pure { p with dot := if rendering && frame % 2 == 1 then 1 else 0, scanline := 0, frame }

def strictCompose (p : Ppu) (data : UInt8) : Strict Ppu :=
  let q :=
    if p.scanline = 261 && p.dot = 1 then
      { p with vblank := false, zeroHit := false, overflow := false }
    else p
  if p.rendering && p.onRenderLine then q.strictRenderDot data else pure q

def strictClock (p : Ppu) (data : UInt8) : Strict Ppu := do
  let q ← p.strictCompose data
  let q ← (if p.scanline < 240 && 1 ≤ p.dot && p.dot ≤ 256 then q.strictPixelDot else pure q)
  let q := if p.scanline = 241 && p.dot = 1 then q.finish else q
  q.strictAdvance p.rendering

def strictFetch? (p : Ppu) : Strict (Option Nat) :=
  let d := p.dot
  if !(p.rendering && p.onRenderLine) then pure none
  else if gathers d then do
    let phase ← Strict.sub d 1
    match phase % 8 with
    | 0 => pure (some p.v.tileAddress)
    | 2 => pure (some p.v.attributeAddress)
    | 4 => do
      let low ← p.background.strictPatternAddress p.backgroundTable p.v.fineY
      pure (some low)
    | 6 => do
      let low ← p.background.strictPatternAddress p.backgroundTable p.v.fineY
      let high ← Strict.add 16 low 8
      pure (some high)
    | _ => pure none
  else if 257 ≤ d && d ≤ 320 then do
    let offset ← Strict.sub d 257
    match offset % 8 with
    | 4 => do
      let low ← p.sprites.strictPatternAddress p.tallSprites p.spriteTable p.scanline (offset / 8)
      pure (some low)
    | 6 => do
      let low ← p.sprites.strictPatternAddress p.tallSprites p.spriteTable p.scanline (offset / 8)
      let high ← Strict.add 16 low 8
      pure (some high)
    | _ => pure none
  else if d = 338 || d = 340 then pure (some p.v.tileAddress)
  else pure none

section Dot
variable {p : Ppu} (data : UInt8)

theorem strictGather_ok (hd : 1 ≤ p.dot) (hv : p.v.raw < 0x8000) :
    p.strictGather data = .ok (p.gather data) := by
  have hr : (p.dot - 1) % 8 < 8 := Nat.mod_lt _ (by decide)
  rw [strictGather, Strict.sub_ok hd, Strict.ok_bind]
  unfold gather
  dsimp only
  generalize hq : (if p.showsBackground then { p with background := p.background.shift } else p) = q
  have hqd : q.dot = p.dot := by
    rw [← hq]
    split_ifs <;> rfl
  have hqv : q.v.raw < 0x8000 := by
    rw [← hq]
    split_ifs <;> exact hv
  rw [hqd]
  generalize (p.dot - 1) % 8 = r at hr
  interval_cases r
  case «7» =>
    simp only [Scroll.strictStepX_ok hqv]
    rfl
  all_goals rfl

theorem strictBackgroundDot_ok (hv : p.v.raw < 0x8000) :
    p.strictBackgroundDot data = .ok (p.backgroundDot data) := by
  have hgather : (if gathers p.dot then p.strictGather data else pure p) =
      .ok (if gathers p.dot then p.gather data else p) := by
    split_ifs with hg
    · simp only [gathers, Bool.or_eq_true, Bool.and_eq_true, decide_eq_true_eq] at hg
      exact strictGather_ok data (by omega) hv
    · rfl
  have hq : (if gathers p.dot then p.gather data else p).v.raw < 0x8000 := by
    split_ifs
    · rw [gather_eq]
      dsimp only
      split_ifs
      · exact Scroll.stepX_lt hv
      · exact hv
    · exact hv
  simp only [strictBackgroundDot, backgroundDot, hgather, Strict.ok_bind]
  generalize (if gathers p.dot then p.gather data else p) = q at hq
  rw [Scroll.strictStepY_ok hq]
  split_ifs <;> rfl

theorem strictChooseDot_ok : p.strictChooseDot = .ok p.chooseDot := by
  unfold strictChooseDot chooseDot
  dsimp only
  split_ifs with h0 h64 h1 heven
  · rfl
  · rfl
  · rw [Strict.sub_ok (by omega), Strict.ok_bind, SpriteUnit.strictClear_ok _ (by omega)]
    rfl
  · rfl
  · rw [SpriteUnit.strictOverflows_ok, SpriteUnit.strictEvaluate_ok]
    rfl
  · rfl

theorem strictSpriteFetchDot_ok (hd : 257 ≤ p.dot) (hd' : p.dot ≤ 320) :
    p.strictSpriteFetchDot data = .ok (p.spriteFetchDot data) := by
  have hslot : (p.dot - 257) / 8 < 8 := by omega
  have hr : (p.dot - 257) % 8 < 8 := Nat.mod_lt _ (by decide)
  rw [strictSpriteFetchDot, Strict.sub_ok hd, Strict.ok_bind]
  unfold spriteFetchDot slotOf
  dsimp only
  generalize (p.dot - 257) % 8 = r at hr
  interval_cases r
  case «0» =>
    simp only [SpriteUnit.strictTake_ok _ hslot]
    rfl
  case «4» | «6» | «7» =>
    simp only [SpriteUnit.strictModifySlot_ok _ hslot]
    rfl
  all_goals rfl

theorem strictRenderDot_ok (hv : p.v.raw < 0x8000) :
    p.strictRenderDot data = .ok (p.renderDot data) := by
  have hdot : ((p.backgroundDot data).chooseDot).dot = p.dot := by
    rw [backgroundDot_eq, chooseDot_eq]
  rw [strictRenderDot, strictBackgroundDot_ok data hv, Strict.ok_bind, strictChooseDot_ok,
    Strict.ok_bind, renderDot, hdot]
  split_ifs with h
  · rw [Bool.and_eq_true, decide_eq_true_eq, decide_eq_true_eq, ← hdot] at h
    exact strictSpriteFetchDot_ok data h.1 h.2
  · rfl

theorem strictBackgroundPixel_ok (hx : p.fineX.toNat < 8) (x : Nat) :
    p.strictBackgroundPixel x = .ok (p.backgroundPixel x) := by
  rw [strictBackgroundPixel, backgroundPixel, Background.strictColour_ok _ hx,
    Background.strictPalette_ok _ hx]
  split_ifs <;> rfl

theorem strictSpritePixel_ok (hs : p.sprites.shown ≤ 8) (x : Nat) :
    p.strictSpritePixel x = .ok (p.spritePixel x) := by
  rw [strictSpritePixel, spritePixel, SpriteUnit.strictFirstSolid_ok _ _ _ (by omega)]
  split_ifs <;> rfl

theorem strictShade_ok (hc : ∀ i, (Ram.read p.palette i).toNat < 64) (entry : Nat) :
    p.strictShade entry = .ok (p.shade entry) := by
  have hemphasis : (p.mask >>> 5).toNat < 8 := by
    have := p.mask.toNat_lt
    rw [UInt8.toNat_shiftRight, show (5 : UInt8).toNat % 8 = 5 from rfl, Nat.shiftRight_eq_div_pow]
    omega
  have hcolour : (Palette.read p.palette entry).toNat < 64 := hc _
  rw [strictShade, Palette.strictRead_ok, Strict.ok_bind, shade, Palette.strictRgba_ok hemphasis]
  split_ifs
  · rw [UInt8.toNat_and]
    exact Nat.lt_of_le_of_lt Nat.and_le_left hcolour
  · exact hcolour

theorem strictPixelDot_ok (h : p.WellFormed) (hv : p.visible = true) :
    p.strictPixelDot = .ok p.pixelDot := by
  simp only [visible, Bool.and_eq_true, decide_eq_true_eq] at hv
  obtain ⟨⟨hline, hd⟩, hd'⟩ := hv
  have hshown := h.sprites.shown_le
  have hpixel : p.scanline * 256 + (p.dot - 1) < 61440 := by omega
  have hsum : p.scanline * 256 + (p.dot - 1) < 2 ^ 32 := hpixel.trans (by decide)
  have hstart : p.scanline * 256 < 2 ^ 32 := (Nat.le_add_right _ _).trans_lt hsum
  rw [strictPixelDot, Strict.sub_ok hd, Strict.ok_bind, strictBackgroundPixel_ok h.fineX_lt,
    Strict.ok_bind]
  dsimp only
  rw [strictSpritePixel_ok hshown, Strict.ok_bind, strictShade_ok h.colour_lt, Strict.ok_bind,
    Strict.mul_ok hstart, Strict.ok_bind, Strict.add_ok hsum, Strict.ok_bind,
    Strict.set_setIfInBounds _ _ hpixel, Strict.ok_bind,
    SpriteUnit.strictAdvanceFirst_ok _ _ hshown, pixelDot]
  dsimp only
  split_ifs <;> rfl

theorem strictAdvance_ok (h : p.InFrame) (rendering : Bool) :
    p.strictAdvance rendering = .ok (p.advance rendering) := by
  obtain ⟨hd, hs⟩ := h
  rw [strictAdvance, Strict.add_ok (by omega), Strict.ok_bind, Strict.add_ok (by omega), advance]
  dsimp only
  split_ifs <;> rfl

theorem strictCompose_ok (hv : p.v.raw < 0x8000) :
    p.strictCompose data = .ok (p.compose data) := by
  have hq : (if p.scanline = 261 && p.dot = 1 then
      { p with vblank := false, zeroHit := false, overflow := false } else p).v.raw < 0x8000 := by
    split_ifs <;> exact hv
  unfold strictCompose compose
  dsimp only
  rw [strictRenderDot_ok data hq]
  split_ifs <;> rfl

theorem strictClock_ok (h : p.WellFormed) : p.strictClock data = .ok (p.clock data) := by
  have hq := h.compose data
  have hplace : (p.compose data).scanline = p.scanline ∧ (p.compose data).dot = p.dot := by
    rw [compose_eq]
    exact ⟨rfl, rfl⟩
  have hpixel : (if p.scanline < 240 && 1 ≤ p.dot && p.dot ≤ 256 then
      (p.compose data).strictPixelDot else pure (p.compose data)) =
      .ok (if p.scanline < 240 && 1 ≤ p.dot && p.dot ≤ 256 then (p.compose data).pixelDot
        else p.compose data) := by
    split_ifs with hv
    · rw [← hplace.1, ← hplace.2] at hv
      exact strictPixelDot_ok hq hv
    · rfl
  -- What comes before the advance leaves the place alone.
  have hin : (if p.scanline < 240 && 1 ≤ p.dot && p.dot ≤ 256 then (p.compose data).pixelDot
      else p.compose data).InFrame := by
    split_ifs
    · rw [pixelDot_eq]
      exact ⟨hq.dot_le, hq.scanline_le⟩
    · exact hq.inFrame
  rw [strictClock, strictCompose_ok data h.v_lt, Strict.ok_bind, hpixel, Strict.ok_bind, clock]
  dsimp only
  generalize (if p.scanline < 240 && 1 ≤ p.dot && p.dot ≤ 256 then (p.compose data).pixelDot
    else p.compose data) = q at hin
  rw [strictAdvance_ok]
  split_ifs
  · exact ⟨hin.dot_le, hin.scanline_le⟩
  · exact hin

end Dot

/-! Addresses. Pattern tables end at `$2000` and nametables at `$3000`. -/

section Address
variable (p : Ppu)

theorem backgroundTable_le : p.backgroundTable ≤ 0x1000 := by
  unfold backgroundTable
  split_ifs <;> omega

theorem spriteTable_le : p.spriteTable ≤ 0x1000 := by
  unfold spriteTable
  split_ifs <;> omega

theorem Scroll.tileAddress_lt (s : Scroll) : s.tileAddress < 0x3000 := by
  unfold tileAddress
  omega

theorem Scroll.attributeAddress_lt (s : Scroll) : s.attributeAddress < 0x3000 := by
  have := s.coarseX_lt
  have := s.coarseY_lt
  unfold attributeAddress
  omega

theorem strictFetch?_ok : p.strictFetch? = .ok p.fetch? := by
  have hb := p.background.patternAddress_lt p.backgroundTable_le p.v.fineY_lt
  have hs := p.sprites.patternAddress_lt p.tallSprites p.spriteTable_le p.scanline
  unfold strictFetch? fetch?
  dsimp only
  rw [Background.strictPatternAddress_ok _ p.backgroundTable_le p.v.fineY_lt]
  simp only [SpriteUnit.strictPatternAddress_ok _ _ p.spriteTable_le, Strict.ok_bind]
  split_ifs with hf hg hd hlast
  · rfl
  · simp only [gathers, Bool.or_eq_true, Bool.and_eq_true, decide_eq_true_eq] at hg
    have hr : (p.dot - 1) % 8 < 8 := Nat.mod_lt _ (by decide)
    rw [Strict.sub_ok (by omega), Strict.ok_bind, Strict.add_ok (by omega)]
    generalize (p.dot - 1) % 8 = r at hr
    interval_cases r <;> rfl
  · rw [Bool.and_eq_true, decide_eq_true_eq] at hd
    have hr : (p.dot - 257) % 8 < 8 := Nat.mod_lt _ (by decide)
    have hhigh := Nat.add_lt_add_right (hs ((p.dot - 257) / 8)) 8
    rw [Strict.sub_ok hd.1, Strict.ok_bind, Strict.add_ok (hhigh.trans (by decide))]
    generalize (p.dot - 257) % 8 = r at hr
    interval_cases r <;> rfl
  · rfl
  · rfl

theorem fetch?_lt {a : Nat} (h : p.fetch? = some a) : a < 0x3000 := by
  have hb := p.background.patternAddress_lt p.backgroundTable_le p.v.fineY_lt
  have hs := p.sprites.patternAddress_lt p.tallSprites p.spriteTable_le p.scanline (slotOf p.dot)
  have ht := p.v.tileAddress_lt
  have ha := p.v.attributeAddress_lt
  unfold fetch? at h
  dsimp only at h
  split_ifs at h
  · split at h <;> cases h <;> omega
  · split at h <;> cases h <;> omega
  · cases h
    exact ht

end Address

end Famicom.Ppu
