import Famicom.Ppu
import Mathlib.Tactic.IntervalCases
import Mathlib.Tactic.SplitIfs

/-! What one dot of the picture unit changes. The background goes its own way, and so do the
sprites: each has its next value here as a function of the few fields that it depends on, and a dot
is its argument with these in place. What the processor wrote, sprite memory and palette memory
among it, stays as it was. -/
namespace Famicom.Ppu

theorem gathers_of (d : Nat) (h : 2 ≤ d ∧ d ≤ 257 ∨ 321 ≤ d ∧ d ≤ 337) : gathers d = true := by
  simpa [gathers] using h

theorem not_gathers_of (d : Nat) (h : d ≤ 1 ∨ 258 ≤ d ∧ d ≤ 320 ∨ 338 ≤ d) :
    gathers d = false := by
  simp [gathers]
  omega

/-! The background. -/

def Background.gather (b : Background) (shows : Bool) (v : Scroll) (phase : Nat) (data : UInt8) :
    Background :=
  let b := if shows then b.shift else b
  match phase with
  | 0 => { b.load with tile := data }
  | 2 => { b with attr := v.attributeBits data }
  | 4 => { b with lo := data }
  | 6 => { b with hi := data }
  | _ => b

def gathered (p : Ppu) (data : UInt8) : Background :=
  p.background.gather p.showsBackground p.v ((p.dot - 1) % 8) data

theorem gather_eq (p : Ppu) (data : UInt8) : p.gather data =
    { p with
      background := p.gathered data
      v := if (p.dot - 1) % 8 = 7 then p.v.stepX else p.v } := by
  have hr : (p.dot - 1) % 8 < 8 := Nat.mod_lt _ (by decide)
  unfold gather gathered Background.gather
  generalize hd : (p.dot - 1) % 8 = r at hr
  cases p.showsBackground <;> interval_cases r <;> simp [hd]

def nextBackground (p : Ppu) (data : UInt8) : Background :=
  let b := if gathers p.dot then p.gathered data else p.background
  if p.dot = 257 then b.load
  else if p.dot = 338 || p.dot = 340 then { b with tile := data }
  else b

def nextScroll (p : Ppu) : Scroll :=
  let v := if gathers p.dot && (p.dot - 1) % 8 = 7 then p.v.stepX else p.v
  if p.dot = 256 then v.stepY
  else if p.dot = 257 then v.copyX p.t
  else if p.scanline = 261 && 280 ≤ p.dot && p.dot ≤ 304 then v.copyY p.t
  else v

theorem backgroundDot_eq (p : Ppu) (data : UInt8) : p.backgroundDot data =
    { p with background := p.nextBackground data, v := p.nextScroll } := by
  have hg : (if gathers p.dot then p.gather data else p) = { p with
      background := if gathers p.dot then p.gathered data else p.background
      v := if gathers p.dot && (p.dot - 1) % 8 = 7 then p.v.stepX else p.v } := by
    cases gathers p.dot
    · rfl
    · simp [gather_eq]
  unfold backgroundDot nextBackground nextScroll
  dsimp only
  rw [hg]
  dsimp only
  by_cases h256 : p.dot = 256
  · simp [h256]
  by_cases h257 : p.dot = 257
  · simp [h257]
  by_cases ht : p.dot = 338 ∨ p.dot = 340
  · have hy : ¬p.dot ≤ 304 := by omega
    simp [h256, h257, ht, hy]
  · simp only [h256, h257, ht, Bool.or_eq_true, decide_eq_true_eq, if_false]
    cases hy : p.scanline = 261 && 280 ≤ p.dot && p.dot ≤ 304
    · simp only [Bool.false_eq_true, if_false]
    · simp only [if_true]

/-! The sprites. -/

def chosen (p : Ppu) : SpriteUnit :=
  if p.dot = 0 then p.sprites
  else if p.dot ≤ 64 then
    if p.dot = 1 then p.sprites.begin
    else if p.dot % 2 = 0 then p.sprites.clear (p.dot / 2 - 1)
    else p.sprites
  else if p.dot ≤ 256 && p.scanline != 261 && p.dot % 2 == 1 then
    p.sprites.evaluate p.oam p.scanline p.spriteHeight
  else p.sprites

def SpriteUnit.fetch (u : SpriteUnit) (phase slot : Nat) (data : UInt8) : SpriteUnit :=
  match phase with
  | 0 => u.take slot
  | 4 => u.loadLo slot data
  | 6 => u.loadHi slot data
  | 7 => u.place slot
  | _ => u

def fetched (p : Ppu) (data : UInt8) : SpriteUnit :=
  p.sprites.fetch ((p.dot - 257) % 8) (slotOf p.dot) data

/-- Sprites are chosen up to dot 256, and fetched after it. -/
def nextSprites (p : Ppu) (data : UInt8) : SpriteUnit :=
  if 257 ≤ p.dot && p.dot ≤ 320 then p.fetched data else p.chosen

def nextOverflow (p : Ppu) : Bool :=
  p.overflow || (65 ≤ p.dot && p.dot ≤ 256 && p.scanline != 261 && p.dot % 2 == 1 &&
    p.sprites.overflows p.oam p.scanline p.spriteHeight)

theorem chooseDot_eq (p : Ppu) : p.chooseDot =
    { p with overflow := p.nextOverflow, sprites := p.chosen } := by
  unfold chooseDot nextOverflow chosen
  dsimp only
  by_cases h0 : p.dot = 0
  · have h65 : ¬65 ≤ p.dot := by omega
    rw [if_pos h0, if_pos h0]
    simp only [h65, decide_false, Bool.false_and, Bool.or_false]
  by_cases h64 : p.dot ≤ 64
  · have h65 : ¬65 ≤ p.dot := by omega
    simp only [h0, h64, h65, if_true, if_false, decide_false, Bool.false_and, Bool.or_false]
    split_ifs <;> rfl
  · have h65 : 65 ≤ p.dot := by omega
    simp only [h0, h64, h65, if_false, decide_true, Bool.true_and]
    split_ifs with h
    · simp [h]
    · simp [h]

theorem spriteFetchDot_eq (p : Ppu) (data : UInt8) : p.spriteFetchDot data =
    { p with oamAddr := 0, sprites := p.fetched data } := by
  have hr : (p.dot - 257) % 8 < 8 := Nat.mod_lt _ (by decide)
  unfold spriteFetchDot fetched SpriteUnit.fetch
  generalize hd : (p.dot - 257) % 8 = r at hr
  interval_cases r <;> simp [hd]

theorem chosen_of_fetch (p : Ppu) (h : 257 ≤ p.dot) : p.chosen = p.sprites := by
  have h0 : p.dot ≠ 0 := by omega
  have h64 : ¬p.dot ≤ 64 := by omega
  have h256 : ¬p.dot ≤ 256 := by omega
  simp [chosen, h0, h64, h256]

/-! The sprites take no notice of the background, and neither of the two of the flags. -/

theorem chosen_background (p : Ppu) (b : Background) (v : Scroll) :
    { p with background := b, v := v }.chosen = p.chosen := rfl

theorem nextOverflow_background (p : Ppu) (b : Background) (v : Scroll) :
    { p with background := b, v := v }.nextOverflow = p.nextOverflow := rfl

theorem fetched_background (p : Ppu) (b : Background) (v : Scroll) (o : Bool) (data : UInt8) :
    { p with background := b, v := v, overflow := o }.fetched data = p.fetched data := rfl

theorem nextBackground_flags (p : Ppu) (a b c : Bool) (data : UInt8) :
    { p with vblank := a, zeroHit := b, overflow := c }.nextBackground data =
      p.nextBackground data := rfl

theorem nextScroll_flags (p : Ppu) (a b c : Bool) :
    { p with vblank := a, zeroHit := b, overflow := c }.nextScroll = p.nextScroll := rfl

theorem nextSprites_flags (p : Ppu) (a b c : Bool) (data : UInt8) :
    { p with vblank := a, zeroHit := b, overflow := c }.nextSprites data = p.nextSprites data := rfl

theorem renderDot_eq (p : Ppu) (data : UInt8) : p.renderDot data =
    { p with
      background := p.nextBackground data
      v := p.nextScroll
      overflow := p.nextOverflow
      oamAddr := if 257 ≤ p.dot && p.dot ≤ 320 then 0 else p.oamAddr
      sprites := p.nextSprites data } := by
  unfold renderDot nextSprites
  dsimp only
  rw [backgroundDot_eq, chooseDot_eq, spriteFetchDot_eq]
  dsimp only
  rw [chosen_background, nextOverflow_background]
  cases h : 257 ≤ p.dot && p.dot ≤ 320
  · simp only [Bool.false_eq_true, if_false]
  · have hd : 257 ≤ p.dot := by
      simp only [Bool.and_eq_true, decide_eq_true_eq] at h
      exact h.1
    simp only [if_true]
    -- The fetch finds the sprites as the dot did.
    rw [p.chosen_of_fetch hd, fetched_background]

/-! The whole dot. -/

def fetches (p : Ppu) : Bool := p.rendering && p.onRenderLine

def visible (p : Ppu) : Bool := p.scanline < 240 && 1 ≤ p.dot && p.dot ≤ 256

def clears (p : Ppu) : Bool := p.scanline = 261 && p.dot = 1

theorem nextOverflow_of_clears (p : Ppu) (h : p.clears) : p.nextOverflow = p.overflow := by
  simp only [clears, Bool.and_eq_true, decide_eq_true_eq] at h
  simp [nextOverflow, h.2]

def Background.address? (b : Background) (table : Nat) (v : Scroll) (phase : Nat) : Option Nat :=
  match phase with
  | 0 => some v.tileAddress
  | 2 => some v.attributeAddress
  | 4 => some (b.patternAddress table v.fineY)
  | 6 => some (b.patternAddress table v.fineY + 8)
  | _ => none

theorem fetch?_of_gathers (p : Ppu) (hf : p.fetches) (hg : gathers p.dot) :
    p.fetch? = p.background.address? p.backgroundTable p.v ((p.dot - 1) % 8) := by
  simp only [fetches] at hf
  simp only [fetch?, hf, hg, Bool.not_true, Bool.false_eq_true, if_true, if_false]
  rfl

theorem compose_eq (p : Ppu) (data : UInt8) : p.compose data =
    { p with
      vblank := p.vblank && !p.clears
      zeroHit := p.zeroHit && !p.clears
      overflow := (if p.fetches then p.nextOverflow else p.overflow) && !p.clears
      background := if p.fetches then p.nextBackground data else p.background
      v := if p.fetches then p.nextScroll else p.v
      oamAddr := if p.fetches && (257 ≤ p.dot && p.dot ≤ 320) then 0 else p.oamAddr
      sprites := if p.fetches then p.nextSprites data else p.sprites } := by
  unfold compose
  dsimp only
  have hfetches : (p.rendering && p.onRenderLine) = p.fetches := rfl
  have hclears : (decide (p.scanline = 261) && decide (p.dot = 1)) = p.clears := rfl
  rw [hfetches, hclears]
  cases hc : p.clears <;> cases hf : p.fetches <;>
    simp only [Bool.false_eq_true, if_true, if_false, Bool.not_true, Bool.not_false,
      Bool.and_true, Bool.and_false, Bool.false_and, Bool.true_and, renderDot_eq]
  have ho : { p with vblank := false, zeroHit := false, overflow := false }.nextOverflow = false :=
    nextOverflow_of_clears _ hc
  rw [nextBackground_flags, nextScroll_flags, nextSprites_flags, ho]

def shown (p : Ppu) : UInt32 :=
  let (colour, palette) := p.backgroundPixel (p.dot - 1)
  p.shade (mix colour palette (p.spritePixel (p.dot - 1)))

/-- Whether the pixel of a dot is one of the first sprite on the background. -/
def hits (p : Ppu) : Bool :=
  p.hitsZero (p.dot - 1) (p.backgroundPixel (p.dot - 1)).1 (p.spritePixel (p.dot - 1))

theorem pixelDot_eq (p : Ppu) : p.pixelDot =
    { p with
      zeroHit := p.zeroHit || p.hits
      back := p.back.setIfInBounds (p.scanline * 256 + (p.dot - 1)) p.shown
      sprites := if p.rendering then p.sprites.advance else p.sprites } := by
  unfold pixelDot
  dsimp only
  cases h : p.rendering
  · simp only [rendering] at h ⊢
    simp only [h, Bool.false_eq_true, if_false]
    rfl
  · simp only [rendering] at h ⊢
    simp only [h, if_true]
    rfl

/-! The position. -/

def nextDot (p : Ppu) (rendering : Bool) : Nat :=
  if p.dot < 340 then p.dot + 1
  else if p.scanline < 261 then 0
  else if rendering && (p.frame + 1) % 2 == 1 then 1 else 0

def nextScanline (p : Ppu) : Nat :=
  if p.dot < 340 then p.scanline else if p.scanline < 261 then p.scanline + 1 else 0

def nextFrame (p : Ppu) : Nat :=
  if p.dot < 340 then p.frame else if p.scanline < 261 then p.frame else p.frame + 1

theorem advance_eq (p : Ppu) (rendering : Bool) : p.advance rendering =
    { p with
      dot := p.nextDot rendering
      scanline := p.nextScanline
      frame := p.nextFrame } := by
  unfold advance nextDot nextScanline nextFrame
  dsimp only
  split_ifs <;> rfl

def finishes (p : Ppu) : Bool := p.scanline = 241 && p.dot = 1

def drawn (p : Ppu) (data : UInt8) : Screen :=
  if p.visible then p.back.setIfInBounds (p.scanline * 256 + (p.dot - 1)) (p.compose data).shown
  else p.back

/-- A dot leaves alone what only the processor writes. -/
theorem clock_eq (p : Ppu) (data : UInt8) : p.clock data =
    { p with
      vblank := p.finishes || (p.compose data).vblank
      zeroHit := (p.compose data).zeroHit || (p.visible && (p.compose data).hits)
      overflow := (p.compose data).overflow
      background := (p.compose data).background
      v := (p.compose data).v
      oamAddr := (p.compose data).oamAddr
      sprites :=
        if p.visible && p.rendering then (p.compose data).sprites.advance
        else (p.compose data).sprites
      dot := p.nextDot p.rendering
      scanline := p.nextScanline
      frame := p.nextFrame
      frameReady := p.finishes || p.frameReady
      back := if p.finishes then p.front else p.drawn data
      front := if p.finishes then p.drawn data else p.front } := by
  have hpixel : (if p.visible then (p.compose data).pixelDot else p.compose data) =
      { p.compose data with
        zeroHit := (p.compose data).zeroHit || (p.visible && (p.compose data).hits)
        back := p.drawn data
        sprites :=
          if p.visible && p.rendering then (p.compose data).sprites.advance
          else (p.compose data).sprites } := by
    unfold drawn
    cases p.visible
    · simp only [Bool.false_eq_true, if_false, Bool.false_and, Bool.or_false]
      rw [compose_eq]
    · simp only [if_true, Bool.true_and, pixelDot_eq]
      rw [compose_eq]
      rfl
  unfold clock
  dsimp only
  have hvisible : (decide (p.scanline < 240) && decide (1 ≤ p.dot) && decide (p.dot ≤ 256)) =
      p.visible := rfl
  have hfinishes : (decide (p.scanline = 241) && decide (p.dot = 1)) = p.finishes := rfl
  rw [hvisible, hfinishes, hpixel, advance_eq, compose_eq]
  cases p.finishes
  · simp only [Bool.false_eq_true, if_false, Bool.false_or]
    rfl
  · simp only [if_true, Bool.true_or, finish]
    rfl

variable (p : Ppu) (data : UInt8)

@[simp] theorem clock_ctrl : (p.clock data).ctrl = p.ctrl := by rw [clock_eq]
@[simp] theorem clock_mask : (p.clock data).mask = p.mask := by rw [clock_eq]
@[simp] theorem clock_t : (p.clock data).t = p.t := by rw [clock_eq]
@[simp] theorem clock_fineX : (p.clock data).fineX = p.fineX := by rw [clock_eq]
@[simp] theorem clock_oam : (p.clock data).oam = p.oam := by rw [clock_eq]
@[simp] theorem clock_dot : (p.clock data).dot = p.nextDot p.rendering := by rw [clock_eq]
@[simp] theorem clock_scanline : (p.clock data).scanline = p.nextScanline := by rw [clock_eq]
@[simp] theorem clock_frame : (p.clock data).frame = p.nextFrame := by rw [clock_eq]

theorem compose_background : (p.compose data).background =
    if p.fetches then p.nextBackground data else p.background := by
  rw [compose_eq]

theorem clock_background : (p.clock data).background =
    if p.fetches then p.nextBackground data else p.background := by
  rw [clock_eq, ← compose_background]

theorem clock_v : (p.clock data).v = if p.fetches then p.nextScroll else p.v := by
  rw [clock_eq, compose_eq]

theorem compose_sprites : (p.compose data).sprites =
    if p.fetches then p.nextSprites data else p.sprites := by
  rw [compose_eq]

theorem clock_sprites : (p.clock data).sprites =
    if p.visible && p.rendering then (p.compose data).sprites.advance
    else (p.compose data).sprites := by
  rw [clock_eq]

theorem clip_eq {α : Type} (x : Nat) (left : Bool) (shown clipped : α) :
    (if 8 ≤ x || left then shown else clipped) =
      if x < 8 ∧ left = false then clipped else shown := by
  cases left
  · by_cases hx : x < 8
    · simp [hx]
    · simp [hx, Nat.not_lt.mp hx]
  · simp

theorem compose_backgroundPixel (h : p.showsBackground = true) (x : Nat) :
    (p.compose data).backgroundPixel x =
      if x < 8 ∧ Byte.has p.mask 0x02 = false then (0, 0)
      else
        ((p.compose data).background.colour p.fineX,
          (p.compose data).background.palette p.fineX) := by
  rw [← clip_eq]
  have hpixel : (p.compose data).backgroundPixel x =
      if p.showsBackground && (8 ≤ x || Byte.has p.mask 0x02) then
        ((p.compose data).background.colour p.fineX,
          (p.compose data).background.palette p.fineX)
      else (0, 0) := by
    rw [compose_eq]
    rfl
  rw [hpixel, h, Bool.true_and]

theorem compose_spritePixel (h : p.showsSprites = true) (x : Nat) :
    (p.compose data).spritePixel x =
      if x < 8 ∧ Byte.has p.mask 0x04 = false then none
      else (p.compose data).sprites.winner := by
  rw [← clip_eq]
  have hpixel : (p.compose data).spritePixel x =
      if p.showsSprites && (8 ≤ x || Byte.has p.mask 0x04) then (p.compose data).sprites.winner
      else none := by
    rw [compose_eq]
    rfl
  rw [hpixel, h, Bool.true_and]

end Famicom.Ppu
