import Famicom.Proofs.Ppu.Drawing
import Famicom.Proofs.Ppu.Foreground
import Famicom.Proofs.Ppu.Status

/-! What the two sprite flags tell about a frame. Overflow tells that some line was asked to show
nine sprites or more; the hit tells that a pixel of entry 0 came to lie on a pixel of the
background. Neither is ever set for another reason, and neither is missed. -/
namespace Famicom.Ppu
variable (m : Nat → UInt8) {p : Ppu}

/-! The dots of a frame, counted from the first one of the line before it. -/

/-- How many dots the coming frame is short of. -/
def cut (p : Ppu) : Nat := if p.frame % 2 = 0 then 1 else 0

def atDot (p : Ppu) (y d : Nat) : Ppu := (dotOver m)^[341 * (y + 1) + d - p.cut] p

theorem cut_le (p : Ppu) : p.cut ≤ 1 := by
  unfold cut
  split_ifs <;> decide

theorem frame_clock (h : p.InFrame) (hp : p.position < 89341) (data : UInt8) :
    (p.clock data).frame = p.frame := by
  obtain ⟨hd, -⟩ := h
  rw [position] at hp
  rw [clock_frame, nextFrame]
  split_ifs
  · rfl
  · rfl
  · omega

theorem frame_iterate (h : p.InFrame) (n : Nat) (hn : p.position + n < 89342) :
    ((dotOver m)^[n] p).frame = p.frame := by
  induction n with
  | zero => rfl
  | succ n ih =>
    have hq := position_iterate m h n (by omega)
    rw [Function.iterate_succ_apply', dotOver, frame_clock (h.iterate m n) (by omega),
      ih (by omega)]

section Frame
variable (hs : p.scanline = 261) (hd : p.dot = 0) (hr : p.rendering)
include hs hd hr

omit hr in
theorem inFrame_of_start : p.InFrame := ⟨by omega, by omega⟩

omit hr in
theorem position_start (n : Nat) (hn : n ≤ 340) :
    ((dotOver m)^[n] p).position = 341 * 261 + n := by
  have hp : p.position = 341 * 261 := by rw [position, hs, hd]
  rw [position_iterate m (inFrame_of_start hs hd) n (by omega), hp]

/-- The line before the frame is always whole, and the frame may begin with its second dot. -/
theorem position_first : ((dotOver m)^[341] p).position = p.cut := by
  have hin := inFrame_of_start hs hd
  have hp : p.position = 341 * 261 := by rw [position, hs, hd]
  have hframe := frame_iterate m hin 340 (by omega)
  obtain ⟨hline, hdot⟩ := (hin.iterate m 340).at_position (y := 261) (d := 340) (by decide)
    (position_start m hs hd 340 (by decide))
  have hrendering := (settled_iterate m p 340).rendering_eq.trans hr
  rw [Function.iterate_succ_apply']
  generalize (dotOver m)^[340] p = q at *
  rw [dotOver, position, clock_scanline, clock_dot, nextScanline, nextDot, hline, hdot, hframe,
    hrendering, cut]
  by_cases heven : p.frame % 2 = 0
  · have hodd : (p.frame + 1) % 2 = 1 := by omega
    simp [heven, hodd]
  · have hodd : ¬(p.frame + 1) % 2 = 1 := by omega
    simp [heven, hodd]

theorem position_frame (n : Nat) (hn : 341 ≤ n) (hlast : n < 341 * 262) :
    ((dotOver m)^[n] p).position + 341 = n + p.cut := by
  have hcut := p.cut_le
  have hfirst := position_first m hs hd hr
  have hn' : n = (n - 341) + 341 := by omega
  rw [hn', Function.iterate_add_apply,
    position_iterate m ((inFrame_of_start hs hd).iterate m 341) _ (by omega), hfirst]
  omega

theorem at_atDot {y d : Nat} (hy : y ≤ 260) (hd1 : 1 ≤ d) (hd340 : d ≤ 340) :
    (p.atDot m y d).scanline = y ∧ (p.atDot m y d).dot = d := by
  have hcut := p.cut_le
  apply ((inFrame_of_start hs hd).iterate m _).at_position hd340
  have hpos := position_frame m hs hd hr (341 * (y + 1) + d - p.cut) (by omega) (by omega)
  omega

end Frame

/-! Overflow. -/

/-- The overflow flag of line `y` counts the lines above it, and of its own the entries that have
been looked at. -/
structure Counting (m : Nat → UInt8) (p q : Ppu) : Prop where
  clear : q.scanline = 261 → 2 ≤ q.dot → q.overflow = false
  line : q.scanline < 240 → (q.overflow = true ↔
    (∃ y < q.scanline, 9 ≤ (p.lineup m).crowd (y + 1) 64) ∨
      9 ≤ (p.lineup m).crowd (q.scanline + 1) (looked q.dot))

theorem nextOverflow_idle {q : Ppu} (h : q.dot < 65 ∨ 256 < q.dot ∨ q.dot % 2 = 0 ∨
    q.scanline = 261) : q.nextOverflow = q.overflow := by
  have hidle : (65 ≤ q.dot && q.dot ≤ 256 && q.scanline != 261 && q.dot % 2 == 1) = false := by
    rw [Bool.eq_false_iff]
    simp only [ne_eq, Bool.and_eq_true, decide_eq_true_eq, bne_iff_ne, beq_iff_eq]
    omega
  rw [nextOverflow, hidle, Bool.false_and, Bool.or_false]

theorem clears_of_line {q : Ppu} (h : q.scanline < 240) : q.clears = false := by
  have hne : q.scanline ≠ 261 := by omega
  simp [clears, hne]

namespace Foreground
variable {m} {q : Ppu}

theorem nextOverflow_eq (h : Foreground m p q) (hl : q.scanline < 240) (h65 : 65 ≤ q.dot)
    (h256 : q.dot ≤ 256) (hodd : q.dot % 2 = 1) : q.nextOverflow = (q.overflow ||
      (looked q.dot < 64 && 8 ≤ (p.lineup m).crowd (q.scanline + 1) (looked q.dot) &&
        (p.lineup m).onLine (q.scanline + 1) (looked q.dot))) := by
  have hline : q.scanline ≠ 261 := by omega
  have hup : q.upcoming = q.scanline + 1 := by rw [upcoming, if_neg hline]
  have hindex := h.index hl (by omega) (by omega)
  have hcount := (h.chose (q.onRenderLine_iff.mpr (.inl hl)) (by omega) (by omega)).count_eq
  have hheight : q.spriteHeight = (p.lineup m).height := by
    rw [spriteHeight, tallSprites, h.settled.ctrl_eq]
    rfl
  have hroom : 8 ≤ q.sprites.count ↔ 8 ≤ (p.lineup m).crowd (q.scanline + 1) (looked q.dot) := by
    rw [hcount, Lineup.length_among, hup]
    omega
  have hoam : q.oam = (p.lineup m).oam := h.settled.oam_eq
  have hshown : (q.scanline != 261) = true := bne_iff_ne.mpr hline
  rw [nextOverflow, SpriteUnit.overflows, hindex, hheight, hoam, SpriteUnit.covers_eq]
  simp only [h65, h256, hodd, hshown, hroom, decide_true, beq_self_eq_true, Bool.and_self,
    Bool.true_and]

end Foreground
namespace Counting
variable {m} {q : Ppu}

theorem start (hs : p.scanline = 261) (hd : p.dot = 0) : Counting m p p where
  clear _ h := by omega
  line h := by omega

theorem clear_next (h : Counting m p q) (hf : Foreground m p q) (hr : p.rendering)
    (hl : (q.dotOver m).scanline = 261) (h2 : 2 ≤ (q.dotOver m).dot) :
    (q.dotOver m).overflow = false := by
  have hw := within_of_next m h2
  rw [hw.scanline_eq] at hl
  rw [hw.dot_eq] at h2
  rw [Ppu.dotOver, clock_overflow]
  by_cases h1 : q.dot = 1
  · simp [clears, hl, h1]
  · rw [if_pos (hf.fetches hr (q.onRenderLine_iff.mpr (.inr hl))), nextOverflow_idle (by omega),
      h.clear hl (by omega), Bool.false_and]

theorem line_next (h : Counting m p q) (hf : Foreground m p q) (hr : p.rendering)
    (hl : (q.dotOver m).scanline < 240) : ((q.dotOver m).overflow = true ↔
      (∃ y < (q.dotOver m).scanline, 9 ≤ (p.lineup m).crowd (y + 1) 64) ∨
        9 ≤ (p.lineup m).crowd ((q.dotOver m).scanline + 1) (looked (q.dotOver m).dot)) := by
  by_cases h340 : q.dot < 340
  · have hw := within_of_lt m h340
    rw [hw.scanline_eq] at hl ⊢
    rw [hw.dot_eq, Ppu.dotOver, clock_overflow, clears_of_line hl, Bool.not_false, Bool.and_true,
      if_pos (hf.fetches hr (q.onRenderLine_iff.mpr (.inl hl))), looked_succ]
    -- Only an odd dot looks at an entry, and there are as many such dots as entries and more.
    by_cases hlook : 65 ≤ q.dot ∧ q.dot ≤ 256 ∧ q.dot % 2 = 1
    · obtain ⟨h65, h256, hodd⟩ := hlook
      rw [hf.nextOverflow_eq hl h65 h256 hodd, Bool.or_eq_true, h.line hl]
      split_ifs with hmore
      · rw [Lineup.crowd_succ, or_assoc]
        simp only [hmore.2.2, decide_true, Bool.true_and, Bool.and_eq_true, decide_eq_true_eq]
        apply or_congr_right
        cases (p.lineup m).onLine (q.scanline + 1) (looked q.dot)
        · simp only [Bool.false_eq_true, and_false, or_false, if_false, Nat.add_zero]
        · simp only [and_true, if_true]
          omega
      · have hdone : ¬looked q.dot < 64 := fun hlt => hmore ⟨hodd, h65, hlt⟩
        simp [hdone]
    · rw [nextOverflow_idle (by omega), h.line hl, if_neg]
      rintro ⟨hodd, h65, hlt⟩
      rw [looked] at hlt
      omega
  · obtain ⟨hs, hd⟩ := upcoming_of_last m hf.inFrame h340
    have hfirst : looked (q.dotOver m).dot = 0 := looked_clear (by omega)
    rw [hs] at hl ⊢
    have hfetch := hf.fetches hr (onRenderLine_of_upcoming hf.inFrame hl)
    have hclears : q.clears = false := by
      have hne : q.dot ≠ 1 := by omega
      simp [clears, hne]
    rw [hfirst, Ppu.dotOver, clock_overflow, if_pos hfetch, nextOverflow_idle (by omega), hclears,
      Bool.not_false, Bool.and_true, upcoming]
    have hnone (y : Nat) : ¬9 ≤ (p.lineup m).crowd y 0 := by simp [Lineup.crowd]
    by_cases hline : q.scanline = 261
    · simp [hline, h.clear hline (by omega), hnone]
    · have hlast : looked q.dot = 64 := by
        rw [looked]
        omega
      rw [upcoming, if_neg hline] at hl
      rw [if_neg hline, h.line (by omega), hlast]
      rw [or_iff_left (hnone _), Nat.exists_lt_succ_right]

theorem dotOver (h : Counting m p q) (hf : Foreground m p q) (hr : p.rendering) :
    Counting m p (q.dotOver m) where
  clear := h.clear_next hf hr
  line := h.line_next hf hr

end Counting

theorem counting_iterate (hs : p.scanline = 261) (hd : p.dot = 0) (hr : p.rendering) (n : Nat) :
    Counting m p ((dotOver m)^[n] p) := by
  induction n with
  | zero => exact Counting.start hs hd
  | succ n ih =>
    rw [Function.iterate_succ_apply']
    exact ih.dotOver (foreground_iterate m hs hd hr n) hr

/-! The hit. -/

theorem hits_iff (q : Ppu) (data : UInt8) : (q.compose data).hits = true ↔
    q.dot - 1 ≠ 255 ∧ q.showsBackground = true ∧ q.showsSprites = true ∧
      ((q.compose data).backgroundPixel (q.dot - 1)).1 ≠ 0 ∧
      ∃ s, (q.compose data).spritePixel (q.dot - 1) = some s ∧ s.first = true := by
  have hdot : (q.compose data).dot = q.dot := by rw [compose_eq]
  have hmask : (q.compose data).mask = q.mask := by rw [compose_eq]
  rw [hits, hdot]
  cases (q.compose data).spritePixel (q.dot - 1) with
  | none => simp [hitsZero]
  | some s =>
    simp only [hitsZero, showsBackground, showsSprites, hmask, Bool.and_eq_true, bne_iff_ne,
      Option.some.injEq, exists_eq_left']
    tauto

def colourAt (p : Ppu) (x y : Nat) : UInt8 :=
  (((p.atDot m y (x + 1)).compose ((p.atDot m y (x + 1)).answer m)).backgroundPixel x).1

/-- In this pixel of the coming frame entry 0 is in front of the other sprites and lies on a pixel
of the background, with both layers shown. -/
structure Touches (p : Ppu) (x y : Nat) : Prop where
  showsBackground : p.showsBackground = true
  showsSprites : p.showsSprites = true
  column_ne : x ≠ 255
  colour_ne : p.colourAt m x y ≠ 0
  unclipped : x < 8 → Byte.has p.mask 0x04 = true
  front : ∃ s, (p.lineup m).front? x y = some s ∧ s.first = true

section Frame
variable (hs : p.scanline = 261) (hd : p.dot = 0) (hr : p.rendering)
include hs hd hr

theorem hits_atDot {x y : Nat} (hx : x < 256) (hy : y < 240) :
    ((p.atDot m y (x + 1)).compose ((p.atDot m y (x + 1)).answer m)).hits = true ↔
      p.Touches m x y := by
  obtain ⟨hline, hdot⟩ := at_atDot m hs hd hr (y := y) (d := x + 1) (by omega) (by omega) (by omega)
  have hfront : p.showsSprites = true →
      ((∃ s, ((p.atDot m y (x + 1)).compose ((p.atDot m y (x + 1)).answer m)).spritePixel x =
          some s ∧ s.first = true) ↔
        (x < 8 → Byte.has p.mask 0x04 = true) ∧
          ∃ s, (p.lineup m).front? x y = some s ∧ s.first = true) := by
    intro hb
    have hf : Foreground m p (p.atDot m y (x + 1)) := foreground_iterate m hs hd hr _
    have hpixel := hf.spritePixel_eq hb (by omega) (by omega)
    rw [hdot, Nat.add_sub_cancel, hline] at hpixel
    split_ifs at hpixel with hclip
    · rw [Option.map_eq_none_iff] at hpixel
      simp [hpixel, hclip]
    · have hshown : x < 8 → Byte.has p.mask 0x04 = true := by simpa using hclip
      rw [← hpixel, and_iff_right hshown]
      cases ((p.atDot m y (x + 1)).compose ((p.atDot m y (x + 1)).answer m)).spritePixel x with
      | none => simp
      | some s => simp [Sprite.pixel]
  have hsettled : Settled p (p.atDot m y (x + 1)) := settled_iterate m p _
  rw [hits_iff, hdot, Nat.add_sub_cancel, hsettled.showsBackground_eq, hsettled.showsSprites_eq]
  constructor
  · rintro ⟨hcolumn, hb, hsprites, hcolour, hs'⟩
    obtain ⟨hclip, hfirst⟩ := (hfront hsprites).mp hs'
    exact ⟨hb, hsprites, hcolumn, hcolour, hclip, hfirst⟩
  · intro h
    exact ⟨h.column_ne, h.showsBackground, h.showsSprites, h.colour_ne,
      (hfront h.showsSprites).mpr ⟨h.unclipped, h.front⟩⟩

/-- Once the flags are cleared, the hit is set by a pixel and never taken back. -/
theorem zeroHit_iterate (n : Nat) (h2 : 2 ≤ n) (hlast : n ≤ 341 * 262) :
    ((dotOver m)^[n] p).zeroHit = true ↔ ∃ k < n, 2 ≤ k ∧ ((dotOver m)^[k] p).visible = true ∧
      (((dotOver m)^[k] p).compose (((dotOver m)^[k] p).answer m)).hits = true := by
  have hin := inFrame_of_start hs hd
  induction n, h2 using Nat.le_induction with
  | base =>
    have hpos := position_start m hs hd 1 (by decide)
    have hclears := (clears_iff (hin.iterate m 1)).mpr hpos
    have hfalse : ((dotOver m)^[2] p).zeroHit = false :=
      cleared_of_clears (f := .zeroHit) (hin.iterate m 1) hclears
    rw [hfalse]
    simp
    omega
  | succ n h2 ih =>
    have hclears : ((dotOver m)^[n] p).clears = false := by
      rw [Bool.eq_false_iff, ne_eq, clears_iff (hin.iterate m n)]
      have hcut := p.cut_le
      by_cases hfirst : n ≤ 340
      · rw [position_start m hs hd n hfirst]
        omega
      · have hpos := position_frame m hs hd hr n (by omega) (by omega)
        omega
    have hbefore : _ ↔ _ := ih (by omega)
    rw [Function.iterate_succ_apply', dotOver, clock_zeroHit, hclears, Bool.not_false,
      Bool.and_true, Bool.or_eq_true, hbefore, Bool.and_eq_true, Nat.exists_lt_succ_right,
      and_iff_right h2]

theorem zeroHit_atDot {x y : Nat} (hx : x < 256) (hy : y < 240) :
    ((p.atDot m y (x + 1)).dotOver m).zeroHit = true ↔
      ∃ x' y', (y' < y ∨ y' = y ∧ x' ≤ x) ∧ x' < 256 ∧ p.Touches m x' y' := by
  have hcut := p.cut_le
  rw [atDot, ← Function.iterate_succ_apply' (dotOver m),
    zeroHit_iterate m hs hd hr _ (by omega) (by omega)]
  constructor
  · rintro ⟨k, hk, -, hvisible, hhits⟩
    simp only [visible, Bool.and_eq_true, decide_eq_true_eq] at hvisible
    obtain ⟨⟨hline, h1⟩, h256⟩ := hvisible
    have hframe : 341 ≤ k := by
      by_contra hstart
      have hpos := position_start m hs hd k (by omega)
      rw [position] at hpos
      omega
    have hpos := position_frame m hs hd hr k hframe (by omega)
    rw [position] at hpos
    have hat : (dotOver m)^[k] p =
        p.atDot m ((dotOver m)^[k] p).scanline (((dotOver m)^[k] p).dot - 1 + 1) := by
      rw [atDot]
      congr 1
      omega
    rw [hat, hits_atDot m hs hd hr (by omega) (by omega)] at hhits
    exact ⟨_, _, by omega, by omega, hhits⟩
  · rintro ⟨x', y', horder, hx', htouches⟩
    have hhits := (hits_atDot m hs hd hr hx' (by omega)).mpr htouches
    obtain ⟨hline, hdot⟩ :=
      at_atDot m hs hd hr (y := y') (d := x' + 1) (by omega) (by omega) (by omega)
    refine ⟨341 * (y' + 1) + (x' + 1) - p.cut, by omega, by omega, ?_, hhits⟩
    change (p.atDot m y' (x' + 1)).visible = true
    rw [visible, hline, hdot]
    simp
    omega

end Frame

/-- The sprite flags of a frame are exact. After the last dot of a line overflow is set just if
that line or one above it has found nine entries of sprite memory or more. After a pixel the hit is
set just if entry 0 touched the background in that pixel or one before it. -/
theorem sprite_flags_exact (hs : p.scanline = 261) (hd : p.dot = 0) (hr : p.rendering) {y : Nat}
    (hy : y < 240) :
    ((p.atDot m y 340).scanline = y ∧ (p.atDot m y 340).dot = 340 ∧
      (((p.atDot m y 340).dotOver m).overflow = true ↔
        ∃ y' ≤ y, 9 ≤ (List.range 64).countP fun i =>
          (p.lineup m).top i ≤ y' && y' - (p.lineup m).top i < p.spriteHeight)) ∧
    ∀ x < 256, (p.atDot m y (x + 1)).scanline = y ∧ (p.atDot m y (x + 1)).dot = x + 1 ∧
      (((p.atDot m y (x + 1)).dotOver m).zeroHit = true ↔
        ∃ x' y', (y' < y ∨ y' = y ∧ x' ≤ x) ∧ x' < 256 ∧ p.Touches m x' y') := by
  constructor
  · obtain ⟨hline, hdot⟩ := at_atDot m hs hd hr (y := y) (d := 340) (by omega) (by decide) (by decide)
    have hcount : Counting m p (p.atDot m y 340) := counting_iterate m hs hd hr _
    have hsettled : Settled p (p.atDot m y 340) := settled_iterate m p _
    have hfetches : (p.atDot m y 340).fetches = true :=
      hsettled.fetches hr (onRenderLine_iff _ |>.mpr (.inl (by omega)))
    refine ⟨hline, hdot, ?_⟩
    rw [dotOver, clock_overflow, clears_of_line (by omega), Bool.not_false, Bool.and_true,
      if_pos hfetches, nextOverflow_idle (by omega), hcount.line (by omega), hline, hdot]
    change (∃ y' < y, 9 ≤ (p.lineup m).crowd (y' + 1) 64) ∨ 9 ≤ (p.lineup m).crowd (y + 1) 64 ↔ _
    rw [← Nat.exists_lt_succ_right]
    simp only [Nat.lt_succ_iff, Lineup.crowd_eq]
    rfl
  · intro x hx
    obtain ⟨hline, hdot⟩ :=
      at_atDot m hs hd hr (y := y) (d := x + 1) (by omega) (by omega) (by omega)
    exact ⟨hline, hdot, zeroHit_atDot m hs hd hr hx hy⟩

/-- Entry 0 is at the right edge below line 10, and all others are at the top. -/
def edged : Ppu := (((({} : Ppu).writeOam 10).writeOam 3).writeOam 0x40).writeOam 250

def touched : Ppu := edged.switchOn striped (341 * 261) 0x1E

theorem touched_at : touched.scanline = 261 ∧ touched.dot = 0 := by
  apply switchOn_at striped 0x1E (p := edged) ⟨Nat.zero_le _, Nat.zero_le _⟩ <;> decide

theorem touched_settled : Settled { edged with mask := 0x1E } touched :=
  settled_switchOn striped 0x1E edged

theorem touches_touched : touched.Touches striped 250 13 := by
  obtain ⟨hs, hd⟩ := touched_at
  obtain ⟨hctrl, hmask, ht, hx, -⟩ := touched_settled
  have hb : touched.showsBackground = true := by rw [showsBackground, hmask]; decide
  have hr : touched.rendering = true := rendering_of_background hb
  have hy : touched.t.coarseY ≤ 29 := by rw [ht]; decide
  have hfine : touched.fineX.toNat < 8 := by rw [hx]; decide
  have hdraw : Drawing striped touched (touched.atDot striped 13 251) :=
    drawing_iterate striped hs hd hb hy _
  obtain ⟨hline, hdot⟩ :=
    at_atDot striped hs hd hr (y := 13) (d := 251) (by decide) (by decide) (by decide)
  have hpixel := hdraw.backgroundPixel_eq hb hfine (by omega) (by omega) (by omega)
  refine ⟨hb, ?_, by decide, ?_, by decide, ?_⟩
  · rw [showsSprites, hmask]
    decide
  · rw [hline, hdot, backgroundTable, hctrl, ht, hx] at hpixel
    rw [colourAt, hpixel]
    decide
  · rw [touched_settled.lineup_eq]
    decide

/-- Line 0 is asked to show 63 sprites, and entry 0 meets the background on its third row. -/
theorem sprite_flags_exact_touched : touched.scanline = 261 ∧ touched.dot = 0 ∧
    touched.rendering ∧ ((touched.atDot striped 0 340).dotOver striped).overflow = true ∧
    ((touched.atDot striped 13 251).dotOver striped).zeroHit = true := by
  obtain ⟨hs, hd⟩ := touched_at
  have hr : touched.rendering = true := rendering_of_background touches_touched.showsBackground
  have hoverflow := (sprite_flags_exact striped hs hd hr (by decide : 0 < 240)).1.2.2
  have hhit := ((sprite_flags_exact striped hs hd hr (by decide : 13 < 240)).2 250 (by decide)).2.2
  refine ⟨hs, hd, hr, hoverflow.mpr ⟨0, le_rfl, ?_⟩,
    hhit.mpr ⟨250, 13, .inr ⟨rfl, le_rfl⟩, by decide, touches_touched⟩⟩
  rw [touched_settled.lineup_eq, spriteHeight, tallSprites, touched_settled.ctrl_eq]
  decide

end Famicom.Ppu
