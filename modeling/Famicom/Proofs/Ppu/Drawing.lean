import Famicom.Proofs.Ppu.Pipeline
import Famicom.Proofs.Ppu.Reach

/-! A frame of background. Between two accesses the pipeline is in step with the place in the
frame: which part of it holds what is told by the line and the dot alone. Each dot keeps it so, and
the pixels of a frame are those of the map, from the place that the frame began at. -/
namespace Famicom.Ppu

/-! The background at the places of a line. -/

section Places
variable {q : Ppu} (data : UInt8)

theorem nextScroll_below (h : q.dot = 256) : q.nextScroll = q.v.stepX.stepY := by
  simp [nextScroll, h, gathers]

theorem nextScroll_return (h : q.dot = 257) : q.nextScroll = q.v.copyX q.t := by
  simp [nextScroll, h]

theorem nextScroll_between (h258 : 258 ≤ q.dot) (h320 : q.dot ≤ 320) : q.nextScroll =
    if q.scanline = 261 ∧ 280 ≤ q.dot ∧ q.dot ≤ 304 then q.v.copyY q.t else q.v := by
  have hg := not_gathers_of q.dot (by omega)
  have h256 : q.dot ≠ 256 := by omega
  have h257 : q.dot ≠ 257 := by omega
  simp [nextScroll, hg, h256, h257, and_assoc]

theorem nextScroll_gathers (hg : gathers q.dot = true) (h : q.dot ≤ 255 ∨ 321 ≤ q.dot) :
    q.nextScroll = if (q.dot - 1) % 8 = 7 then q.v.stepX else q.v := by
  have h256 : q.dot ≠ 256 := by omega
  have h257 : q.dot ≠ 257 := by omega
  simp only [nextScroll, hg, Bool.true_and, decide_eq_true_eq]
  rw [if_neg h256, if_neg h257, if_neg]
  simp only [Bool.and_eq_true, decide_eq_true_eq]
  omega

theorem nextScroll_rest (h : q.dot ≤ 1 ∨ 338 ≤ q.dot) : q.nextScroll = q.v := by
  have hg := not_gathers_of q.dot (by omega)
  have h256 : q.dot ≠ 256 := by omega
  have h257 : q.dot ≠ 257 := by omega
  simp only [nextScroll, hg, Bool.false_and, Bool.false_eq_true, if_false]
  rw [if_neg h256, if_neg h257, if_neg]
  simp only [Bool.and_eq_true, decide_eq_true_eq]
  omega

theorem nextBackground_gathers (h : 2 ≤ q.dot ∧ q.dot ≤ 256 ∨ 321 ≤ q.dot ∧ q.dot ≤ 337) :
    q.nextBackground data = q.gathered data := by
  have hg := gathers_of q.dot (by omega)
  have h257 : q.dot ≠ 257 := by omega
  have ht : ¬(q.dot = 338 ∨ q.dot = 340) := by omega
  simp [nextBackground, hg, h257, ht]

theorem nextBackground_again (h : q.dot = 338 ∨ q.dot = 340) :
    q.nextBackground data = { q.background with tile := data } := by
  have hg := not_gathers_of q.dot (by omega)
  have h257 : q.dot ≠ 257 := by omega
  simp [nextBackground, hg, h, h257]

theorem nextBackground_rest (h : q.dot ≤ 1 ∨ q.dot = 339) :
    q.nextBackground data = q.background := by
  have hg := not_gathers_of q.dot (by omega)
  have h257 : q.dot ≠ 257 := by omega
  have ht : ¬(q.dot = 338 ∨ q.dot = 340) := by omega
  simp [nextBackground, hg, ht, h257]

theorem fetch?_again (hf : q.fetches = true) (h : q.dot = 338 ∨ q.dot = 340) :
    q.fetch? = some q.v.tileAddress := by
  have hg := not_gathers_of q.dot (by omega)
  have h320 : ¬q.dot ≤ 320 := by omega
  simp only [fetches] at hf
  simp [fetch?, hf, hg, h, h320]

end Places

/-! The state of a frame. -/

/-- The row of the map that line `y` shows, where the frame starts from `t`. -/
def lineRow (t : Scroll) (y : Nat) : Nat := (t.row + y) % 480

structure Drawing (m : Nat → UInt8) (p q : Ppu) : Prop where
  settled : Settled p q
  inFrame : q.InFrame
  column : q.onRenderLine → 258 ≤ q.dot → q.dot ≤ 321 → q.v.column = p.t.column
  row : q.onRenderLine → (if q.scanline = 261 then 281 else 257) ≤ q.dot → q.dot ≤ 321 →
    q.v.row = lineRow p.t q.upcoming ∧ q.v.coarseY ≤ 29
  ahead : q.onRenderLine → 322 ≤ q.dot →
    Fetching m p.backgroundTable p.t.column (lineRow p.t q.upcoming) (min (q.dot - 322) 16)
      q.background q.v
  line : q.scanline < 240 → q.dot ≤ 256 →
    Fetching m p.backgroundTable p.t.column (lineRow p.t q.scanline) (max 16 (q.dot + 14))
      q.background q.v

namespace Drawing
variable {m : Nat → UInt8} {p q : Ppu}

theorem fetches (h : Drawing m p q) (hb : p.showsBackground = true)
    (hl : q.onRenderLine = true) : q.fetches = true :=
  h.settled.fetches (rendering_of_background hb) hl

theorem gathered_eq (h : Drawing m p q) (hb : p.showsBackground = true)
    (hl : q.onRenderLine = true) (hg : gathers q.dot = true) {c : Nat}
    (hphase : (q.dot - 1) % 8 = c % 8) :
    q.gathered (q.answer m) = q.background.gather true q.v (c % 8)
      (Background.reply m p.backgroundTable c q.background q.v) := by
  rw [answer, q.fetch?_of_gathers (h.fetches hb hl) hg, Ppu.gathered, h.settled.showsBackground_eq,
    hb, hphase, h.settled.backgroundTable_eq]

/-- A dot that gathers, number `c + 1` of a line that is being fetched. -/
theorem gathered (h : Drawing m p q) (hb : p.showsBackground = true) (hl : q.onRenderLine = true)
    (hg : gathers q.dot = true) {row c : Nat} (hphase : (q.dot - 1) % 8 = (c + 1) % 8)
    (hc : Fetching m p.backgroundTable p.t.column row c q.background q.v) :
    Fetching m p.backgroundTable p.t.column row (c + 1) (q.gathered (q.answer m))
      (if (q.dot - 1) % 8 = 7 then q.v.stepX else q.v) := by
  rw [h.gathered_eq hb hl hg hphase, hphase]
  exact hc.next

theorem fetched_ahead (h : Drawing m p q) (hb : p.showsBackground = true)
    (hl : q.onRenderLine = true) (h338 : 338 ≤ q.dot) :
    Fetching m p.backgroundTable p.t.column (lineRow p.t q.upcoming) 16
      (q.nextBackground (q.answer m)) q.nextScroll := by
  have hlast := h.inFrame.dot_le
  have hcount : min (q.dot - 322) 16 = 16 := by omega
  have hc := h.ahead hl (by omega)
  rw [hcount] at hc
  rw [nextScroll_rest (by omega)]
  by_cases h339 : q.dot = 339
  · rw [nextBackground_rest _ (by omega)]
    exact hc
  · have hagain : q.dot = 338 ∨ q.dot = 340 := by omega
    rw [nextBackground_again _ hagain, answer, fetch?_again (h.fetches hb hl) hagain]
    exact hc.again

/-! One dot, field by field. -/

theorem column_next (h : Drawing m p q) (hb : p.showsBackground = true)
    (hl : (q.dotOver m).onRenderLine = true) (h258 : 258 ≤ (q.dotOver m).dot)
    (h321 : (q.dotOver m).dot ≤ 321) : (q.dotOver m).v.column = p.t.column := by
  have hw := within_of_next m (q := q) (by omega)
  rw [hw.onRenderLine_eq] at hl
  rw [hw.dot_eq] at h258 h321
  rw [Ppu.dotOver, clock_v, if_pos (h.fetches hb hl)]
  by_cases h257 : q.dot = 257
  · rw [nextScroll_return h257, Scroll.column_copyX, h.settled.t_eq]
  · have hc := h.column hl (by omega) (by omega)
    rw [nextScroll_between (by omega) (by omega)]
    split_ifs
    · rw [Scroll.column_copyY, hc]
    · exact hc

/-- On the line before the first the row comes from `t`; on the others it moves down once. -/
theorem row_next (h : Drawing m p q) (hb : p.showsBackground = true) (ht : p.t.coarseY ≤ 29)
    (hl : (q.dotOver m).onRenderLine = true)
    (h257 : (if (q.dotOver m).scanline = 261 then 281 else 257) ≤ (q.dotOver m).dot)
    (h321 : (q.dotOver m).dot ≤ 321) :
    (q.dotOver m).v.row = lineRow p.t (q.dotOver m).upcoming ∧ (q.dotOver m).v.coarseY ≤ 29 := by
  have hw : Within q (q.dotOver m) := within_of_next m (by split_ifs at h257 <;> omega)
  rw [hw.onRenderLine_eq] at hl
  rw [hw.scanline_eq, hw.dot_eq] at h257
  rw [hw.dot_eq] at h321
  rw [hw.upcoming_eq, Ppu.dotOver, clock_v, if_pos (h.fetches hb hl)]
  -- Line 261 takes its row from `t`, a shown line steps to the next one in dot 256.
  by_cases hline : q.scanline = 261
  · rw [if_pos hline] at h257
    rw [nextScroll_between (by omega) (by omega)]
    split_ifs with hcopy
    · rw [Scroll.row_copyY, Scroll.coarseY_copyY, h.settled.t_eq, lineRow, upcoming, if_pos hline,
        Nat.add_zero, Nat.mod_eq_of_lt (p.t.row_lt ht)]
      exact ⟨rfl, ht⟩
    · exact h.row hl (by rw [if_pos hline]; omega) (by omega)
  · rw [if_neg hline] at h257
    by_cases h256 : q.dot = 256
    · have hv := (h.line (by rw [onRenderLine_iff] at hl; omega) (by omega)).points
      have hy : q.v.stepX.coarseY ≤ 29 := by
        rw [Scroll.coarseY_stepX]
        exact hv.coarseY_le
      rw [nextScroll_below h256, Scroll.row_stepY _ hy, Scroll.row_stepX, hv.row_eq, lineRow,
        lineRow, upcoming, if_neg hline]
      exact ⟨by omega, Scroll.coarseY_stepY_le _ hy⟩
    · have hr := h.row hl (by rw [if_neg hline]; omega) (by omega)
      by_cases hret : q.dot = 257
      · rw [nextScroll_return hret, Scroll.row_copyX, Scroll.coarseY_copyX]
        exact hr
      · rw [nextScroll_between (by omega) (by omega), if_neg (by omega)]
        exact hr

theorem ahead_next (h : Drawing m p q) (hb : p.showsBackground = true)
    (hl : (q.dotOver m).onRenderLine = true) (h322 : 322 ≤ (q.dotOver m).dot) :
    Fetching m p.backgroundTable p.t.column (lineRow p.t (q.dotOver m).upcoming)
      (min ((q.dotOver m).dot - 322) 16) (q.dotOver m).background (q.dotOver m).v := by
  have hw := within_of_next m (q := q) (by omega)
  have hlast := (h.inFrame.clock (q.answer m)).dot_le
  rw [hw.onRenderLine_eq] at hl
  have hf := h.fetches hb hl
  rw [← Ppu.dotOver, hw.dot_eq] at hlast
  rw [hw.dot_eq] at h322
  rw [hw.upcoming_eq, hw.dot_eq, Ppu.dotOver, clock_v, clock_background, if_pos hf, if_pos hf]
  -- Dot 321 takes over from `column` and `row`, and from dot 338 on nothing moves.
  by_cases h321 : q.dot = 321
  · have hg := gathers_of q.dot (by omega)
    have hr := h.row hl (by split_ifs <;> omega) (by omega)
    have hv : Points p.t.column (lineRow p.t q.upcoming) 0 q.v := by
      have hlt := p.t.column_lt
      refine ⟨?_, hr.1, hr.2⟩
      rw [h.column hl (by omega) (by omega)]
      omega
    have hcount : min (q.dot + 1 - 322) 16 = 0 := by omega
    have hphase : (q.dot - 1) % 8 = 0 % 8 := by omega
    rw [nextBackground_gathers _ (by omega), nextScroll_gathers hg (by omega), hcount,
      if_neg (by omega), h.gathered_eq hb hl hg hphase]
    exact Fetching.first hv
  by_cases h337 : q.dot ≤ 337
  · have hg := gathers_of q.dot (by omega)
    have hc := h.ahead hl (by omega)
    have hcount : min (q.dot - 322) 16 = q.dot - 322 := by omega
    have hnext : min (q.dot + 1 - 322) 16 = q.dot - 322 + 1 := by
      rw [Nat.sub_add_comm (by omega), Nat.min_eq_left (by omega)]
    rw [hcount] at hc
    rw [nextBackground_gathers _ (by omega), nextScroll_gathers hg (by omega), hnext]
    exact h.gathered hb hl hg (by omega) hc
  · have hcount : min (q.dot + 1 - 322) 16 = 16 := by omega
    rw [hcount]
    exact h.fetched_ahead hb hl (by omega)

theorem line_next (h : Drawing m p q) (hb : p.showsBackground = true)
    (hl : (q.dotOver m).scanline < 240) (h256 : (q.dotOver m).dot ≤ 256) :
    Fetching m p.backgroundTable p.t.column (lineRow p.t (q.dotOver m).scanline)
      (max 16 ((q.dotOver m).dot + 14)) (q.dotOver m).background (q.dotOver m).v := by
  by_cases h340 : q.dot < 340
  · have hw := within_of_lt m h340
    rw [hw.scanline_eq] at hl ⊢
    rw [hw.dot_eq] at h256 ⊢
    have hline : q.onRenderLine = true := q.onRenderLine_iff.mpr (.inl hl)
    have hf := h.fetches hb hline
    have hc := h.line hl (by omega)
    rw [Ppu.dotOver, clock_v, clock_background, if_pos hf, if_pos hf]
    by_cases h1 : q.dot ≤ 1
    · have hcount : max 16 (q.dot + 1 + 14) = max 16 (q.dot + 14) := by omega
      rw [nextBackground_rest _ (by omega), nextScroll_rest (by omega), hcount]
      exact hc
    · have hg := gathers_of q.dot (by omega)
      have hcount : max 16 (q.dot + 1 + 14) = max 16 (q.dot + 14) + 1 := by omega
      rw [nextBackground_gathers _ (by omega), nextScroll_gathers hg (by omega), hcount]
      exact h.gathered hb hline hg (by omega) hc
  · obtain ⟨hs, hd⟩ := upcoming_of_last m h.inFrame h340
    have hcount : max 16 ((q.dotOver m).dot + 14) = 16 := by omega
    rw [hs] at hl ⊢
    have hline := onRenderLine_of_upcoming h.inFrame hl
    have hf := h.fetches hb hline
    rw [hcount, Ppu.dotOver, clock_v, clock_background, if_pos hf, if_pos hf]
    exact h.fetched_ahead hb hline (by omega)

theorem dotOver (h : Drawing m p q) (hb : p.showsBackground = true) (ht : p.t.coarseY ≤ 29) :
    Drawing m p (q.dotOver m) where
  settled := h.settled.dotOver m
  inFrame := h.inFrame.clock _
  column := h.column_next hb
  row := h.row_next hb ht
  ahead := h.ahead_next hb
  line := h.line_next hb

theorem start (hs : p.scanline = 261) (hd : p.dot = 0) : Drawing m p p where
  settled := ⟨rfl, rfl, rfl, rfl, rfl⟩
  inFrame := ⟨by omega, by omega⟩
  column _ h := by omega
  row _ h := by
    rw [if_pos hs] at h
    omega
  ahead _ h := by omega
  line h := by omega

/-- Where the pixel of a dot is composed, the shifters begin with that pixel. -/
theorem shown (h : Drawing m p q) (hb : p.showsBackground = true) (hl : q.scanline < 240)
    (h1 : 1 ≤ q.dot) (h256 : q.dot ≤ 256) :
    Shown m p.backgroundTable p.t.column (lineRow p.t q.scanline) (q.dot + 15)
      (q.compose (q.answer m)).background := by
  have hline : q.onRenderLine = true := q.onRenderLine_iff.mpr (.inl hl)
  have hc := h.line hl h256
  rw [compose_background, if_pos (h.fetches hb hline)]
  by_cases hfirst : q.dot = 1
  · rw [nextBackground_rest _ (by omega), hfirst]
    rw [hfirst] at hc
    exact hc.shown
  · have hg := gathers_of q.dot (by omega)
    have hcount : max 16 (q.dot + 14) = q.dot + 14 := by omega
    rw [hcount] at hc
    rw [nextBackground_gathers _ (by omega)]
    exact (h.gathered hb hline hg (by omega) hc).shown

theorem backgroundPixel_eq (h : Drawing m p q) (hb : p.showsBackground = true)
    (hx : p.fineX.toNat < 8) (hl : q.scanline < 240) (h1 : 1 ≤ q.dot) (h256 : q.dot ≤ 256) :
    (q.compose (q.answer m)).backgroundPixel (q.dot - 1) =
      if q.dot - 1 < 8 ∧ Byte.has p.mask 0x02 = false then (0, 0)
      else
        (TileMap.colour m p.backgroundTable (pixelX p.t.column (q.dot + 15) p.fineX.toNat)
            (lineRow p.t q.scanline),
          TileMap.palette m (pixelX p.t.column (q.dot + 15) p.fineX.toNat)
            (lineRow p.t q.scanline)) := by
  have hc := h.shown hb hl h1 h256
  rw [q.compose_backgroundPixel _ (h.settled.showsBackground_eq.trans hb), h.settled.mask_eq,
    h.settled.fineX_eq, hc.colour_eq hx (by omega), hc.palette_eq hx (by omega)]

end Drawing

theorem drawing_iterate (m : Nat → UInt8) {p : Ppu} (hs : p.scanline = 261) (hd : p.dot = 0)
    (hb : p.showsBackground) (ht : p.t.coarseY ≤ 29) (n : Nat) :
    Drawing m p ((dotOver m)^[n] p) :=
  iterate_dotOver m (fun _ h => h.dotOver hb ht) (Drawing.start hs hd) n

/-- The background of a frame is the map, from the scroll position that the frame starts with and
round its edges. Each pixel is reached, and whenever it is it has the colour and the palette of the
map, but for the leftmost columns where these are blanked. -/
theorem background_eq_map (m : Nat → UInt8) {p : Ppu} (hp : p.Reachable) (hs : p.scanline = 261)
    (hd : p.dot = 0) (hb : p.showsBackground) (ht : p.t.coarseY ≤ 29) {x y : Nat} (hx : x < 256)
    (hy : y < 240) :
    (∃ n < 341 * 241, ((dotOver m)^[n] p).scanline = y ∧ ((dotOver m)^[n] p).dot = x + 1) ∧
    ∀ n, ((dotOver m)^[n] p).scanline = y → ((dotOver m)^[n] p).dot = x + 1 →
      (((dotOver m)^[n] p).compose (((dotOver m)^[n] p).answer m)).backgroundPixel x =
        if x < 8 ∧ Byte.has p.mask 0x02 = false then (0, 0)
        else
          let mapX := (256 * p.t.tableX + 8 * p.t.coarseX + p.fineX.toNat + x) % 512
          let mapY := (240 * p.t.tableY + 8 * p.t.coarseY + p.t.fineY + y) % 480
          (TileMap.colour m p.backgroundTable mapX mapY, TileMap.palette m mapX mapY) := by
  constructor
  · have hx1 : 1 ≤ x + 1 := Nat.succ_pos x
    obtain ⟨n, hn, hpos⟩ := reaches m hs hd (by omega : y ≤ 261) hx1 (by omega)
    exact ⟨n, by omega, hpos⟩
  · intro n hline hdot
    have h := drawing_iterate m hs hd hb ht n
    generalize (dotOver m)^[n] p = q at *
    have hcolumn : q.dot - 1 = x := by omega
    have hX : pixelX p.t.column (q.dot + 15) p.fineX.toNat =
        (256 * p.t.tableX + 8 * p.t.coarseX + p.fineX.toNat + x) % 512 := by
      rw [pixelX, Scroll.column, hdot]
      omega
    have hY : lineRow p.t q.scanline =
        (240 * p.t.tableY + 8 * p.t.coarseY + p.t.fineY + y) % 480 := by
      rw [lineRow, Scroll.row, hline]
      omega
    have hpixel := h.backgroundPixel_eq hb hp.fineX_lt (by omega) (by omega) (by omega)
    rw [hcolumn, hX, hY] at hpixel
    exact hpixel

def scrolled : Ppu :=
  ((({} : Ppu).write 5 43).write 5 157).switchOn striped (341 * 261) 0x08

theorem scrolled_reachable : scrolled.Reachable :=
  ((Reachable.start.write 5 43).write 5 157).switchOn striped 0x08

theorem scrolled_at : scrolled.scanline = 261 ∧ scrolled.dot = 0 := by
  apply switchOn_at striped 0x08 ((Reachable.start.write 5 43).write 5 157).inFrame <;> decide

theorem scrolled_settled :
    Settled { (({} : Ppu).write 5 43).write 5 157 with mask := 0x08 } scrolled :=
  settled_switchOn striped 0x08 _

/-- The 251st pixel of line 100 comes from the nametables to the right and below. -/
theorem background_eq_map_scrolled : scrolled.Reachable ∧ scrolled.scanline = 261 ∧
    scrolled.dot = 0 ∧ scrolled.showsBackground ∧ scrolled.t.coarseY ≤ 29 ∧
    ∀ n, ((dotOver striped)^[n] scrolled).scanline = 100 →
      ((dotOver striped)^[n] scrolled).dot = 251 →
        (((dotOver striped)^[n] scrolled).compose
          (((dotOver striped)^[n] scrolled).answer striped)).backgroundPixel 250 = (3, 3) := by
  obtain ⟨hs, hd⟩ := scrolled_at
  obtain ⟨hctrl, hmask, ht, hx, -⟩ := scrolled_settled
  have hb : scrolled.showsBackground := by rw [showsBackground, hmask]; decide
  have hy : scrolled.t.coarseY ≤ 29 := by rw [ht]; decide
  refine ⟨scrolled_reachable, hs, hd, hb, hy, fun n hline hdot => ?_⟩
  have hmap := (background_eq_map striped scrolled_reachable hs hd hb hy
    (by decide : 250 < 256) (by decide : 100 < 240)).2 n hline hdot
  rw [hmap, if_neg (by decide), backgroundTable, hctrl, ht, hx]
  decide

end Famicom.Ppu
