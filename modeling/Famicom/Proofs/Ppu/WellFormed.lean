import Famicom.Proofs.Ppu.Reach
import Famicom.Proofs.Scroll

/-! The bounds on the fields of the picture unit. Registers may be written between any two dots, so
that sprites are chosen and fetched from what was left over by an earlier line or by none; the bounds
hold all the same. -/
namespace Famicom.Ppu

/-! The scroll position stays within its 15 bits. -/

namespace Scroll
variable {s : Scroll}

theorem stepX_lt (h : s.raw < 0x8000) : s.stepX.raw < 0x8000 := by
  have hs := s.raw_stepX
  split_ifs at hs <;> simp only [coarseX, tableX] at * <;> omega

theorem stepY_lt (h : s.raw < 0x8000) : s.stepY.raw < 0x8000 := by
  have hs := s.raw_stepY
  split_ifs at hs <;> simp only [fineY, coarseY, tableY] at * <;> omega

theorem copyX_lt (t : Scroll) (h : s.raw < 0x8000) : (s.copyX t).raw < 0x8000 := by
  simp only [copyX, coarseX, tableX]
  omega

theorem copyY_lt (s t : Scroll) : (s.copyY t).raw < 0x8000 := by
  simp only [copyY, coarseX, tableX, coarseY, tableY, fineY]
  omega

theorem advance_lt (s : Scroll) (n : Nat) : (s.advance n).raw < 0x8000 :=
  Nat.mod_lt _ (by decide)

theorem setCoarseX_lt (n : Nat) (h : s.raw < 0x8000) : (s.setCoarseX n).raw < 0x8000 := by
  simp only [setCoarseX, coarseX]
  omega

theorem setCoarseY_lt (n : Nat) (h : s.raw < 0x8000) : (s.setCoarseY n).raw < 0x8000 := by
  simp only [setCoarseY, coarseY]
  omega

theorem setFineY_lt (n : Nat) (h : s.raw < 0x8000) : (s.setFineY n).raw < 0x8000 := by
  simp only [setFineY, fineY]
  omega

theorem setTable_lt (n : Nat) (h : s.raw < 0x8000) : (s.setTable n).raw < 0x8000 := by
  simp only [setTable]
  omega

theorem setLow_lt (v : UInt8) (h : s.raw < 0x8000) : (s.setLow v).raw < 0x8000 := by
  have := v.toNat_lt
  simp only [setLow]
  omega

theorem setHigh_lt (s : Scroll) (v : UInt8) : (s.setHigh v).raw < 0x8000 := by
  simp only [setHigh]
  omega

end Scroll

/-! Sprites. -/

namespace SpriteUnit

/-- No more entries are chosen than there are places for them, nor than were looked at. -/
structure Bounded (u : SpriteUnit) : Prop where
  count_le : u.count ≤ 8
  count_le_index : u.count ≤ u.index
  index_le : u.index ≤ 64
  shown_le : u.shown ≤ 8

namespace Bounded
variable {u : SpriteUnit}

theorem begin (h : u.Bounded) : u.begin.Bounded :=
  ⟨Nat.zero_le _, Nat.le_refl _, Nat.zero_le _, h.shown_le⟩

theorem clear (h : u.Bounded) (i : Nat) : (u.clear i).Bounded :=
  ⟨h.count_le, h.count_le_index, h.index_le, h.shown_le⟩

theorem evaluate (h : u.Bounded) (oam : Ram 256) (line height : Nat) :
    (u.evaluate oam line height).Bounded := by
  have hindex := h.count_le_index
  unfold SpriteUnit.evaluate
  dsimp only
  split_ifs with h64 hchosen
  · rw [Bool.and_eq_true, decide_eq_true_eq] at hchosen
    exact ⟨hchosen.1, Nat.succ_le_succ hindex, h64, h.shown_le⟩
  · exact ⟨h.count_le, Nat.le_succ_of_le hindex, h64, h.shown_le⟩
  · exact h

theorem fetch (h : u.Bounded) (phase slot : Nat) (data : UInt8) :
    (u.fetch phase slot data).Bounded := by
  have hshown : (if slot = 0 then u.count else u.shown) ≤ 8 := by
    split_ifs
    · exact h.count_le
    · exact h.shown_le
  unfold SpriteUnit.fetch
  split
  · exact ⟨h.count_le, h.count_le_index, h.index_le, hshown⟩
  all_goals exact ⟨h.count_le, h.count_le_index, h.index_le, h.shown_le⟩

theorem advance (h : u.Bounded) : u.advance.Bounded :=
  ⟨h.count_le, h.count_le_index, h.index_le, h.shown_le⟩

end Bounded
end SpriteUnit

theorem chosen_bounded {p : Ppu} (h : p.sprites.Bounded) : p.chosen.Bounded := by
  unfold chosen
  split_ifs
  · exact h
  · exact h.begin
  · exact h.clear _
  · exact h
  · exact h.evaluate _ _ _
  · exact h

theorem nextSprites_bounded {p : Ppu} (h : p.sprites.Bounded) (data : UInt8) :
    (p.nextSprites data).Bounded := by
  unfold nextSprites
  split_ifs
  · exact h.fetch _ _ data
  · exact chosen_bounded h

/-! The whole unit. -/

structure WellFormed (p : Ppu) : Prop where
  scanline_le : p.scanline ≤ 261
  dot_le : p.dot ≤ 340
  v_lt : p.v.raw < 0x8000
  t_lt : p.t.raw < 0x8000
  fineX_lt : p.fineX.toNat < 8
  colour_lt : ∀ i, (Ram.read p.palette i).toNat < 64
  sprites : p.sprites.Bounded

theorem nextScroll_lt {p : Ppu} (h : p.v.raw < 0x8000) : p.nextScroll.raw < 0x8000 := by
  have hv : (if gathers p.dot && (p.dot - 1) % 8 = 7 then p.v.stepX else p.v).raw < 0x8000 := by
    split_ifs
    · exact Scroll.stepX_lt h
    · exact h
  unfold nextScroll
  generalize (if gathers p.dot && (p.dot - 1) % 8 = 7 then p.v.stepX else p.v) = v at hv ⊢
  dsimp only
  split_ifs
  · exact Scroll.stepY_lt hv
  · exact Scroll.copyX_lt p.t hv
  · exact Scroll.copyY_lt v p.t
  · exact hv

theorem advanceTarget_lt {p : Ppu} (h : p.v.raw < 0x8000) : p.advanceTarget.v.raw < 0x8000 := by
  unfold advanceTarget
  cases p.rendering && p.onRenderLine
  · exact Scroll.advance_lt p.v _
  · exact Scroll.stepY_lt (Scroll.stepX_lt h)

theorem colour_write {m : Ram 32} (h : ∀ i, (Ram.read m i).toNat < 64) (a : Nat) (v : UInt8)
    (i : Nat) : (Ram.read (Palette.write m a v) i).toNat < 64 := by
  rw [Palette.write, Ram.read_write]
  split_ifs
  · rw [UInt8.toNat_and]
    exact Nat.lt_succ_of_le Nat.and_le_right
  · exact h i

namespace WellFormed
variable {p : Ppu}

theorem start : WellFormed {} where
  scanline_le := by decide
  dot_le := by decide
  v_lt := by decide
  t_lt := by decide
  fineX_lt := by decide
  colour_lt i := by
    show (Ram.read (Ram.zeros 32) i).toNat < 64
    rw [Ram.read_zeros]
    decide
  sprites := ⟨by decide, by decide, by decide, by decide⟩

theorem inFrame (h : p.WellFormed) : p.InFrame := ⟨h.dot_le, h.scanline_le⟩

theorem compose (h : p.WellFormed) (data : UInt8) : (p.compose data).WellFormed := by
  have hv : (if p.fetches then p.nextScroll else p.v).raw < 0x8000 := by
    split_ifs
    · exact nextScroll_lt h.v_lt
    · exact h.v_lt
  have hsprites : (if p.fetches then p.nextSprites data else p.sprites).Bounded := by
    split_ifs
    · exact nextSprites_bounded h.sprites data
    · exact h.sprites
  rw [compose_eq]
  exact ⟨h.scanline_le, h.dot_le, hv, h.t_lt, h.fineX_lt, h.colour_lt, hsprites⟩

theorem clock (h : p.WellFormed) (data : UInt8) : (p.clock data).WellFormed := by
  have hq := h.compose data
  obtain ⟨hdot, hline⟩ := h.inFrame.clock data
  have hsprites : (if p.visible && p.rendering then (p.compose data).sprites.advance
      else (p.compose data).sprites).Bounded := by
    split_ifs
    · exact hq.sprites.advance
    · exact hq.sprites
  rw [clock_eq] at hdot hline ⊢
  exact ⟨hline, hdot, hq.v_lt, h.t_lt, h.fineX_lt, h.colour_lt, hsprites⟩

theorem read (h : p.WellFormed) (r : Fin 8) (data : UInt8) : (p.read r data).2.WellFormed := by
  have hv : (p.read r data).2.v.raw < 0x8000 := by
    match r with
    | 7 => exact advanceTarget_lt h.v_lt
    | 0 | 1 | 2 | 3 | 4 | 5 | 6 => exact h.v_lt
  rw [read_eq]
  exact ⟨h.scanline_le, h.dot_le, hv, h.t_lt, h.fineX_lt, h.colour_lt, h.sprites⟩

theorem write_scroll (h : p.WellFormed) (r : Fin 8) (v : UInt8) :
    (p.write r v).t.raw < 0x8000 ∧ (p.write r v).v.raw < 0x8000 := by
  match r with
  | 0 => exact ⟨Scroll.setTable_lt _ h.t_lt, h.v_lt⟩
  | 5 =>
    simp only [write, writeScroll]
    split_ifs
    · exact ⟨Scroll.setCoarseY_lt _ (Scroll.setFineY_lt _ h.t_lt), h.v_lt⟩
    · exact ⟨Scroll.setCoarseX_lt _ h.t_lt, h.v_lt⟩
  | 6 =>
    simp only [write, writeAddress]
    split_ifs
    · exact ⟨Scroll.setLow_lt v h.t_lt, Scroll.setLow_lt v h.t_lt⟩
    · exact ⟨Scroll.setHigh_lt _ v, h.v_lt⟩
  | 7 =>
    simp only [write, writeData]
    split_ifs
    · rw [advanceTarget_eq]
      exact ⟨h.t_lt, advanceTarget_lt h.v_lt⟩
    · rw [advanceTarget_eq]
      exact ⟨h.t_lt, advanceTarget_lt h.v_lt⟩
  | 1 | 2 | 3 | 4 => exact ⟨h.t_lt, h.v_lt⟩

theorem write_colour (h : p.WellFormed) (r : Fin 8) (v : UInt8) (i : Nat) :
    (Ram.read (p.write r v).palette i).toNat < 64 := by
  match r with
  | 7 =>
    simp only [write, writeData]
    split_ifs
    · rw [advanceTarget_eq]
      exact colour_write h.colour_lt _ v i
    · rw [advanceTarget_eq]
      exact h.colour_lt i
  | 5 =>
    simp only [write, writeScroll]
    split_ifs <;> exact h.colour_lt i
  | 6 =>
    simp only [write, writeAddress]
    split_ifs <;> exact h.colour_lt i
  | 0 | 1 | 2 | 3 | 4 => exact h.colour_lt i

theorem write (h : p.WellFormed) (r : Fin 8) (v : UInt8) : (p.write r v).WellFormed := by
  obtain ⟨ht, hv⟩ := h.write_scroll r v
  have hcolour := h.write_colour r v
  have hx := fineX_write h.fineX_lt r v
  rw [write_eq] at hx ⊢
  exact ⟨h.scanline_le, h.dot_le, hv, ht, hx, hcolour, h.sprites⟩

theorem writeOam (h : p.WellFormed) (v : UInt8) : (p.writeOam v).WellFormed :=
  ⟨h.scanline_le, h.dot_le, h.v_lt, h.t_lt, h.fineX_lt, h.colour_lt, h.sprites⟩

theorem takeFrameReady (h : p.WellFormed) : p.takeFrameReady.2.WellFormed :=
  ⟨h.scanline_le, h.dot_le, h.v_lt, h.t_lt, h.fineX_lt, h.colour_lt, h.sprites⟩

theorem reset (h : p.WellFormed) : p.reset.WellFormed :=
  ⟨start.scanline_le, start.dot_le, start.v_lt, start.t_lt, start.fineX_lt, h.colour_lt,
    start.sprites⟩

end WellFormed

theorem Reachable.wellFormed {p : Ppu} (h : p.Reachable) : p.WellFormed := by
  induction h with
  | start => exact .start
  | clock _ data ih => exact ih.clock data
  | read _ r data ih => exact ih.read r data
  | write _ r v ih => exact ih.write r v
  | writeOam _ v ih => exact ih.writeOam v
  | takeFrameReady _ ih => exact ih.takeFrameReady
  | reset _ ih => exact ih.reset

end Famicom.Ppu
