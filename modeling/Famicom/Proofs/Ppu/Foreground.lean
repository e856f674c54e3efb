import Famicom.Proofs.Ppu.Reach
import Famicom.Proofs.Ppu.Slots

/-! A frame of sprites. While a line is shown its slots shift out the lineup of that line, and
memory is searched for the lineup of the next. -/
namespace Famicom.Ppu
open SpriteUnit

/-! The sprites at the places of a line. -/

section Places
variable {q : Ppu}

theorem nextSprites_choose (h : q.dot ≤ 256) (data : UInt8) : q.nextSprites data = q.chosen := by
  have h257 : ¬257 ≤ q.dot := by omega
  simp [nextSprites, h257]

theorem nextSprites_fetch (h257 : 257 ≤ q.dot) (h320 : q.dot ≤ 320) (data : UInt8) :
    q.nextSprites data = q.fetched data := by
  simp [nextSprites, h257, h320]

theorem nextSprites_rest (h : 321 ≤ q.dot) (data : UInt8) : q.nextSprites data = q.sprites := by
  have h320 : ¬q.dot ≤ 320 := by omega
  rw [nextSprites, q.chosen_of_fetch (by omega)]
  simp [h320]

theorem chosen_begin (h : q.dot = 1) : q.chosen = q.sprites.begin := by
  simp [chosen, h]

theorem chosen_clear (h2 : 2 ≤ q.dot) (h64 : q.dot ≤ 64) :
    q.chosen = q.sprites ∨ ∃ i, q.chosen = q.sprites.clear i := by
  simp only [chosen]
  rw [if_neg (by omega), if_pos h64, if_neg (by omega)]
  split_ifs
  · exact .inr ⟨_, rfl⟩
  · exact .inl rfl

theorem chosen_evaluate (h65 : 65 ≤ q.dot) (h256 : q.dot ≤ 256) (hline : q.scanline ≠ 261) :
    q.chosen = if q.dot % 2 = 1 then q.sprites.evaluate q.oam q.scanline q.spriteHeight
      else q.sprites := by
  have h0 : q.dot ≠ 0 := by omega
  have h64 : ¬q.dot ≤ 64 := by omega
  simp [chosen, h0, h64, h256, hline]

theorem chosen_idle (h65 : 65 ≤ q.dot) (hline : q.scanline = 261) : q.chosen = q.sprites := by
  have h0 : q.dot ≠ 0 := by omega
  have h64 : ¬q.dot ≤ 64 := by omega
  simp [chosen, h0, h64, hline]

theorem chosen_slots (q : Ppu) :
    q.chosen.slots = q.sprites.slots ∧ q.chosen.shown = q.sprites.shown := by
  unfold chosen SpriteUnit.evaluate
  split_ifs <;> exact ⟨rfl, rfl⟩

theorem SpriteUnit.Showing.chosen {l : Lineup} {y x : Nat} (h : Showing l y x q.sprites) :
    Showing l y x q.chosen where
  shown_eq := by rw [q.chosen_slots.2, h.shown_eq]
  slot_eq j hj := by rw [slot, q.chosen_slots.1, ← slot, h.slot_eq j hj]

theorem fetch?_of_sprites (hf : q.fetches) (h258 : 258 ≤ q.dot) (h320 : q.dot ≤ 320) :
    q.fetch? = q.sprites.address? q.tallSprites q.spriteTable q.scanline
      ((q.dot - 257) % 8) (slotOf q.dot) := by
  have hg := not_gathers_of q.dot (by omega)
  have h257 : 257 ≤ q.dot := by omega
  simp only [fetches] at hf
  simp only [fetch?, hf, hg, h257, h320, decide_true, Bool.and_self,
    Bool.not_true, Bool.false_eq_true, if_true, if_false]
  generalize (q.dot - 257) % 8 = phase
  rcases phase with _ | _ | _ | _ | _ | _ | _ | phase <;> rfl

end Places

def lineup (m : Nat → UInt8) (p : Ppu) : Lineup where
  oam := p.oam
  tall := p.tallSprites
  table := p.spriteTable
  memory := m

theorem Settled.lineup_eq {p q : Ppu} (h : Settled p q) (m : Nat → UInt8) :
    q.lineup m = p.lineup m := by
  simp only [lineup, tallSprites, spriteTable, h.ctrl_eq, h.oam_eq]

def looked (d : Nat) : Nat := min 64 ((d - 64) / 2)

theorem looked_clear {d : Nat} (h : d ≤ 65) : looked d = 0 := by
  unfold looked
  omega

theorem looked_succ (d : Nat) : looked (d + 1) =
    if d % 2 = 1 ∧ 65 ≤ d ∧ looked d < 64 then looked d + 1 else looked d := by
  unfold looked
  split_ifs <;> omega

structure Foreground (m : Nat → UInt8) (p q : Ppu) : Prop where
  settled : Settled p q
  inFrame : q.InFrame
  chose : q.onRenderLine → 2 ≤ q.dot → q.dot ≤ 257 →
    Chose (p.lineup m) ((p.lineup m).among q.upcoming (looked q.dot)) q.sprites
  index : q.scanline < 240 → 2 ≤ q.dot → q.dot ≤ 257 → q.sprites.index = looked q.dot
  loading : q.onRenderLine → 257 ≤ q.dot →
    Loading (p.lineup m) q.upcoming (min 64 (q.dot - 257)) q.sprites
  showing : q.scanline < 240 → q.dot ≤ 256 →
    Showing (p.lineup m) q.scanline (q.dot - 1) q.sprites

namespace Foreground
variable {m : Nat → UInt8} {p q : Ppu}

theorem rendering (h : Foreground m p q) (hr : p.rendering) : q.rendering :=
  h.settled.rendering_eq.trans hr

theorem fetches (h : Foreground m p q) (hr : p.rendering) (hl : q.onRenderLine) : q.fetches :=
  h.settled.fetches hr hl

theorem chosen (h : Foreground m p q) (hl : q.onRenderLine) (h1 : 1 ≤ q.dot) (h256 : q.dot ≤ 256) :
    Chose (p.lineup m) ((p.lineup m).among q.upcoming (looked (q.dot + 1))) q.chosen := by
  by_cases hbegin : q.dot = 1
  · rw [chosen_begin hbegin, hbegin]
    exact chose_begin _ _
  have hc := h.chose hl (by omega) (by omega)
  by_cases h64 : q.dot ≤ 64
  · rw [looked_clear (by omega)] at hc
    rw [looked_clear (by omega)]
    obtain hsame | ⟨i, hi⟩ := chosen_clear (q := q) (by omega) h64
    · rw [hsame]
      exact hc
    · rw [hi]
      exact hc.clear i
  -- Nothing is looked at on line 261, and there is nothing to be found for line 0.
  by_cases hline : q.scanline = 261
  · have hup : q.upcoming = 0 := by rw [upcoming, if_pos hline]
    rw [hup, Lineup.among_first] at hc ⊢
    rw [chosen_idle (by omega) hline]
    exact hc
  · rw [onRenderLine_iff] at hl
    have hindex := h.index (by omega) (by omega) (by omega)
    have hup : q.upcoming = q.scanline + 1 := by rw [upcoming, if_neg hline]
    have hheight : q.spriteHeight = (p.lineup m).height := by
      rw [spriteHeight, tallSprites, h.settled.ctrl_eq]
      rfl
    rw [chosen_evaluate (by omega) h256 hline, hup, hheight, h.settled.oam_eq]
    rw [hup] at hc
    rw [looked_succ]
    by_cases hodd : q.dot % 2 = 1
    · rw [if_pos hodd]
      by_cases hdone : looked q.dot < 64
      · rw [if_pos ⟨hodd, by omega, hdone⟩, ← hindex]
        rw [← hindex] at hc hdone
        exact hc.evaluate hdone
      · rw [if_neg (fun h => hdone h.2.2), evaluate_done _ _ _ (by omega)]
        exact hc
    · rw [if_neg hodd, if_neg (fun h => hodd h.1)]
      exact hc

theorem index_chosen (h : Foreground m p q) (hl : q.scanline < 240) (h1 : 1 ≤ q.dot)
    (h256 : q.dot ≤ 256) : q.chosen.index = looked (q.dot + 1) := by
  by_cases hbegin : q.dot = 1
  · rw [chosen_begin hbegin, hbegin]
    rfl
  have hindex := h.index hl (by omega) (by omega)
  by_cases h64 : q.dot ≤ 64
  · rw [looked_clear (by omega)] at hindex
    rw [looked_clear (by omega), ← hindex]
    obtain hsame | ⟨i, hi⟩ := chosen_clear (q := q) (by omega) h64
    · rw [hsame]
    · rw [hi]
      rfl
  · rw [chosen_evaluate (by omega) h256 (by omega), looked_succ]
    by_cases hodd : q.dot % 2 = 1
    · rw [if_pos hodd]
      by_cases hdone : looked q.dot < 64
      · rw [if_pos ⟨hodd, by omega, hdone⟩, index_evaluate _ _ _ (by omega), hindex]
      · rw [if_neg (fun h => hdone h.2.2), evaluate_done _ _ _ (by omega), hindex]
    · rw [if_neg hodd, if_neg (fun h => hodd h.1), hindex]

theorem fetched (h : Foreground m p q) (hr : p.rendering) (hl : q.onRenderLine)
    (h257 : 257 ≤ q.dot) (h320 : q.dot ≤ 320) :
    Loading (p.lineup m) q.upcoming (q.dot + 1 - 257) (q.fetched (q.answer m)) := by
  have hload := h.loading hl h257
  rw [Nat.min_eq_right (by omega)] at hload
  have hy : q.upcoming = 0 ∨ q.upcoming = q.scanline + 1 := by
    unfold upcoming
    split_ifs <;> simp
  have hnext := hload.next hy (by omega)
  have hreply : q.fetched (q.answer m) = q.sprites.fetch ((q.dot - 257) % 8) ((q.dot - 257) / 8)
      (reply (p.lineup m) q.scanline (q.dot - 257) q.sprites) := by
    by_cases hfirst : q.dot = 257
    · rw [Ppu.fetched, hfirst]
      rfl
    · rw [answer, fetch?_of_sprites (h.fetches hr hl) (by omega) h320, Ppu.fetched, tallSprites,
        spriteTable, h.settled.ctrl_eq]
      rfl
  rw [hreply, Nat.sub_add_comm h257]
  exact hnext

/-! One dot, field by field. -/

theorem sprites_choose (h : Foreground m p q) (hr : p.rendering) (hl : q.onRenderLine)
    (h256 : q.dot ≤ 256) : (q.dotOver m).sprites =
      if q.scanline < 240 ∧ 1 ≤ q.dot then q.chosen.advance else q.chosen := by
  rw [Ppu.dotOver, clock_sprites, compose_sprites, if_pos (h.fetches hr hl),
    nextSprites_choose h256, h.rendering hr, Bool.and_true]
  simp [visible, h256]

theorem sprites_fetch (h : Foreground m p q) (hr : p.rendering) (hl : q.onRenderLine)
    (h257 : 257 ≤ q.dot) : (q.dotOver m).sprites = q.nextSprites (q.answer m) := by
  rw [Ppu.dotOver, clock_sprites, compose_sprites, if_pos (h.fetches hr hl), if_neg]
  have h256 : ¬q.dot ≤ 256 := by omega
  simp [visible, h256]

theorem chose_next (h : Foreground m p q) (hr : p.rendering)
    (hl : (q.dotOver m).onRenderLine) (h2 : 2 ≤ (q.dotOver m).dot)
    (h257 : (q.dotOver m).dot ≤ 257) :
    Chose (p.lineup m) ((p.lineup m).among (q.dotOver m).upcoming (looked (q.dotOver m).dot))
      (q.dotOver m).sprites := by
  have hw := within_of_next m h2
  rw [hw.onRenderLine_eq] at hl
  rw [hw.dot_eq] at h257
  rw [hw.upcoming_eq, hw.dot_eq, h.sprites_choose hr hl (by omega)]
  have hc := h.chosen hl (by rw [hw.dot_eq] at h2; omega) (by omega)
  split_ifs
  · exact ⟨hc.count_eq, hc.first_eq, hc.entry⟩
  · exact hc

theorem index_next (h : Foreground m p q) (hr : p.rendering)
    (hl : (q.dotOver m).scanline < 240) (h2 : 2 ≤ (q.dotOver m).dot)
    (h257 : (q.dotOver m).dot ≤ 257) :
    (q.dotOver m).sprites.index = looked (q.dotOver m).dot := by
  have hw := within_of_next m h2
  have hline : q.onRenderLine := q.onRenderLine_iff.mpr (.inl (hw.scanline_eq ▸ hl))
  rw [hw.scanline_eq] at hl
  rw [hw.dot_eq] at h2 h257
  rw [hw.dot_eq, h.sprites_choose hr hline (by omega), if_pos (by omega)]
  exact h.index_chosen hl (by omega) (by omega)

theorem loading_next (h : Foreground m p q) (hr : p.rendering)
    (hl : (q.dotOver m).onRenderLine) (h257 : 257 ≤ (q.dotOver m).dot) :
    Loading (p.lineup m) (q.dotOver m).upcoming (min 64 ((q.dotOver m).dot - 257))
      (q.dotOver m).sprites := by
  have hw := within_of_next m (q := q) (by omega)
  by_cases h256 : q.dot = 256
  · have hc := h.chose_next hr hl (by omega) (by rw [hw.dot_eq]; omega)
    rw [hw.dot_eq, h256] at hc ⊢
    exact hc.loading
  rw [hw.onRenderLine_eq] at hl
  rw [hw.dot_eq] at h257
  rw [hw.upcoming_eq, hw.dot_eq, h.sprites_fetch hr hl (by omega)]
  by_cases h320 : q.dot ≤ 320
  · rw [nextSprites_fetch (by omega) h320, Nat.min_eq_right (by omega)]
    exact h.fetched hr hl (by omega) h320
  · have hload := h.loading hl (by omega)
    have hnext : min 64 (q.dot + 1 - 257) = 64 := by omega
    rw [nextSprites_rest (by omega), hnext]
    rw [Nat.min_eq_left (by omega)] at hload
    exact hload

theorem showing_next (h : Foreground m p q) (hr : p.rendering)
    (hl : (q.dotOver m).scanline < 240) (h256 : (q.dotOver m).dot ≤ 256) :
    Showing (p.lineup m) (q.dotOver m).scanline ((q.dotOver m).dot - 1)
      (q.dotOver m).sprites := by
  by_cases h340 : q.dot < 340
  · have hw := within_of_lt m h340
    rw [hw.scanline_eq] at hl ⊢
    rw [hw.dot_eq] at h256 ⊢
    have hline : q.onRenderLine := q.onRenderLine_iff.mpr (.inl hl)
    have hshow := (h.showing hl (by omega)).chosen
    rw [h.sprites_choose hr hline (by omega)]
    split_ifs with hmove
    · have hx : q.dot + 1 - 1 = q.dot - 1 + 1 := by omega
      rw [hx]
      exact hshow.next
    · have hx : q.dot + 1 - 1 = q.dot - 1 := by omega
      rw [hx]
      exact hshow
  · obtain ⟨hs, hd⟩ := upcoming_of_last m h.inFrame h340
    rw [hs] at hl ⊢
    have hline := onRenderLine_of_upcoming h.inFrame hl
    have hload := h.loading hline (by omega)
    have hcount : min 64 (q.dot - 257) = 64 := by omega
    have hx : (q.dotOver m).dot - 1 = 0 := by omega
    rw [hcount] at hload
    rw [h.sprites_fetch hr hline (by omega), nextSprites_rest (by omega), hx]
    exact hload.showing

theorem dotOver (h : Foreground m p q) (hr : p.rendering) : Foreground m p (q.dotOver m) where
  settled := h.settled.dotOver m
  inFrame := h.inFrame.clock _
  chose := h.chose_next hr
  index := h.index_next hr
  loading := h.loading_next hr
  showing := h.showing_next hr

theorem start (hs : p.scanline = 261) (hd : p.dot = 0) : Foreground m p p where
  settled := ⟨rfl, rfl, rfl, rfl, rfl⟩
  inFrame := ⟨by omega, by omega⟩
  chose _ h := by omega
  index h := by omega
  loading _ h := by omega
  showing h := by omega

/-- Where the pixel of a dot is composed, the slots show the front entry of the line there. -/
theorem spritePixel_eq (h : Foreground m p q) (hb : p.showsSprites) (hl : q.scanline < 240)
    (h256 : q.dot ≤ 256) :
    ((q.compose (q.answer m)).spritePixel (q.dot - 1)).map Sprite.pixel =
      if q.dot - 1 < 8 ∧ Byte.has p.mask 0x04 = false then none
      else (p.lineup m).front? (q.dot - 1) q.scanline := by
  have hline : q.onRenderLine := q.onRenderLine_iff.mpr (.inl hl)
  have hshow := (h.showing hl h256).chosen
  rw [q.compose_spritePixel _ (h.settled.showsSprites_eq.trans hb), h.settled.mask_eq,
    compose_sprites, if_pos (h.fetches (rendering_of_sprites hb) hline), nextSprites_choose h256]
  split_ifs
  · rw [Option.map_none]
  · exact hshow.winner_eq

end Foreground

theorem foreground_iterate (m : Nat → UInt8) {p : Ppu} (hs : p.scanline = 261) (hd : p.dot = 0)
    (hr : p.rendering) (n : Nat) : Foreground m p ((dotOver m)^[n] p) :=
  iterate_dotOver m (fun _ h => h.dotOver hr) (Foreground.start hs hd) n

/-- The sprites of a frame are the lineups of its lines. Each pixel is reached, and whenever it is
it shows what the front entry of sprite memory shows there, but for the first line and, where they
are blanked, the leftmost columns. -/
theorem sprites_eq_lineup (m : Nat → UInt8) {p : Ppu} (hs : p.scanline = 261) (hd : p.dot = 0)
    (hb : p.showsSprites) {x y : Nat} (hx : x < 256) (hy : y < 240) :
    (∃ n < 341 * 241, ((dotOver m)^[n] p).scanline = y ∧ ((dotOver m)^[n] p).dot = x + 1) ∧
    ∀ n, ((dotOver m)^[n] p).scanline = y → ((dotOver m)^[n] p).dot = x + 1 →
      ((((dotOver m)^[n] p).compose (((dotOver m)^[n] p).answer m)).spritePixel x).map
          Sprite.pixel =
        if y = 0 ∨ x < 8 ∧ Byte.has p.mask 0x04 = false then none
        else (p.lineup m).front? x y := by
  constructor
  · have hx1 : 1 ≤ x + 1 := Nat.succ_pos x
    obtain ⟨n, hn, hpos⟩ := reaches m hs hd (by omega : y ≤ 261) hx1 (by omega)
    exact ⟨n, by omega, hpos⟩
  · intro n hline hdot
    have h := foreground_iterate m hs hd (rendering_of_sprites hb) n
    generalize (dotOver m)^[n] p = q at *
    have hcolumn : q.dot - 1 = x := by omega
    have hpixel := h.spritePixel_eq hb (by omega) (by omega)
    rw [hcolumn, hline] at hpixel
    rw [hpixel]
    by_cases hleft : x < 8 ∧ Byte.has p.mask 0x04 = false
    · rw [if_pos hleft, if_pos (.inr hleft)]
    rw [if_neg hleft]
    split_ifs with hnone
    · obtain h0 | h0 := hnone
      · rw [h0, Lineup.front?, Lineup.among_first, List.findSome?_nil]
      · exact absurd h0 hleft
    · rfl

/-- Entry 0 is a tall sprite on line 100, turned both ways; the picture is switched on in time for
the first frame. -/
def staged : Ppu :=
  ((((({} : Ppu).write 0 0x20).writeOam 99).writeOam 5).writeOam 0xC1).writeOam 200

def lit : Ppu := staged.switchOn striped (341 * 261) 0x10

theorem lit_at : lit.scanline = 261 ∧ lit.dot = 0 := by
  apply switchOn_at striped 0x10 (p := staged) ⟨Nat.zero_le _, Nat.zero_le _⟩ <;> decide

/-- The fourth pixel of a row of entry 0, from the lower tile. -/
theorem sprites_eq_lineup_lit : lit.scanline = 261 ∧ lit.dot = 0 ∧ lit.showsSprites ∧
    ∀ n, ((dotOver striped)^[n] lit).scanline = 103 → ((dotOver striped)^[n] lit).dot = 204 →
      ((((dotOver striped)^[n] lit).compose
          (((dotOver striped)^[n] lit).answer striped)).spritePixel 203).map Sprite.pixel =
        some { colour := 1, palette := 1, behind := false, first := true } := by
  obtain ⟨hs, hd⟩ := lit_at
  have hsettled := settled_switchOn striped (n := 341 * 261) 0x10 staged
  have hb : lit.showsSprites := by
    rw [showsSprites, lit, hsettled.mask_eq]
    decide
  refine ⟨hs, hd, hb, fun n hline hdot => ?_⟩
  have hlineup := (sprites_eq_lineup striped hs hd hb (by decide : 203 < 256)
    (by decide : 103 < 240)).2 n hline hdot
  rw [hlineup, if_neg (by decide), lit, hsettled.lineup_eq]
  decide

end Famicom.Ppu
