import Famicom.Proofs.Bus.Dots

/-! The scanline counter with the background in the lower pattern table and the sprites in the
upper. In a line on which tiles are fetched line 12 goes up for the first sprite and stays up until
the last, so that the counter counts lines. -/
namespace Famicom

open Cartridge

namespace Ppu

/-! Line 12 over such a line. -/

theorem sprites_of_level {d : Nat} (h : level false true d = some true) : 261 ≤ d ∧ d ≤ 320 := by
  rcases dot_cases d with hd | hd | hd
  · rw [level_of_gathers _ _ hd] at h
    split_ifs at h <;> cases h
  · rw [level_of_sprites _ _ hd] at h
    split_ifs at h
    omega
  · rw [level_of_rest _ _ hd] at h
    split_ifs at h
    cases h

theorem level_among {d : Nat} (h : 262 ≤ d) (h' : d ≤ 320) : level false true d ≠ some false := by
  rw [level_of_sprites _ _ ⟨by omega, h'⟩]
  split_ifs <;> simp

/-- Line 12 has been at rest since the first fetch of the line, until the sprites raise it. -/
structure Raised (p : Ppu) (c : LineCounter) : Prop where
  low : p.onRenderLine = true → 4 ≤ p.dot → p.dot ≤ 261 →
    c.a12High = false ∧ p.dot ≤ c.lowDots + 4
  high : p.onRenderLine = true → 262 ≤ p.dot → p.dot ≤ 321 → c.a12High = true

theorem Raised.clock {p : Ppu} {c : LineCounter} (h : Raised p c) (data : UInt8) :
    Raised (p.clock data) (c.dot (p.lineLevel false true)) where
  low hl h4 h261 := by
    obtain ⟨hdot, -, hline, -⟩ := within_clock_of_next (show 2 ≤ (p.clock data).dot by omega)
    rw [hline] at hl
    rw [hdot] at h4 h261 ⊢
    have hne : level false true p.dot ≠ some true := fun ht => by
      have := sprites_of_level ht
      omega
    rw [lineLevel, if_pos hl]
    by_cases h3 : p.dot = 3
    · rw [h3]
      exact ⟨rfl, Nat.le_add_left _ _⟩
    · obtain ⟨hlow, hrest⟩ := h.low hl (by omega) (by omega)
      rw [c.dot_lowDots hne, hlow, if_neg Bool.false_ne_true]
      exact ⟨c.dot_low hne hlow, by omega⟩
  high hl h262 h321 := by
    obtain ⟨hdot, -, hline, -⟩ := within_clock_of_next (show 2 ≤ (p.clock data).dot by omega)
    rw [hline] at hl
    rw [hdot] at h262 h321
    rw [lineLevel, if_pos hl]
    by_cases h261 : p.dot = 261
    · rw [h261]
      rfl
    · exact c.dot_high (level_among (by omega) (by omega)) (h.high hl (by omega) (by omega))

theorem Raised.counts_iff {p : Ppu} {c : LineCounter} (h : Raised p c) :
    c.counts (p.lineLevel false true) = true ↔ p.onRenderLine = true ∧ p.dot = 261 := by
  rw [LineCounter.counts_iff, lineLevel]
  constructor
  · rintro ⟨hlevel, hlow, -⟩
    split_ifs at hlevel with hl
    refine ⟨hl, ?_⟩
    have hd := sprites_of_level hlevel
    by_contra hne
    rw [h.high hl (by omega) (by omega)] at hlow
    cases hlow
  · rintro ⟨hl, hd⟩
    obtain ⟨hlow, hrest⟩ := h.low hl (by omega) (by omega)
    rw [if_pos hl, hd]
    exact ⟨rfl, hlow, by omega⟩

end Ppu

namespace Bus
variable {b : Bus}

theorem counts_iff_place (ha : b.ppu.Arranged 0 0x1000) (hin : b.ppu.InFrame) {c : LineCounter}
    (hc : b.lines? = some c) (h : Ppu.Raised b.ppu c) (n : Nat) :
    (b.dots n).counts = true ↔ (b.dots n).ppu.onRenderLine = true ∧ (b.dots n).ppu.dot = 261 := by
  have hstep : ∀ (p : Ppu) c data, p.InFrame → Ppu.Raised p c →
      Ppu.Raised (p.clock data) (c.dot (p.lineLevel (line12 0) (line12 0x1000))) :=
    fun p c data _ hp => hp.clock data
  obtain ⟨c', hc', hn⟩ := tracked hstep ha hin hc h n
  have hlevel : (b.dots n).level = _ := (arranged_dots ha n).level_eq
  rw [counts, hc', hlevel]
  exact hn.counts_iff

/-! A latch armed in the vertical blank. -/

def cartridgeIrq (b : Bus) : Bool := b.picture.cartridge.any Cartridge.irq

theorem cartridgeIrq_eq {c : LineCounter} (hc : b.lines? = some c) : b.cartridgeIrq = c.pending := by
  rw [lines?, mmc3?] at hc
  rw [cartridgeIrq]
  cases h : b.picture.cartridge with
  | none =>
    rw [h] at hc
    cases hc
  | some cart =>
    rw [h] at hc
    simp only [Option.bind_some] at hc
    cases hb : cart.board with
    | mmc3 m =>
      rw [hb] at hc
      cases hc
      rw [Option.any_some, Cartridge.irq, hb]
      rfl
    | _ =>
      rw [hb] at hc
      cases hc

def inBlank (b : Bus) : Prop := 341 * 240 ≤ b.ppu.position ∧ b.ppu.position < 341 * 261

theorem counts_of_inBlank (hin : b.ppu.InFrame) (h : b.inBlank) : b.counts = false := by
  apply counts_of_blank
  have hd := hin.dot_le
  obtain ⟨h240, h261⟩ := h
  rw [Ppu.position] at h240 h261
  rw [← Bool.not_eq_true, Ppu.onRenderLine_iff]
  omega

theorem blank_dots (hin : b.ppu.InFrame) (h : b.inBlank) {i : Nat}
    (hi : b.ppu.position + i < 341 * 261) : (b.dots i).inBlank ∧
      (b.dots i).ppu.frame = b.ppu.frame ∧ (b.dots i).ppu.position = b.ppu.position + i := by
  have he := elapsed_dots hin (show b.ppu.position + i < 89342 by omega)
  obtain ⟨hd, hs⟩ := inFrame_dots hin i
  have h240 := h.1
  rw [Ppu.elapsed, Ppu.elapsed] at he
  rw [inBlank]
  have hlt : (b.dots i).ppu.position < 89342 := by
    rw [Ppu.position]
    omega
  omega

theorem registers?_blank (hin : b.ppu.InFrame) (h : b.inBlank) {i : Nat}
    (hi : b.ppu.position + i < 341 * 261) : (b.dots i).registers? = b.registers? := by
  induction i with
  | zero => rfl
  | succ i ih =>
    obtain ⟨hblank, -, -⟩ := blank_dots hin h (show b.ppu.position + i < 341 * 261 by omega)
    rw [dots_succ, registers?_dot, counts_of_inBlank (inFrame_dots hin i) hblank,
      if_neg Bool.false_ne_true]
    exact ih (by omega)

theorem registers?_write (b : Bus) {a : UInt16} (ha : 0x8000 ≤ a) {v : UInt8}
    {f : LineCounter → LineCounter} (hf : ∀ m : Mmc3, (m.write a v).lines = f m.lines)
    (hfilter : ∀ c, f { c with a12High := false, lowDots := 0 } =
      { f c with a12High := false, lowDots := 0 }) :
    (b.write a v).registers? = b.registers?.map f := by
  rw [registers?, lines?, b.mmc3?_write ha, registers?, lines?]
  cases b.mmc3? with
  | none => rfl
  | some m => simp only [Option.map_some, hf, hfilter]

/-- Some dots later in the same vertical blank, with the registers changed by `f`. -/
structure Waited (b b' : Bus) (n : Nat) (f : LineCounter → LineCounter) : Prop where
  inFrame : b'.ppu.InFrame
  inBlank : b'.inBlank
  frame_eq : b'.ppu.frame = b.ppu.frame
  position_eq : b'.ppu.position = b.ppu.position + n
  arranged {background sprites : Nat} (h : b.ppu.Arranged background sprites) :
    b'.ppu.Arranged background sprites
  registers_eq : b'.registers? = b.registers?.map f

namespace Waited
variable {b' : Bus} {n : Nat} {f : LineCounter → LineCounter}

theorem refl (hin : b.ppu.InFrame) (h : b.inBlank) : Waited b b 0 id where
  inFrame := hin
  inBlank := h
  frame_eq := rfl
  position_eq := rfl
  arranged h := h
  registers_eq := Option.map_id'.symm

theorem dots (h : Waited b b' n f) {i : Nat} (hi : b.ppu.position + n + i < 341 * 261) :
    Waited b (b'.dots i) (n + i) f := by
  rw [← h.position_eq] at hi
  obtain ⟨hblank, hframe, hposition⟩ := blank_dots h.inFrame h.inBlank hi
  exact {
    inFrame := inFrame_dots h.inFrame i
    inBlank := hblank
    frame_eq := hframe.trans h.frame_eq
    position_eq := by rw [hposition, h.position_eq, Nat.add_assoc]
    arranged := fun ha => arranged_dots (h.arranged ha) i
    registers_eq := (registers?_blank h.inFrame h.inBlank hi).trans h.registers_eq }

theorem write (h : Waited b b' n f) {a : UInt16} (ha : 0x8000 ≤ a) {v : UInt8}
    {g : LineCounter → LineCounter} (hg : ∀ m : Mmc3, (m.write a v).lines = g m.lines)
    (hfilter : ∀ c, g { c with a12High := false, lowDots := 0 } =
      { g c with a12High := false, lowDots := 0 }) :
    Waited b (b'.write a v) n (g ∘ f) := by
  have hppu : (b'.write a v).ppu = b'.ppu := by rw [b'.write_above ha]
  exact {
    inFrame := by rw [hppu]; exact h.inFrame
    inBlank := by rw [Bus.inBlank, hppu]; exact h.inBlank
    frame_eq := by rw [hppu, h.frame_eq]
    position_eq := by rw [hppu, h.position_eq]
    arranged := fun ha => by rw [hppu]; exact h.arranged ha
    registers_eq := by rw [b'.registers?_write ha hg hfilter, h.registers_eq, Option.map_map] }

end Waited

/-- The latch is written, then a reload and the interrupt are asked for, with some dots between. -/
def arm (b : Bus) (latch v w : UInt8) (i j : Nat) : Bus :=
  ((((b.write 0xC000 latch).dots i).write 0xC001 v).dots j).write 0xE001 w

theorem waited_arm (hin : b.ppu.InFrame) (hblank : b.inBlank) (latch v w : UInt8) {i j : Nat}
    (hij : b.ppu.position + i + j < 341 * 261) :
    Waited b (b.arm latch v w i j) (i + j) fun c =>
      { c with latch := latch.toNat, counter := 0, reload := true, enabled := true } := by
  have hlatch : Waited b (b.write 0xC000 latch) 0 fun c => { c with latch := latch.toNat } :=
    (Waited.refl hin hblank).write (g := fun c => { c with latch := latch.toNat }) (by decide)
      (fun _ => rfl) (fun _ => rfl)
  have hreload : Waited b (((b.write 0xC000 latch).dots i).write 0xC001 v) i fun c =>
      { c with latch := latch.toNat, counter := 0, reload := true } := by
    have hdots := hlatch.dots (show b.ppu.position + 0 + i < 341 * 261 by omega)
    rw [Nat.zero_add] at hdots
    exact hdots.write (g := fun c => { c with counter := 0, reload := true }) (by decide)
      (fun _ => rfl) (fun _ => rfl)
  exact (hreload.dots (by omega)).write (g := fun c => { c with enabled := true }) (by decide)
    (fun _ => rfl) (fun _ => rfl)

/-- How many lines have been counted at a place, since the blank of frame `f`. In each line 79 dots
follow the one that counts. -/
def linesCounted (f e : Nat) : Nat := (e + 79 - (89342 * f + 341 * 261)) / 341

theorem linesCounted_next {p : Ppu} (hin : p.InFrame) {f e : Nat}
    (hblank : 89342 * f + 341 * 240 ≤ p.elapsed) (hshown : e ≤ 89342 * (f + 1) + 341 * 240)
    (he : e = p.elapsed + 1 + if p.skips then 1 else 0) :
    linesCounted f e = linesCounted f p.elapsed +
      if p.onRenderLine = true ∧ p.dot = 261 then 1 else 0 := by
  obtain ⟨hd, hs⟩ := hin
  have hcases : e = p.elapsed + 1 ∨ e = p.elapsed + 2 ∧ p.scanline = 261 ∧ p.dot = 340 := by
    split_ifs at he with hskip
    · simp only [Ppu.skips, Bool.and_eq_true, decide_eq_true_eq] at hskip
      exact .inr ⟨he, hskip.1⟩
    · exact .inl he
  rw [Ppu.elapsed, Ppu.position] at hblank hcases
  simp only [linesCounted, Ppu.elapsed, Ppu.position, Ppu.onRenderLine_iff]
  have hframe : p.frame = f ∨ p.frame = f + 1 := by omega
  rcases hframe with hframe | hframe
  · rw [hframe] at hcases ⊢
    split_ifs <;> omega
  · rw [hframe] at hcases ⊢
    split_ifs <;> omega

theorem count_since (hin : b.ppu.InFrame) (hblank : b.inBlank)
    (hcounts : ∀ n, (b.dots n).counts = true ↔
      (b.dots n).ppu.onRenderLine = true ∧ (b.dots n).ppu.dot = 261) {n : Nat}
    (hn : (b.dots n).ppu.elapsed ≤ 89342 * (b.ppu.frame + 1) + 341 * 240) :
    Nat.count (fun i => (b.dots i).counts) n = linesCounted b.ppu.frame (b.dots n).ppu.elapsed := by
  obtain ⟨h240, h261⟩ := hblank
  induction n with
  | zero =>
    rw [Nat.count_zero, dots_zero, linesCounted, Ppu.elapsed]
    omega
  | succ n ih =>
    have hstep := elapsed_dots_succ hin n
    have hstart : b.ppu.elapsed ≤ (b.dots n).ppu.elapsed := elapsed_mono hin n.zero_le
    have hblank : 89342 * b.ppu.frame + 341 * 240 ≤ (b.dots n).ppu.elapsed := by
      rw [Ppu.elapsed] at hstart
      omega
    rw [Nat.count_succ, ih (by omega), linesCounted_next (inFrame_dots hin n) hblank hn hstep]
    simp only [hcounts]

/-- Armed in a blank, the latch runs out on the line that it is the number of, from one. -/
theorem exists_irq (ha : b.ppu.Arranged 0 0x1000) (hin : b.ppu.InFrame) (hblank : b.inBlank)
    {c : LineCounter} (hc : b.lines? = some c) {latch : Nat} (h : c.Counted latch true 0)
    (h1 : 1 ≤ latch) (h240 : latch ≤ 240) :
    ∃ n, (b.dots n).ppu.frame = b.ppu.frame + 1 ∧ (b.dots n).ppu.scanline = latch - 1 ∧
      (b.dots n).ppu.dot = 261 ∧ (∀ k ≤ n, (b.dots k).cartridgeIrq = false) ∧
      (b.dots (n + 1)).cartridgeIrq = true := by
  -- In the blank nothing is asked of line 12 yet.
  have hraised : Ppu.Raised b.ppu c := by
    have hd := hin.dot_le
    obtain ⟨hfirst, hlast⟩ := hblank
    rw [Ppu.position] at hfirst hlast
    have hline : ¬b.ppu.onRenderLine = true := by
      rw [Ppu.onRenderLine_iff]
      omega
    exact ⟨fun hl => absurd hl hline, fun hl => absurd hl hline⟩
  have hcounts := counts_iff_place ha hin hc hraised
  have hirq (n : Nat) : (b.dots n).cartridgeIrq =
      decide (latch < Nat.count (fun i => (b.dots i).counts) n) := by
    obtain ⟨c', hc', hn⟩ := counted_dots hc h n
    rw [cartridgeIrq_eq hc', hn.pending_eq, Nat.zero_add, Bool.true_and]
  -- The dot that ends the cycle is found by its place and not by its number, since the frame may
  -- begin with its second dot.
  obtain ⟨n, hn⟩ := exists_elapsed hin
    (show b.ppu.elapsed ≤ 89342 * (b.ppu.frame + 1) + 341 * (latch - 1) + 261 by
      obtain ⟨-, hlast⟩ := hblank
      rw [Ppu.elapsed]
      omega) (by omega)
  obtain ⟨hf, hy, hd⟩ := (inFrame_dots hin n).at_elapsed (by omega) (by omega) hn
  have hcount : Nat.count (fun i => (b.dots i).counts) n = latch := by
    rw [count_since hin hblank hcounts (by omega), hn, linesCounted]
    omega
  refine ⟨n, hf, hy, hd, ?_, ?_⟩
  · intro k hk
    rw [hirq, decide_eq_false_iff_not, Nat.not_lt]
    exact (Nat.count_monotone _ hk).trans_eq hcount
  · have hlast : (b.dots n).counts = true := by
      rw [hcounts n, Ppu.onRenderLine_iff]
      omega
    rw [hirq, Nat.count_succ, hcount, if_pos hlast]
    exact decide_eq_true latch.lt_succ_self

theorem counted_of_registers {c : LineCounter} {latch : Nat}
    (h : b.registers? = some { c with latch, counter := 0, reload := true, enabled := true })
    (hp : c.pending = false) : ∃ c', b.lines? = some c' ∧ c'.Counted latch true 0 := by
  rw [registers?, Option.map_eq_some_iff] at h
  obtain ⟨c', hc', h⟩ := h
  simp only [LineCounter.mk.injEq] at h
  obtain ⟨hlatch, -, hreload, henabled, hpending, -⟩ := h
  refine ⟨c', hc', hlatch, henabled, hreload, fun hk => absurd hk (Nat.lt_irrefl 0), ?_⟩
  rw [hpending, hp]
  rfl

theorem count_scanline (hin : b.ppu.InFrame)
    (hcounts : ∀ n, (b.dots n).counts = true ↔
      (b.dots n).ppu.onRenderLine = true ∧ (b.dots n).ppu.dot = 261)
    {n : Nat} (hstart : (b.dots n).ppu.dot ≤ 1) :
    Nat.count (fun i => (b.dots (n + i)).counts) (341 - (b.dots n).ppu.dot) =
      if (b.dots n).ppu.onRenderLine then 1 else 0 := by
  have hline (i : Nat) (hi : (b.dots n).ppu.dot + i ≤ 340) : ((b.dots n).dots i).counts =
      ((b.dots n).ppu.onRenderLine && (b.dots n).ppu.dot + i == 261) := by
    obtain ⟨-, hy, hdot⟩ := place_dots (inFrame_dots hin n) hi
    have hcount := hcounts (n + i)
    rw [dots_add, hdot, Ppu.onRenderLine, hy] at hcount
    rw [Bool.eq_iff_iff, hcount, Bool.and_eq_true, beq_iff_eq]
    rfl
  have hone : Nat.count (fun d => (d == 261) = true) 341 = 1 := by decide +kernel
  simp only [dots_add]
  rw [count_line (p := fun d => d == 261) hstart rfl hline, hone]

/-- Whatever the memories hold and wherever the picture is scrolled, the counter counts in dot 261
of each line on which tiles are fetched and in no other, so that a latch armed in the vertical
blank runs out on the line that it is the number of. -/
theorem scanlines_counted (b : Bus) (m : Mmc3) (hm : b.mmc3? = some m)
    (ha : b.ppu.Arranged 0 0x1000) :
    (b.ppu.scanline ≤ 261 → b.ppu.dot ≤ 1 → ∀ n,
      ((b.dots n).counts = true ↔
        (b.dots n).ppu.onRenderLine = true ∧ (b.dots n).ppu.dot = 261) ∧
      (b.dots (n + 1)).registers? =
        (if (b.dots n).ppu.onRenderLine = true ∧ (b.dots n).ppu.dot = 261 then
          (b.dots n).registers?.map LineCounter.count
        else (b.dots n).registers?) ∧
      ((b.dots n).ppu.dot ≤ 1 →
        Nat.count (fun i => (b.dots (n + i)).counts) (341 - (b.dots n).ppu.dot) =
          if (b.dots n).ppu.onRenderLine then 1 else 0)) ∧
    (240 ≤ b.ppu.scanline → b.ppu.scanline ≤ 260 → b.ppu.dot ≤ 340 → m.lines.pending = false →
      ∀ (latch v w : UInt8) (i j : Nat), 1 ≤ latch.toNat → latch.toNat ≤ 240 →
        b.ppu.position + i + j < 341 * 261 →
        ∃ n, ((b.arm latch v w i j).dots n).ppu.frame = b.ppu.frame + 1 ∧
          ((b.arm latch v w i j).dots n).ppu.scanline = latch.toNat - 1 ∧
          ((b.arm latch v w i j).dots n).ppu.dot = 261 ∧
          (∀ k ≤ n, ((b.arm latch v w i j).dots k).cartridgeIrq = false) ∧
          ((b.arm latch v w i j).dots (n + 1)).cartridgeIrq = true) := by
  have hlines : b.lines? = some m.lines := by rw [lines?, hm]; rfl
  constructor
  · intro hs hd n
    have hin : b.ppu.InFrame := ⟨by omega, hs⟩
    have hraised : Ppu.Raised b.ppu m.lines := ⟨fun _ h4 => by omega, fun _ h262 => by omega⟩
    have hcounts := counts_iff_place ha hin hlines hraised
    refine ⟨hcounts n, ?_, fun hstart => count_scanline hin hcounts hstart⟩
    rw [dots_succ, registers?_dot]
    simp only [hcounts n]
  · intro hs hs' hd hp latch v w i j h1 h240 hij
    have hin : b.ppu.InFrame := ⟨hd, by omega⟩
    have hblank : b.inBlank := by
      rw [inBlank, Ppu.position]
      omega
    have hwaited := waited_arm hin hblank latch v w hij
    have hstart : b.registers? = some { m.lines with a12High := false, lowDots := 0 } := by
      rw [registers?, hlines]
      rfl
    have hregisters := hwaited.registers_eq
    rw [hstart, Option.map_some] at hregisters
    obtain ⟨c, hc, hcounted⟩ := counted_of_registers hregisters hp
    rw [← hwaited.frame_eq]
    exact exists_irq (hwaited.arranged ha) hwaited.inFrame hwaited.inBlank hc hcounted h1 h240

/-- From the first line on, and a latch of ten armed with some dots between the writes. -/
theorem scanlines_counted_chipped :
    (∀ n, ((chipped 0x08 0 0).dots n).counts = true ↔
      ((chipped 0x08 0 0).dots n).ppu.onRenderLine = true ∧
        ((chipped 0x08 0 0).dots n).ppu.dot = 261) ∧
    ∃ n, (((chipped 0x08 241 1).arm 10 0 0 12 15).dots n).ppu.scanline = 9 ∧
      (((chipped 0x08 241 1).arm 10 0 0 12 15).dots n).ppu.dot = 261 ∧
      (((chipped 0x08 241 1).arm 10 0 0 12 15).dots (n + 1)).cartridgeIrq = true := by
  have hcounted := scanlines_counted (chipped 0x08 0 0) { horizontal := true } rfl
    ⟨rfl, rfl, rfl, rfl⟩
  have harmed := scanlines_counted (chipped 0x08 241 1) { horizontal := true } rfl
    ⟨rfl, rfl, rfl, rfl⟩
  refine ⟨fun n => (hcounted.1 (by decide) (by decide) n).1, ?_⟩
  obtain ⟨n, -, hy, hd, -, hirq⟩ := harmed.2 (by decide) (by decide) (by decide) rfl 10 0 0 12 15
    (by decide) (by decide) (by decide)
  exact ⟨n, hy, hd, hirq⟩

end Bus
end Famicom
