import Famicom.Proofs.Bus.Dots

/-! The scanline counter with the background in the upper pattern table and the sprites in the
lower. Line 12 goes up for every tile and comes down for the number of the next, four dots before
it goes up again, and three are a rest that is long enough: the counter counts tiles. -/
namespace Famicom

open Cartridge

namespace Ppu

/-- The dots that fetch a tile's pattern: 32 of them for the line itself, two for the next. -/
def fetchesPattern (d : Nat) : Bool := d % 8 == 5 && (d ≤ 253 || (325 ≤ d && d ≤ 333))

/-- Line 12 before a dot: up since a pattern was fetched, until the next number is. -/
def raised (d : Nat) : Bool := ((6 ≤ d && d ≤ 257) || (326 ≤ d && d ≤ 337)) && (d + 2) % 8 < 4

theorem raised_iff (d : Nat) : raised d = true ↔
    (6 ≤ d ∧ d ≤ 257 ∨ 326 ≤ d ∧ d ≤ 337) ∧ (d + 2) % 8 < 4 := by
  simp [raised]

theorem not_raised_iff (d : Nat) : raised d = false ↔
    ¬((6 ≤ d ∧ d ≤ 257 ∨ 326 ≤ d ∧ d ≤ 337) ∧ (d + 2) % 8 < 4) := by
  rw [← raised_iff, Bool.not_eq_true]

theorem raised_outside {d : Nat} (h : d ≤ 5 ∨ 258 ≤ d ∧ d ≤ 325 ∨ 338 ≤ d) : raised d = false := by
  rw [not_raised_iff]
  omega

theorem fetchesPattern_iff (d : Nat) : fetchesPattern d = true ↔
    d % 8 = 5 ∧ (d ≤ 253 ∨ 325 ≤ d ∧ d ≤ 333) := by
  simp [fetchesPattern]

theorem level_tiles_iff (d : Nat) : level true false d = some true ↔
    (2 ≤ d ∧ d ≤ 257 ∨ 321 ≤ d ∧ d ≤ 337) ∧ (d % 8 = 5 ∨ d % 8 = 7) := by
  rcases dot_cases d with hd | hd | hd
  · rw [level_of_gathers _ _ hd]
    split_ifs with h1 h5
    · simp only [Option.some.injEq, Bool.false_eq_true, false_iff]
      omega
    · simp only [hd, h5, and_self]
    · simp only [hd, h5, and_false]
  · rw [level_of_sprites _ _ hd]
    split_ifs
    · simp only [Option.some.injEq, Bool.false_eq_true, false_iff]
      omega
    · simp only [false_iff]
      omega
  · rw [level_of_rest _ _ hd]
    split_ifs
    · simp only [Option.some.injEq, Bool.false_eq_true, false_iff]
      omega
    · simp only [false_iff]
      omega

theorem raised_succ (d : Nat) :
    (level true false d).getD (raised d) = raised (d + 1) := by
  rcases dot_cases d with hd | hd | hd
  · rw [level_of_gathers _ _ hd]
    split_ifs with h1 h5
    · rw [Option.getD_some, Eq.comm, not_raised_iff]
      omega
    · rw [Option.getD_some, Eq.comm, raised_iff]
      omega
    · rw [Option.getD_none, Bool.eq_iff_iff, raised_iff, raised_iff]
      omega
  · rw [level_of_sprites _ _ hd, raised_outside (by omega), raised_outside (by omega)]
    split_ifs <;> rfl
  · rw [level_of_rest _ _ hd, raised_outside (by omega), raised_outside (by omega)]
    split_ifs <;> rfl

/-- Before dot `d` line 12 is as the fetches have left it, and its rest as long as it can be. -/
structure InStep (d : Nat) (c : LineCounter) : Prop where
  a12High_eq : c.a12High = raised d
  rest : raised d = false → (d + 2) % 8 ≤ c.lowDots + 5

theorem InStep.dot {d : Nat} {c : LineCounter} (h : InStep d c) :
    InStep (d + 1) (c.dot (level true false d)) where
  a12High_eq := by rw [c.dot_a12High, h.a12High_eq, raised_succ]
  rest hr := by
    have hne : level true false d ≠ some true := by
      intro hlevel
      have hup := raised_succ d
      rw [hlevel, Option.getD_some, hr] at hup
      cases hup
    rw [c.dot_lowDots hne, h.a12High_eq]
    cases hraised : raised d with
    | true =>
      rw [raised_iff] at hraised
      omega
    | false =>
      have hrest := h.rest hraised
      rw [if_neg Bool.false_ne_true]
      omega

theorem InStep.counts_iff {d : Nat} {c : LineCounter} (h : InStep d c) :
    c.counts (level true false d) = true ↔ fetchesPattern d = true := by
  rw [c.counts_iff, level_tiles_iff, h.a12High_eq, fetchesPattern_iff, not_raised_iff]
  constructor
  · rintro ⟨hd, hlow, -⟩
    omega
  · intro hd
    have hlow : ¬((6 ≤ d ∧ d ≤ 257 ∨ 326 ≤ d ∧ d ≤ 337) ∧ (d + 2) % 8 < 4) := by omega
    have hrest := h.rest ((not_raised_iff d).mpr hlow)
    exact ⟨by omega, hlow, by omega⟩

theorem InStep.of_low {d : Nat} (hd : d ≤ 1) {c : LineCounter} (h : c.a12High = false) :
    InStep d c where
  a12High_eq := h.trans (raised_outside (by omega)).symm
  rest _ := by omega

/-- From the first dot of a line on, where line 12 may be up and its rest of any length: it comes
down with the first fetch. -/
structure Resumed (c₀ : LineCounter) (d : Nat) (c : LineCounter) : Prop where
  held : c₀.a12High = true → d ≤ 3 → c.a12High = true ∧ c.lowDots = c₀.lowDots
  released : c₀.a12High = true → 4 ≤ d → d ≤ 5 → c.a12High = false ∧ c.lowDots + 4 = c₀.lowDots + d
  inStep : c₀.a12High = false ∨ 6 ≤ d → InStep d c

theorem level_first {d : Nat} (h : d ≤ 2) : level true false d = none := by
  interval_cases d <;> rfl

theorem Resumed.start {d : Nat} (hd : d ≤ 1) (c : LineCounter) : Resumed c d c where
  held hc _ := ⟨hc, rfl⟩
  released _ h4 _ := by omega
  inStep h := .of_low hd (h.resolve_right (by omega))

theorem Resumed.dot {c₀ c : LineCounter} {d : Nat} (h : Resumed c₀ d c) :
    Resumed c₀ (d + 1) (c.dot (level true false d)) where
  held hc h3 := by
    obtain ⟨hhigh, hlow⟩ := h.held hc (by omega)
    rw [level_first (by omega), c.dot_a12High, c.dot_lowDots (by simp), hhigh]
    exact ⟨rfl, hlow⟩
  released hc h4 h5 := by
    have hcases : d = 3 ∨ d = 4 := by omega
    rcases hcases with rfl | rfl
    · obtain ⟨hhigh, hlow⟩ := h.held hc (by omega)
      rw [show level true false 3 = some false from rfl, c.dot_lowDots (by simp), hhigh, hlow]
      exact ⟨rfl, rfl⟩
    · obtain ⟨hdown, hlow⟩ := h.released hc (by omega) (by omega)
      rw [show level true false 4 = none from rfl, c.dot_lowDots (by simp), c.dot_a12High, hdown]
      exact ⟨rfl, by simp only [Bool.false_eq_true, if_false]; omega⟩
  inStep hstep := by
    -- Dot 5 raises line 12 whether it counts or not, and from there all lines are alike.
    by_cases hearly : c₀.a12High = true ∧ d = 5
    · rw [hearly.2]
      exact ⟨rfl, fun hr => by cases hr⟩
    · apply (h.inStep ?_).dot
      cases hc : c₀.a12High with
      | false => exact .inl rfl
      | true =>
        have h6 : 6 ≤ d + 1 := hstep.resolve_left (by rw [hc]; decide)
        have h5 : d ≠ 5 := fun h5 => hearly ⟨hc, h5⟩
        exact .inr (by omega)

theorem Resumed.counts_iff {c₀ c : LineCounter} {d : Nat} (h : Resumed c₀ d c) :
    c.counts (level true false d) = true ↔
      fetchesPattern d = true ∧ ¬(d = 5 ∧ c₀.a12High = true ∧ c₀.lowDots = 0) := by
  by_cases hstep : c₀.a12High = false ∨ 6 ≤ d
  · have hfirst : ¬(d = 5 ∧ c₀.a12High = true ∧ c₀.lowDots = 0) := by
      rintro ⟨h5, hc, -⟩
      rcases hstep with hlow | h6
      · rw [hc] at hlow
        cases hlow
      · omega
    rw [(h.inStep hstep).counts_iff, and_iff_left hfirst]
  · rw [not_or, Bool.not_eq_false] at hstep
    obtain ⟨hc, hd⟩ := hstep
    rw [c.counts_iff, level_tiles_iff, fetchesPattern_iff]
    by_cases h5 : d = 5
    · subst h5
      obtain ⟨hlow, hrest⟩ := h.released hc (by decide) (by decide)
      simp only [hc, hlow, true_and, true_or, and_true]
      omega
    · omega

/-- Once in step, line 12 is so on every line, and at rest between the frames. -/
structure Steady (p : Ppu) (c : LineCounter) : Prop where
  inStep : p.onRenderLine = true → InStep p.dot c
  low : p.onRenderLine = false → c.a12High = false

theorem Steady.of_low {p : Ppu} (hd : p.dot ≤ 1) {c : LineCounter} (h : c.a12High = false) :
    Steady p c where
  inStep _ := .of_low hd h
  low _ := h

theorem Steady.clock {p : Ppu} {c : LineCounter} (hin : p.InFrame) (h : Steady p c)
    (data : UInt8) : Steady (p.clock data) (c.dot (p.lineLevel true false)) := by
  have hblank (hl : p.onRenderLine = false) : (c.dot (p.lineLevel true false)).a12High = false := by
    rw [lineLevel, hl, if_neg Bool.false_ne_true]
    exact c.clock_a12High.trans (h.low hl)
  by_cases h340 : p.dot < 340
  · obtain ⟨hdot, -, hline, -⟩ := within_clock h340 data
    constructor
    · intro hl
      rw [hline] at hl
      rw [lineLevel, if_pos hl, hdot]
      exact (h.inStep hl).dot
    · intro hl
      exact hblank (hline ▸ hl)
  · have hd := hin.dot_le
    have hd' : p.dot = 340 := by omega
    apply Steady.of_low (upcoming_clock hin h340 data).2
    cases hl : p.onRenderLine with
    | true =>
      rw [lineLevel, if_pos hl, hd']
      rfl
    | false => exact hblank hl

end Ppu

namespace Bus
variable {b : Bus} {c : LineCounter}

theorem counts_tile (ha : b.ppu.Arranged 0x1000 0) (hin : b.ppu.InFrame) (hc : b.lines? = some c)
    (hd : b.ppu.dot ≤ 1) {i : Nat} (hi : b.ppu.dot + i ≤ 340) :
    (b.dots i).counts = (b.ppu.onRenderLine && (Ppu.fetchesPattern (b.ppu.dot + i) &&
      !(b.ppu.dot + i == 5 && c.a12High && c.lowDots == 0))) := by
  cases hl : b.ppu.onRenderLine with
  | false =>
    apply counts_of_blank
    obtain ⟨-, hy, -⟩ := place_dots hin hi
    rw [Ppu.onRenderLine, hy]
    exact hl
  | true =>
    have hstep : ∀ d c', d < 340 → Ppu.Resumed c d c' →
        Ppu.Resumed c (d + 1) (c'.dot (Ppu.level (line12 0x1000) (line12 0) d)) :=
      fun _ _ _ h => h.dot
    obtain ⟨c', hc', hresumed, hlevel⟩ := tracked_line hstep ha hin hl hc (.start hd c) hi
    have hiff := hresumed.counts_iff
    rw [counts, hc', Option.any_some, hlevel, Bool.eq_iff_iff]
    simp only [Bool.true_and, Bool.and_eq_true, Bool.not_eq_true', ← Bool.not_eq_true, beq_iff_eq,
      and_assoc]
    exact hiff

theorem count_tiles (ha : b.ppu.Arranged 0x1000 0) (hin : b.ppu.InFrame) (hc : b.lines? = some c)
    (hd : b.ppu.dot ≤ 1) : Nat.count (fun i => (b.dots i).counts) (341 - b.ppu.dot) =
      if b.ppu.onRenderLine then if c.a12High && c.lowDots == 0 then 33 else 34 else 0 := by
  rw [count_line (p := fun d => Ppu.fetchesPattern d && !(d == 5 && c.a12High && c.lowDots == 0)) hd
    rfl fun i hi => counts_tile ha hin hc hd hi]
  simp only [Bool.and_assoc]
  cases c.a12High && c.lowDots == 0
  · have hcount : Nat.count (fun d => (Ppu.fetchesPattern d && !(d == 5 && false)) = true) 341 = 34 := by
      decide +kernel
    rw [hcount]
    rfl
  · have hcount : Nat.count (fun d => (Ppu.fetchesPattern d && !(d == 5 && true)) = true) 341 = 33 := by
      decide +kernel
    rw [hcount]
    rfl

theorem low_after (ha : b.ppu.Arranged 0x1000 0) (hin : b.ppu.InFrame) (hc : b.lines? = some c)
    {k n : Nat} (hkn : k < n) (hl : (b.dots k).ppu.onRenderLine = true)
    (h340 : (b.dots k).ppu.dot = 340) (hstart : (b.dots n).ppu.dot ≤ 1) :
    ∃ c', (b.dots n).lines? = some c' ∧ c'.a12High = false := by
  obtain ⟨i, rfl⟩ := Nat.exists_eq_add_of_lt hkn
  obtain ⟨c', hc'⟩ := lines?_dots hc k
  obtain ⟨data, hdot⟩ := (b.dots k).ppu_dot
  have hlevel : (b.dots k).level = some false := by
    rw [level, (arranged_dots ha k).level_eq, Ppu.lineLevel, if_pos hl, h340]
    rfl
  have hlines := lines?_dots_succ hc'
  rw [hlevel] at hlines
  have hsteady : Ppu.Steady (b.dots (k + 1)).ppu (c'.dot (some false)) := by
    rw [dots_succ, hdot]
    exact .of_low (Ppu.upcoming_clock (inFrame_dots hin k) (by omega) data).2 rfl
  have hstep : ∀ p c data, Ppu.InFrame p → Ppu.Steady p c →
      Ppu.Steady (p.clock data) (c.dot (p.lineLevel (line12 0x1000) (line12 0))) :=
    fun _ _ data hin h => h.clock hin data
  obtain ⟨c'', hc'', h⟩ := tracked hstep (arranged_dots ha (k + 1)) (inFrame_dots hin (k + 1))
    hlines hsteady i
  rw [← dots_add, Nat.add_right_comm] at hc'' h
  refine ⟨c'', hc'', ?_⟩
  cases hrender : (b.dots (k + i + 1)).ppu.onRenderLine with
  | true =>
    exact (h.inStep hrender).a12High_eq.trans (Ppu.raised_outside (by omega))
  | false => exact h.low hrender

/-- Whatever the memories hold and wherever the picture is scrolled, on each line on which tiles
are fetched the counter counts once for each of 34 tiles. The first is missed where line 12 is up
with no rest as the line begins, which it is on no line but the first. On the other lines nothing
is counted, the rest of one that the run starts inside included. -/
theorem tiles_counted (b : Bus) (m : Mmc3) (hm : b.mmc3? = some m)
    (ha : b.ppu.Arranged 0x1000 0) (hin : b.ppu.InFrame) (n : Nat) :
    ∃ c, (b.dots n).lines? = some c ∧
      (b.dots (n + 1)).registers? =
        (if (b.dots n).counts then (b.dots n).registers?.map LineCounter.count
        else (b.dots n).registers?) ∧
      (240 ≤ (b.dots n).ppu.scanline → (b.dots n).ppu.scanline ≤ 260 →
        (b.dots n).counts = false) ∧
      ((b.dots n).ppu.dot ≤ 1 →
        (∀ i, (b.dots n).ppu.dot + i ≤ 340 → ((b.dots (n + i)).counts = true ↔
          (b.dots n).ppu.onRenderLine = true ∧
            Ppu.fetchesPattern ((b.dots n).ppu.dot + i) = true ∧
            ¬((b.dots n).ppu.dot + i = 5 ∧ c.a12High = true ∧ c.lowDots = 0))) ∧
        Nat.count (fun i => (b.dots (n + i)).counts) (341 - (b.dots n).ppu.dot) =
          (if (b.dots n).ppu.onRenderLine then if c.a12High && c.lowDots == 0 then 33 else 34
          else 0) ∧
        ∀ k < n, (b.dots k).ppu.onRenderLine = true → (b.dots k).ppu.dot = 340 →
          c.a12High = false) := by
  have hlines : b.lines? = some m.lines := by rw [lines?, hm]; rfl
  obtain ⟨c, hc⟩ := lines?_dots hlines n
  have ha' := arranged_dots ha n
  have hin' := inFrame_dots hin n
  refine ⟨c, hc, ?_, fun hfirst hlast => ?_, fun hd => ⟨?_, ?_, ?_⟩⟩
  · rw [dots_succ, registers?_dot]
  · apply counts_of_blank
    simp only [Ppu.onRenderLine, Bool.or_eq_false_iff, decide_eq_false_iff_not, beq_eq_false_iff_ne]
    omega
  · intro i hi
    rw [dots_add, counts_tile ha' hin' hc hd hi]
    simp only [Bool.and_eq_true, Bool.not_eq_true', ← Bool.not_eq_true, beq_iff_eq, and_assoc]
  · simp only [dots_add]
    exact count_tiles ha' hin' hc hd
  · intro k hk hl h340
    obtain ⟨c', hc', hlow⟩ := low_after ha hin hlines hk hl h340 hd
    rw [hc] at hc'
    cases hc'
    exact hlow

/-- From the first dot of the first line on, with line 12 down; and from inside a line of the
vertical blank. -/
theorem tiles_counted_chipped :
    Nat.count (fun i => ((chipped 0x10 0 0).dots (0 + i)).counts) 341 = 34 ∧
      ((chipped 0x10 250 100).dots 0).counts = false := by
  constructor
  · obtain ⟨c, hc, -, -, h⟩ := tiles_counted (chipped 0x10 0 0) { horizontal := true } rfl
      ⟨rfl, rfl, rfl, rfl⟩ ⟨by decide, by decide⟩ 0
    cases hc
    exact (h (by decide)).2.1
  · obtain ⟨-, -, -, hblank, -⟩ := tiles_counted (chipped 0x10 250 100) { horizontal := true } rfl
      ⟨rfl, rfl, rfl, rfl⟩ ⟨by decide, by decide⟩ 0
    exact hblank (by decide) (by decide)

/-- The rests within a line are not so short that they would not count. -/
theorem tiles_not_filtered : ¬∀ (b : Bus) (m : Mmc3), b.mmc3? = some m →
    b.ppu.Arranged 0x1000 0 → b.ppu.scanline < 240 → b.ppu.dot = 0 →
    Nat.count (fun i => (b.dots i).counts) 341 = 1 := by
  intro h
  have hone := h (chipped 0x10 0 0) { horizontal := true } rfl ⟨rfl, rfl, rfl, rfl⟩ (by decide) rfl
  have hall := count_tiles (b := chipped 0x10 0 0) (c := {}) ⟨rfl, rfl, rfl, rfl⟩
    ⟨by decide, by decide⟩ rfl (by decide)
  rw [show 341 - (chipped 0x10 0 0).ppu.dot = 341 from rfl, hone] at hall
  exact absurd hall (by decide)

end Bus
end Famicom
