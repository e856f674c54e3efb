import Famicom.Proofs.Bus
import Famicom.Proofs.Ppu.Cadence
import Mathlib.Data.Nat.Count

/-! The bus while the processor leaves it alone: dot after dot, of the cartridge first and then of
the picture unit. A scanline counter on the cartridge takes nothing from a dot but how the fetch in
it left line 12. -/
namespace Famicom

open Cartridge

def Cartridge.Board.mmc3? : Board → Option Mmc3
  | mmc3 m => some m
  | _ => none

namespace Bus

def dot (b : Bus) : Bus := b.clockCartridge.clockPpu

def dots (b : Bus) (n : Nat) : Bus := dot^[n] b

theorem dots_zero (b : Bus) : b.dots 0 = b := rfl

theorem dots_succ (b : Bus) (n : Nat) : b.dots (n + 1) = (b.dots n).dot :=
  Function.iterate_succ_apply' dot n b

theorem dots_add (b : Bus) (n i : Nat) : b.dots (n + i) = (b.dots n).dots i := by
  rw [dots, Nat.add_comm, Function.iterate_add_apply]
  rfl

/-! The chip. -/

def mmc3? (b : Bus) : Option Mmc3 := b.picture.cartridge.bind (·.board.mmc3?)

def lines? (b : Bus) : Option LineCounter := b.mmc3?.map Mmc3.lines

/-- How a fetch in the next dot will leave line 12. -/
def level (b : Bus) : Option Bool := b.ppu.fetch?.map fun a => line12 (a % 0x4000)

theorem mmc3?_clock (c : Cartridge) : c.clock.board.mmc3? =
    c.board.mmc3?.map fun m => { m with lines := m.lines.clock } := by
  unfold Cartridge.clock
  split
  · next m h =>
    rw [h]
    rfl
  · next h =>
    cases hb : c.board with
    | mmc3 m => exact absurd hb (h m)
    | _ => rfl

theorem mmc3?_observe (c : Cartridge) (a : Nat) : (c.observe a).board.mmc3? =
    c.board.mmc3?.map fun m => { m with lines := m.lines.see (line12 a) } := by
  unfold Cartridge.observe
  split
  · next m h =>
    have hchip : (Board.mmc3 m).mmc3? = some m := rfl
    rw [h, hchip, Option.map_some, ← LineCounter.observe_eq]
    rfl
  · next h =>
    cases hb : c.board with
    | mmc3 m => exact absurd hb (h m)
    | _ => rfl

theorem mmc3?_clockCartridge (b : Bus) : b.clockCartridge.mmc3? =
    b.mmc3?.map fun m => { m with lines := m.lines.clock } := by
  unfold clockCartridge mmc3?
  cases b.picture.cartridge with
  | none => rfl
  | some c => exact mmc3?_clock c

theorem mmc3?_clockPpu (b : Bus) : b.clockPpu.mmc3? =
    b.level.elim b.mmc3? fun high => b.mmc3?.map fun m => { m with lines := m.lines.see high } := by
  unfold clockPpu level mmc3?
  cases b.ppu.fetch? with
  | none => rfl
  | some a =>
    obtain ⟨_, ⟨_, cartridge⟩, _⟩ := b
    cases cartridge with
    | none => rfl
    | some c => exact mmc3?_observe c (a % 0x4000)

theorem lines?_dot (b : Bus) : b.dot.lines? = b.lines?.map (·.dot b.level) := by
  have hlevel : b.clockCartridge.level = b.level := rfl
  rw [lines?, dot, mmc3?_clockPpu, mmc3?_clockCartridge, hlevel, lines?]
  cases b.mmc3? with
  | none => cases b.level <;> rfl
  | some m => cases b.level <;> rfl

theorem write_above (b : Bus) {a : UInt16} (ha : 0x8000 ≤ a) (v : UInt8) : b.write a v =
    { b with
      openBus := v
      picture.cartridge := b.picture.cartridge.map fun c =>
        { c with board := c.board.write c.storage.prgRom.size a v } } := by
  have hge (n : UInt16) (hn : n ≤ 0x8000) : ¬a < n := UInt16.not_lt.mpr (UInt16.le_trans hn ha)
  have hcart : (fun c : Cartridge => c.cpuWrite a v) =
      fun c => { c with board := c.board.write c.storage.prgRom.size a v } := by
    funext c
    rw [Cartridge.cpuWrite, if_neg (hge 0x6000 (by decide)), if_neg (hge 0x8000 (by decide))]
  simp only [write, hge 0x2000 (by decide), hge 0x4000 (by decide), hge 0x4020 (by decide),
    if_false, hcart]

theorem mmc3?_write (b : Bus) {a : UInt16} (ha : 0x8000 ≤ a) (v : UInt8) :
    (b.write a v).mmc3? = b.mmc3?.map (·.write a v) := by
  rw [b.write_above ha, mmc3?, mmc3?]
  cases b.picture.cartridge with
  | none => rfl
  | some c =>
    rw [Option.map_some, Option.bind_some, Option.bind_some]
    cases c.board <;> rfl

/-- Whether the next dot is one that the counter counts. -/
def counts (b : Bus) : Bool := b.lines?.any (·.counts b.level)

/-- The registers of the counter, without what it has seen of line 12. -/
def registers? (b : Bus) : Option LineCounter :=
  b.lines?.map fun c => { c with a12High := false, lowDots := 0 }

theorem registers?_dot (b : Bus) : b.dot.registers? =
    if b.counts then b.registers?.map LineCounter.count else b.registers? := by
  rw [registers?, lines?_dot, registers?, counts]
  cases b.lines? with
  | none => exact (ite_self _).symm
  | some c =>
    simp only [Option.map_some, Option.any_some]
    rw [c.dot_eq]
    cases c.counts b.level
    · rfl
    · rfl

/-! The place. -/

theorem ppu_dot (b : Bus) : ∃ data, b.dot.ppu = b.ppu.clock data := by
  obtain ⟨_, data, h⟩ := b.clockCartridge.clockPpu_eq
  exact ⟨data, congrArg Bus.ppu h⟩

variable {b : Bus}

theorem inFrame_dots (h : b.ppu.InFrame) (n : Nat) : (b.dots n).ppu.InFrame := by
  induction n with
  | zero => exact h
  | succ n ih =>
    obtain ⟨data, hdot⟩ := (b.dots n).ppu_dot
    rw [dots_succ, hdot]
    exact ih.clock data

theorem settled_dots (b : Bus) (n : Nat) : Ppu.Settled b.ppu (b.dots n).ppu := by
  induction n with
  | zero => exact ⟨rfl, rfl, rfl, rfl, rfl⟩
  | succ n ih =>
    obtain ⟨data, hdot⟩ := (b.dots n).ppu_dot
    rw [dots_succ, hdot]
    exact ih.clock data

theorem arranged_dots {background sprites : Nat} (h : b.ppu.Arranged background sprites) (n : Nat) :
    (b.dots n).ppu.Arranged background sprites := h.settled (b.settled_dots n)

theorem elapsed_dots_succ (h : b.ppu.InFrame) (n : Nat) : (b.dots (n + 1)).ppu.elapsed =
    (b.dots n).ppu.elapsed + 1 + if (b.dots n).ppu.skips then 1 else 0 := by
  obtain ⟨data, hdot⟩ := (b.dots n).ppu_dot
  rw [dots_succ, hdot]
  exact Ppu.elapsed_clock (inFrame_dots h n) data

theorem elapsed_mono (h : b.ppu.InFrame) : Monotone fun n => (b.dots n).ppu.elapsed :=
  monotone_nat_of_le_succ fun n => by
    rw [elapsed_dots_succ h]
    omega

theorem elapsed_dots (h : b.ppu.InFrame) {n : Nat} (hn : b.ppu.position + n < 89342) :
    (b.dots n).ppu.elapsed = b.ppu.elapsed + n := by
  induction n with
  | zero => rfl
  | succ n ih =>
    have hn' := ih (by omega)
    have hin := inFrame_dots h n
    have hskip : (b.dots n).ppu.skips = false := by
      obtain ⟨hd, hs⟩ := hin
      simp only [Ppu.elapsed, Ppu.position] at hn hn'
      simp only [Ppu.skips, Bool.and_eq_false_iff, decide_eq_false_iff_not]
      omega
    rw [elapsed_dots_succ h, hn', hskip]
    rfl

end Bus

theorem Ppu.InFrame.at_elapsed {p : Ppu} (h : p.InFrame) {f y d : Nat} (hy : y ≤ 261)
    (hd : d ≤ 340) (he : p.elapsed = 89342 * f + 341 * y + d) :
    p.frame = f ∧ p.scanline = y ∧ p.dot = d := by
  obtain ⟨hd', hs'⟩ := h
  rw [elapsed, position] at he
  omega

namespace Bus
variable {b : Bus}

theorem place_dots (h : b.ppu.InFrame) {i : Nat} (hi : b.ppu.dot + i ≤ 340) :
    (b.dots i).ppu.frame = b.ppu.frame ∧ (b.dots i).ppu.scanline = b.ppu.scanline ∧
      (b.dots i).ppu.dot = b.ppu.dot + i := by
  have hs := h.scanline_le
  apply (inFrame_dots h i).at_elapsed hs hi
  rw [elapsed_dots h (by rw [Ppu.position]; omega), Ppu.elapsed, Ppu.position]
  omega

theorem exists_elapsed (h : b.ppu.InFrame) {e : Nat} (he : b.ppu.elapsed ≤ e)
    (hfirst : e % 89342 ≠ 0) : ∃ n, (b.dots n).ppu.elapsed = e := by
  have hgrows (n : Nat) : b.ppu.elapsed + n ≤ (b.dots n).ppu.elapsed := by
    induction n with
    | zero => rfl
    | succ n ih =>
      rw [elapsed_dots_succ h]
      omega
  obtain ⟨n, hn, hmin⟩ : ∃ n, e ≤ (b.dots n).ppu.elapsed ∧ ∀ k < n, (b.dots k).ppu.elapsed < e := by
    have hex : ∃ n, e ≤ (b.dots n).ppu.elapsed := ⟨e, (Nat.le_add_left _ _).trans (hgrows e)⟩
    exact ⟨Nat.find hex, Nat.find_spec hex, fun k hk => Nat.lt_of_not_le (Nat.find_min hex hk)⟩
  refine ⟨n, ?_⟩
  cases n with
  | zero => exact Nat.le_antisymm he hn
  | succ n =>
    have hlast := hmin n n.lt_succ_self
    rw [elapsed_dots_succ h] at hn ⊢
    split_ifs at hn ⊢ with hskip
    · -- The place that is skipped is the first of a frame.
      simp only [Ppu.skips, Bool.and_eq_true, decide_eq_true_eq] at hskip
      rw [Ppu.elapsed, Ppu.position] at hn hlast ⊢
      omega
    · omega

/-! Both together. -/

theorem lines?_dots_succ {c : LineCounter} {n : Nat} (hc : (b.dots n).lines? = some c) :
    (b.dots (n + 1)).lines? = some (c.dot (b.dots n).level) := by
  rw [dots_succ, lines?_dot, hc]
  rfl

theorem lines?_dots {c : LineCounter} (hc : b.lines? = some c) (n : Nat) :
    ∃ c', (b.dots n).lines? = some c' := by
  induction n with
  | zero => exact ⟨c, hc⟩
  | succ n ih =>
    obtain ⟨c', hc'⟩ := ih
    exact ⟨_, lines?_dots_succ hc'⟩

theorem tracked {background sprites : Nat} {motive : Ppu → LineCounter → Prop}
    (step : ∀ p c data, p.InFrame → motive p c →
      motive (p.clock data) (c.dot (p.lineLevel (line12 background) (line12 sprites))))
    (ha : b.ppu.Arranged background sprites) (hin : b.ppu.InFrame) {c : LineCounter}
    (hc : b.lines? = some c) (h : motive b.ppu c) (n : Nat) :
    ∃ c', (b.dots n).lines? = some c' ∧ motive (b.dots n).ppu c' := by
  induction n with
  | zero => exact ⟨c, hc, h⟩
  | succ n ih =>
    obtain ⟨c', hc', hn⟩ := ih
    obtain ⟨data, hdot⟩ := (b.dots n).ppu_dot
    have hlevel : (b.dots n).level = _ := (arranged_dots ha n).level_eq
    refine ⟨_, lines?_dots_succ hc', ?_⟩
    rw [dots_succ, hdot, hlevel]
    exact step _ _ data (inFrame_dots hin n) hn

theorem counted_dots {c : LineCounter} (hc : b.lines? = some c) {latch k : Nat} {enabled : Bool}
    (h : c.Counted latch enabled k) (n : Nat) : ∃ c', (b.dots n).lines? = some c' ∧
      c'.Counted latch enabled (k + Nat.count (fun i => (b.dots i).counts) n) := by
  induction n with
  | zero => exact ⟨c, hc, h⟩
  | succ n ih =>
    obtain ⟨c', hc', hn⟩ := ih
    refine ⟨_, lines?_dots_succ hc', ?_⟩
    rw [Nat.count_succ, ← Nat.add_assoc, counts, hc']
    exact hn.dot (b.dots n).level

/-- Outside the lines on which tiles are fetched nothing counts. -/
theorem counts_of_blank (h : b.ppu.onRenderLine = false) : b.counts = false := by
  have hlevel : b.level = none := by
    rw [level, Ppu.fetch?, h, Bool.and_false]
    rfl
  rw [counts, hlevel]
  cases b.lines? <;> rfl

/-- On a line on which tiles are fetched, line 12 depends on the dot alone. -/
theorem tracked_line {background sprites : Nat} {motive : Nat → LineCounter → Prop}
    (step : ∀ d c, d < 340 → motive d c →
      motive (d + 1) (c.dot (Ppu.level (line12 background) (line12 sprites) d)))
    (ha : b.ppu.Arranged background sprites) (hin : b.ppu.InFrame)
    (hl : b.ppu.onRenderLine = true) {c : LineCounter} (hc : b.lines? = some c)
    (h : motive b.ppu.dot c) {i : Nat} (hi : b.ppu.dot + i ≤ 340) :
    ∃ c', (b.dots i).lines? = some c' ∧ motive (b.ppu.dot + i) c' ∧
      (b.dots i).level = Ppu.level (line12 background) (line12 sprites) (b.ppu.dot + i) := by
  have hlevel (i : Nat) (hi : b.ppu.dot + i ≤ 340) :
      (b.dots i).level = Ppu.level (line12 background) (line12 sprites) (b.ppu.dot + i) := by
    obtain ⟨-, hy, hd⟩ := place_dots hin hi
    have hl' : (b.dots i).ppu.onRenderLine = true := by
      rw [Ppu.onRenderLine, hy]
      exact hl
    rw [level, (arranged_dots ha i).level_eq, Ppu.lineLevel, if_pos hl', hd]
  induction i with
  | zero => exact ⟨c, hc, h, hlevel 0 hi⟩
  | succ i ih =>
    obtain ⟨c', hc', hd, hlevel'⟩ := ih (by omega)
    refine ⟨_, lines?_dots_succ hc', ?_, hlevel (i + 1) hi⟩
    rw [hlevel']
    exact step (b.ppu.dot + i) c' (by omega) hd

theorem count_line {p : Nat → Bool} (hstart : b.ppu.dot ≤ 1) (hfirst : p 0 = false)
    (h : ∀ i, b.ppu.dot + i ≤ 340 →
      (b.dots i).counts = (b.ppu.onRenderLine && p (b.ppu.dot + i))) :
    Nat.count (fun i => (b.dots i).counts) (341 - b.ppu.dot) =
      if b.ppu.onRenderLine then Nat.count (fun d => p d) 341 else 0 := by
  cases hl : b.ppu.onRenderLine with
  | false =>
    rw [if_neg Bool.false_ne_true, Nat.count_iff_forall_not]
    intro i hi
    rw [h i (by omega), hl]
    exact Bool.false_ne_true
  | true =>
    have hbefore : Nat.count (fun d => p d) b.ppu.dot = 0 := by
      rw [Nat.count_iff_forall_not]
      intro d hd
      rw [Nat.lt_one_iff.mp (Nat.lt_of_lt_of_le hd hstart), hfirst]
      exact Bool.false_ne_true
    have hsplit := Nat.count_add (fun d => p d) b.ppu.dot (341 - b.ppu.dot)
    rw [hbefore, Nat.zero_add, Nat.add_sub_of_le (by omega)] at hsplit
    rw [if_pos rfl, hsplit]
    simp only [hl, Bool.true_and] at h
    apply Nat.le_antisymm
    · exact Nat.count_mono_left fun i hi hp => (h i (by omega)).symm.trans hp
    · exact Nat.count_mono_left fun i hi hp => (h i (by omega)).trans hp

/-- An MMC3 cartridge, with the picture switched on at some place. -/
def chipped (ctrl : UInt8) (y d : Nat) : Bus where
  ppu := { ctrl, mask := 0x18, scanline := y, dot := d }
  picture.cartridge := some {
    header := ⟨2, 1, 4, false, false, false, false⟩
    storage := { prgRom := Array.replicate 0x8000 0, chr := Array.replicate 0x2000 0, chrWritable := false }
    board := .mmc3 { horizontal := true } }

end Bus
end Famicom
