import Famicom.Proofs.Ppu.Dot
import Mathlib.Logic.Function.Iterate

/-! The way over the picture: dot by dot along 262 lines of 341, and back to the first. Time is
counted in dots from the reset, as if no frame were cut short; each dot left out runs ahead of the
clock by one. -/
namespace Famicom.Ppu

structure InFrame (p : Ppu) : Prop where
  dot_le : p.dot ≤ 340
  scanline_le : p.scanline ≤ 261

theorem InFrame.clock {p : Ppu} (h : p.InFrame) (data : UInt8) : (p.clock data).InFrame := by
  obtain ⟨hd, hs⟩ := h
  constructor
  · rw [clock_dot, nextDot]
    split_ifs <;> omega
  · rw [clock_scanline, nextScanline]
    split_ifs <;> omega

def position (p : Ppu) : Nat := 341 * p.scanline + p.dot

/-- The place among all frames. -/
def elapsed (p : Ppu) : Nat := 89342 * p.frame + p.position

/-- The frame that begins after this dot begins with its second dot. -/
def skips (p : Ppu) : Bool :=
  p.scanline = 261 && p.dot = 340 && (p.rendering && (p.frame + 1) % 2 == 1)

theorem elapsed_clock {p : Ppu} (h : p.InFrame) (data : UInt8) :
    (p.clock data).elapsed = p.elapsed + 1 + if p.skips then 1 else 0 := by
  obtain ⟨hd, hs⟩ := h
  simp only [elapsed, position, clock_frame, clock_scanline, clock_dot]
  unfold nextFrame nextScanline nextDot skips
  by_cases h340 : p.dot < 340
  · have hne : ¬p.dot = 340 := by omega
    simp only [h340, hne, if_true, decide_false, Bool.and_false, Bool.false_and]
    simp
    omega
  by_cases h261 : p.scanline < 261
  · have hne : ¬p.scanline = 261 := by omega
    simp only [h340, h261, hne, if_true, if_false, decide_false, Bool.false_and]
    simp
    omega
  · have hd' : p.dot = 340 := by omega
    have hs' : p.scanline = 261 := by omega
    simp only [hd', hs', decide_true, Bool.true_and]
    split_ifs <;> omega

theorem position_clock {p : Ppu} (h : p.InFrame) (hp : p.position < 89341) (data : UInt8) :
    (p.clock data).position = p.position + 1 := by
  obtain ⟨hd, hs⟩ := h
  simp only [position] at hp
  simp only [position, clock_scanline, clock_dot]
  unfold nextScanline nextDot
  by_cases h340 : p.dot < 340
  · rw [if_pos h340, if_pos h340]
    omega
  · have h261 : p.scanline < 261 := by omega
    rw [if_neg h340, if_neg h340, if_pos h261, if_pos h261]
    omega

theorem position_clock_last {p : Ppu} (h : p.InFrame) (hp : p.position = 89341) (data : UInt8) :
    (p.clock data).position ≤ 1 := by
  obtain ⟨hd, hs⟩ := h
  simp only [position] at hp
  have hd' : p.dot = 340 := by omega
  have hs' : p.scanline = 261 := by omega
  simp only [position, clock_scanline, clock_dot, nextScanline, nextDot, hd', hs']
  split_ifs <;> omega

theorem onRenderLine_iff (q : Ppu) : q.onRenderLine ↔ q.scanline < 240 ∨ q.scanline = 261 := by
  simp [onRenderLine]

/-- The line that comes after this one; what is fetched at the end of a line is for it. -/
def upcoming (q : Ppu) : Nat := if q.scanline = 261 then 0 else q.scanline + 1

/-! Runs of dots over a memory that does not change, with no access from outside. -/

variable (m : Nat → UInt8)

def answer (p : Ppu) : UInt8 := p.fetch?.elim 0 m

def dotOver (p : Ppu) : Ppu := p.clock (p.answer m)

/-- What only the processor changes is as it was. -/
structure Settled (p q : Ppu) : Prop where
  ctrl_eq : q.ctrl = p.ctrl
  mask_eq : q.mask = p.mask
  t_eq : q.t = p.t
  fineX_eq : q.fineX = p.fineX
  oam_eq : q.oam = p.oam

theorem Settled.clock {p q : Ppu} (h : Settled p q) (data : UInt8) : Settled p (q.clock data) where
  ctrl_eq := by rw [clock_ctrl, h.ctrl_eq]
  mask_eq := by rw [clock_mask, h.mask_eq]
  t_eq := by rw [clock_t, h.t_eq]
  fineX_eq := by rw [clock_fineX, h.fineX_eq]
  oam_eq := by rw [clock_oam, h.oam_eq]

theorem Settled.dotOver {p q : Ppu} (h : Settled p q) : Settled p (q.dotOver m) := h.clock _

namespace Settled
variable {p q : Ppu}

theorem showsBackground_eq (h : Settled p q) : q.showsBackground = p.showsBackground := by
  rw [showsBackground, h.mask_eq]
  rfl

theorem showsSprites_eq (h : Settled p q) : q.showsSprites = p.showsSprites := by
  rw [showsSprites, h.mask_eq]
  rfl

theorem rendering_eq (h : Settled p q) : q.rendering = p.rendering := by
  rw [rendering, h.mask_eq]
  rfl

theorem backgroundTable_eq (h : Settled p q) : q.backgroundTable = p.backgroundTable := by
  rw [backgroundTable, h.ctrl_eq]
  rfl

theorem fetches (h : Settled p q) (hr : p.rendering = true) (hl : q.onRenderLine = true) :
    q.fetches = true := by
  rw [Ppu.fetches, h.rendering_eq, hr, hl]
  rfl

end Settled

theorem has_of_has {v narrow wide : UInt8} (h : Byte.has v narrow = true)
    (hw : wide &&& narrow = narrow) : Byte.has v wide = true := by
  simp only [Byte.has, bne_iff_ne, ne_eq] at h ⊢
  intro h0
  apply h
  rw [← hw, ← UInt8.and_assoc, h0, UInt8.zero_and]

theorem rendering_of_background {p : Ppu} (h : p.showsBackground = true) : p.rendering = true :=
  has_of_has h rfl

theorem rendering_of_sprites {p : Ppu} (h : p.showsSprites = true) : p.rendering = true :=
  has_of_has h rfl

theorem iterate_dotOver {motive : Ppu → Prop} (step : ∀ q, motive q → motive (q.dotOver m))
    {p : Ppu} (h : motive p) (n : Nat) : motive ((dotOver m)^[n] p) := by
  induction n with
  | zero => exact h
  | succ n ih =>
    rw [Function.iterate_succ_apply']
    exact step _ ih

structure Within (q r : Ppu) : Prop where
  dot_eq : r.dot = q.dot + 1
  scanline_eq : r.scanline = q.scanline
  onRenderLine_eq : r.onRenderLine = q.onRenderLine
  upcoming_eq : r.upcoming = q.upcoming

theorem within_clock {q : Ppu} (h : q.dot < 340) (data : UInt8) : Within q (q.clock data) := by
  have hs : (q.clock data).scanline = q.scanline := by
    rw [clock_scanline, nextScanline, if_pos h]
  refine ⟨?_, hs, ?_, ?_⟩
  · rw [clock_dot, nextDot, if_pos h]
  · rw [onRenderLine, hs]
    rfl
  · rw [upcoming, hs]
    rfl

theorem within_clock_of_next {q : Ppu} {data : UInt8} (h : 2 ≤ (q.clock data).dot) :
    Within q (q.clock data) := by
  apply within_clock
  rw [clock_dot, nextDot] at h
  split_ifs at h <;> omega

theorem within_of_lt {q : Ppu} (h : q.dot < 340) : Within q (q.dotOver m) := within_clock h _

theorem within_of_next {q : Ppu} (h : 2 ≤ (q.dotOver m).dot) : Within q (q.dotOver m) :=
  within_clock_of_next h

/-- The last dot of a line leads to the first of another, or to its second. -/
theorem upcoming_clock {q : Ppu} (h : q.InFrame) (h340 : ¬q.dot < 340) (data : UInt8) :
    (q.clock data).scanline = q.upcoming ∧ (q.clock data).dot ≤ 1 := by
  obtain ⟨-, hs⟩ := h
  rw [clock_scanline, clock_dot, nextScanline, nextDot, upcoming, if_neg h340, if_neg h340]
  constructor
  · split_ifs <;> omega
  · split_ifs <;> omega

theorem upcoming_of_last {q : Ppu} (h : q.InFrame) (h340 : ¬q.dot < 340) :
    (q.dotOver m).scanline = q.upcoming ∧ (q.dotOver m).dot ≤ 1 := upcoming_clock h h340 _

theorem onRenderLine_of_upcoming {q : Ppu} (h : q.InFrame) (hl : q.upcoming < 240) :
    q.onRenderLine = true := by
  have hs := h.scanline_le
  rw [onRenderLine_iff]
  rw [upcoming] at hl
  split_ifs at hl <;> omega

theorem InFrame.iterate {p : Ppu} (h : p.InFrame) (n : Nat) : ((dotOver m)^[n] p).InFrame :=
  iterate_dotOver m (fun _ hq => hq.clock _) h n

theorem settled_iterate (p : Ppu) (n : Nat) : Settled p ((dotOver m)^[n] p) :=
  iterate_dotOver m (fun _ hq => hq.dotOver m) ⟨rfl, rfl, rfl, rfl, rfl⟩ n

theorem position_iterate {p : Ppu} (h : p.InFrame) (n : Nat) (hn : p.position + n < 89342) :
    ((dotOver m)^[n] p).position = p.position + n := by
  induction n with
  | zero => rfl
  | succ n ih =>
    have hq := ih (by omega)
    rw [Function.iterate_succ_apply', dotOver, position_clock (h.iterate m n) (by omega), hq]
    omega

theorem InFrame.at_position {p : Ppu} (h : p.InFrame) {y d : Nat} (hd : d ≤ 340)
    (hp : p.position = 341 * y + d) : p.scanline = y ∧ p.dot = d := by
  obtain ⟨hd', -⟩ := h
  rw [position] at hp
  omega

/-- From the first dot of the last line, any place of the next frame but its first dot is reached
before that frame is over. -/
theorem reaches {p : Ppu} (hs : p.scanline = 261) (hd : p.dot = 0) {y d : Nat} (hy : y ≤ 261)
    (hd1 : 1 ≤ d) (hd340 : d ≤ 340) : ∃ n ≤ 341 * (y + 1) + d,
      ((dotOver m)^[n] p).scanline = y ∧ ((dotOver m)^[n] p).dot = d := by
  have hin : p.InFrame := ⟨by omega, by omega⟩
  -- One line of dots ends the frame, and from there the way is straight.
  have hp : p.position = 341 * 261 := by simp [position, hs, hd]
  have hlast := position_iterate m hin 340 (by omega)
  have hfirst : ((dotOver m)^[341] p).position ≤ 1 := by
    rw [Function.iterate_succ_apply']
    exact position_clock_last (hin.iterate m 340) (by omega) _
  refine ⟨341 * y + d - ((dotOver m)^[341] p).position + 341, by omega, ?_⟩
  rw [Function.iterate_add_apply]
  have hin' := hin.iterate m 341
  apply (hin'.iterate m _).at_position hd340
  rw [position_iterate m hin' _ (by omega)]
  omega

end Famicom.Ppu
