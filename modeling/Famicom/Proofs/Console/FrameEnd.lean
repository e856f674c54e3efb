import Famicom.Proofs.Console.Driving
import Famicom.Proofs.Console.MasterClock
import Famicom.Proofs.Ppu.Status

/-! Running to the end of a frame. The dot that finishes a picture is never further ahead than a
whole frame, whatever the processor does to the rendering; so a run ends there, and the limit on its
ticks is never what ends it. -/
namespace Famicom.Console

/-! The place in the picture. -/

/-- The dot that comes next. -/
def At (s : Console) (line dot : Nat) : Prop := s.bus.ppu.scanline = line ∧ s.bus.ppu.dot = dot

section Place
variable {s : Console}

theorem at_iff (h : s.bus.ppu.InFrame) {line dot : Nat} (hdot : dot ≤ 340) :
    s.At line dot ↔ s.bus.ppu.position = 341 * line + dot := by
  constructor
  · rintro ⟨hline, hdot⟩
    rw [Ppu.position, hline, hdot]
  · exact h.at_position hdot

theorem position_lt (h : s.bus.ppu.InFrame) : s.bus.ppu.position < 89342 := by
  rw [position_eq h]
  exact Nat.mod_lt _ (by decide)

theorem position_ticked (h : s.bus.ppu.InFrame) {k : Nat} (hk : s.bus.ppu.position + k < 89342) :
    (s.ticked k).bus.ppu.position = s.bus.ppu.position + k := by
  rw [position_eq (inFrame_ticked h k), elapsed_ticked h hk, Ppu.elapsed]
  omega

theorem frame_ticked (h : s.bus.ppu.InFrame) {k : Nat} (hk : s.bus.ppu.position + k < 89342) :
    (s.ticked k).bus.ppu.frame = s.bus.ppu.frame := by
  rw [frame_eq (inFrame_ticked h k), elapsed_ticked h hk, Ppu.elapsed]
  omega

theorem not_finishes_ticked (h : s.bus.ppu.InFrame) {k : Nat}
    (hk : s.bus.ppu.position + k < 89342) (hne : s.bus.ppu.position + k ≠ 82182) :
    (s.ticked k).bus.ppu.finishes = false := by
  rw [Bool.eq_false_iff, ne_eq, Ppu.finishes_iff (inFrame_ticked h k), position_ticked h hk]
  exact hne

theorem begun (h : s.bus.ppu.InFrame) (hlast : s.bus.ppu.position = 89341) :
    (s.ticked 1).bus.ppu.position = (if s.bus.ppu.skips then 1 else 0) ∧
      (s.ticked 1).bus.ppu.frame = s.bus.ppu.frame + 1 := by
  have hin := inFrame_ticked h 1
  have helapsed : (s.ticked 1).bus.ppu.elapsed = _ := elapsed_tick h
  rw [position_eq hin, frame_eq hin, helapsed, Ppu.elapsed, hlast]
  split_ifs <;> omega

end Place

/-! The end of a picture, which place 82182 finishes. -/

/-- Tick `k`, from zero on, is the first to finish a picture. -/
structure FirstFinish (s : Console) (k : Nat) : Prop where
  finishes : (s.ticked k).bus.ppu.finishes = true
  before : ∀ j < k, (s.ticked j).bus.ppu.finishes = false

namespace FirstFinish
variable {s : Console}

theorem later {m k : Nat} (hbefore : ∀ j < m, (s.ticked j).bus.ppu.finishes = false)
    (h : FirstFinish (s.ticked m) k) : FirstFinish s (m + k) where
  finishes := by
    rw [ticked_add]
    exact h.finishes
  before j hj := by
    obtain hearly | hlate := Nat.lt_or_ge j m
    · exact hbefore j hearly
    · obtain ⟨i, rfl⟩ := Nat.exists_eq_add_of_le hlate
      rw [ticked_add]
      exact h.before i (by omega)

theorem within (h : s.bus.ppu.InFrame) (hp : s.bus.ppu.position ≤ 82182) :
    FirstFinish s (82182 - s.bus.ppu.position) where
  finishes := by
    rw [Ppu.finishes_iff (inFrame_ticked h _), position_ticked h (by omega)]
    omega
  before j hj := not_finishes_ticked h (by omega) (by omega)

theorem past (h : s.bus.ppu.InFrame) (hlast : s.bus.ppu.position = 89341) :
    FirstFinish s (1 + (82182 - if s.bus.ppu.skips then 1 else 0)) := by
  obtain ⟨hfirst, -⟩ := begun h hlast
  have hnext : FirstFinish (s.ticked 1) (82182 - (s.ticked 1).bus.ppu.position) := by
    apply within (inFrame_ticked h 1)
    rw [hfirst]
    split_ifs <;> decide
  rw [← hfirst]
  exact later (fun j hj => not_finishes_ticked h (by omega) (by omega)) hnext

theorem next (h : s.bus.ppu.InFrame) {k : Nat} (hp : 82182 < s.bus.ppu.position)
    (hk : s.bus.ppu.position + k = 89341) : FirstFinish s
      (k + (1 + (82182 - if (s.ticked k).bus.ppu.skips then 1 else 0))) := by
  have hlast : (s.ticked k).bus.ppu.position = 89341 := by
    rw [position_ticked h (by omega), hk]
  exact later (fun j hj => not_finishes_ticked h (by omega) (by omega))
    (past (inFrame_ticked h k) hlast)

theorem exists_of_inFrame (h : s.bus.ppu.InFrame) : ∃ k < 89342, FirstFinish s k := by
  have hlt := position_lt h
  obtain hahead | hbehind := Nat.lt_or_ge 82182 s.bus.ppu.position
  · obtain ⟨k, hk⟩ := Nat.exists_eq_add_of_le (Nat.le_of_lt_succ hlt)
    refine ⟨_, ?_, next h hahead hk.symm⟩
    split_ifs <;> omega
  · exact ⟨_, by omega, within h hbehind⟩

end FirstFinish

/-! The run. -/

theorem frame_withReady (s : Console) (on : Bool) :
    (s.withReady on).bus.ppu.frame = s.bus.ppu.frame := rfl

theorem frameReady_tick (s : Console) :
    s.tick.2.bus.ppu.frameReady = (s.bus.ppu.finishes || s.bus.ppu.frameReady) := by
  have htick : s.tick =
      (s.tick.1, s.tick.2.withReady (s.bus.ppu.finishes || s.bus.ppu.frameReady)) :=
    s.tick_withReady s.bus.ppu.frameReady
  rw [htick]
  rfl

theorem runTicks_eq {s : Console} {k n : Nat} (h : FirstFinish s k) (hk : k < n)
    (hready : s.bus.ppu.frameReady = false) :
    s.runTicks n = (s.ticked (k + 1)).withReady false := by
  induction n generalizing s k with
  | zero => omega
  | succ n ih =>
    have hticks : s.runTicks (n + 1) =
        if s.tick.2.bus.ppu.frameReady then s.tick.2.withReady false
        else (s.tick.2.withReady false).runTicks n := rfl
    have hmark := s.frameReady_tick
    rw [hready, Bool.or_false] at hmark
    rw [hticks, hmark]
    cases k with
    | zero =>
      have hnow : s.bus.ppu.finishes = true := h.finishes
      rw [if_pos hnow]
      rfl
    | succ k =>
      have hnot : s.bus.ppu.finishes = false := h.before 0 (by omega)
      rw [hnot] at hmark
      have hsame : s.tick.2.withReady false = s.tick.2 := congrArg s.tick.2.withReady hmark.symm
      have hlater : FirstFinish s.tick.2 k :=
        ⟨h.finishes, fun j hj => h.before (j + 1) (Nat.succ_lt_succ hj)⟩
      rw [hnot, if_neg Bool.false_ne_true, hsame, ih hlater (by omega) hmark]
      rfl

theorem runFrame_eq {s : Console} {k : Nat} (h : FirstFinish s k) (hk : k < maxFrameTicks) :
    s.runFrame = (k + 1, (s.ticked (k + 1)).withReady false) := by
  have hfinishes (j : Nat) : ((s.withReady false).ticked j).bus.ppu.finishes =
      (s.ticked j).bus.ppu.finishes :=
    congrArg (·.bus.ppu.finishes) (s.ticked_withReady false j)
  have hfirst : FirstFinish (s.withReady false) k :=
    ⟨(hfinishes k).trans h.finishes, fun j hj => (hfinishes j).trans (h.before j hj)⟩
  have hrun : (s.withReady false).runTicks maxFrameTicks = (s.ticked (k + 1)).withReady false :=
    (runTicks_eq hfirst hk rfl).trans (s.ticked_withReady false (k + 1))
  have hticks : ((s.ticked (k + 1)).withReady false).pacer.ticks = s.pacer.ticks + (k + 1) :=
    s.ticks_ticked (k + 1)
  have hframe : s.runFrame =
      (((s.withReady false).runTicks maxFrameTicks).pacer.ticks - s.pacer.ticks,
        (s.withReady false).runTicks maxFrameTicks) := rfl
  rw [hframe, hrun, hticks, Nat.add_sub_cancel_left]

/-! The consoles that a host can have in front of it. -/

inductive Reachable : Console → Prop
  | ofConfig (config : Config) : Reachable (ofConfig config)
  | insert {c : Console} (h : Reachable c) (cartridge : Cartridge) : Reachable (c.insert cartridge)
  | reset {c : Console} (h : Reachable c) : Reachable c.reset
  | tick {c : Console} (h : Reachable c) : Reachable c.tick.2
  | runFrame {c : Console} (h : Reachable c) : Reachable c.runFrame.2
  | readSamples {c d : Console} (h : Reachable c) {buffer out : Array UInt8} {n : Nat}
      (hread : c.readSamples? buffer = some (n, out, d)) : Reachable d
  | setButtons {c : Console} (h : Reachable c) (seat : Nat) (mask : UInt8) :
      Reachable (c.setButtons seat mask)
  | startAt {c : Console} (h : Reachable c) (pc : UInt16) : Reachable (c.startAt pc)

namespace Reachable

theorem ppu_runTicks {c : Console} (h : c.bus.ppu.Reachable) (n : Nat) :
    (c.runTicks n).bus.ppu.Reachable := by
  induction n generalizing c with
  | zero => exact h
  | succ n ih =>
    have hnext := (reachable_ticked h 1).takeFrameReady
    rw [runTicks]
    dsimp only
    split_ifs
    · exact hnext
    · exact ih hnext

theorem ppu {c : Console} (h : Reachable c) : c.bus.ppu.Reachable := by
  induction h with
  | ofConfig config => exact .start
  | @insert c _ cartridge ih =>
    exact (ppu_reset { c with bus := c.bus.insert cartridge }).reachable ih.reset
  | @reset c _ ih => exact c.ppu_reset.reachable ih.reset
  | tick _ ih => exact reachable_ticked ih 1
  | runFrame _ ih => exact ppu_runTicks ih.takeFrameReady _
  | readSamples _ hread ih =>
    obtain ⟨t, -, rfl⟩ := (filled hread).reached
    exact reachable_ticked ih t
  | setButtons _ seat mask ih =>
    match seat with
    | 0 | 1 | _ + 2 => exact ih
  | startAt _ pc ih => exact ih

theorem inFrame {c : Console} (h : Reachable c) : c.bus.ppu.InFrame := h.ppu.inFrame

theorem ticked {c : Console} (h : Reachable c) (n : Nat) : Reachable (c.ticked n) := by
  induction n generalizing c with
  | zero => exact h
  | succ n ih => exact ih h.tick

end Reachable

/-- A run of `n` ticks to the end of a frame. -/
structure RanToEnd (s : Console) (n : Nat) (t : Console) : Prop where
  pos : 1 ≤ n
  le : n ≤ 89342
  /-- The ticks are all that happens, and the mark that they leave is cleared. -/
  ticked_eq : t = (s.ticked n).withReady false
  /-- The last of them, and none before it, finishes a picture. -/
  last_iff : ∀ j < n, (s.ticked j).At 241 1 ↔ j + 1 = n
  at_end : t.At 241 2
  ready_eq : t.bus.ppu.frameReady = false

/-- A run of `n` ticks over the last dot of a frame, 7158 ticks on, to the end of the next. -/
structure RanThrough (s : Console) (n : Nat) (t : Console) : Prop where
  at_last : (s.ticked 7158).At 261 340
  frame_eq : t.bus.ppu.frame = s.bus.ppu.frame + 1
  length : n = 89341 ∨ n = 89342
  short_iff : n = 89341 ↔
    t.bus.ppu.frame % 2 = 1 ∧ (s.ticked 7158).bus.ppu.rendering = true

theorem RanToEnd.marked {s t : Console} {n : Nat} (h : RanToEnd s n t) :
    (s.ticked n).At 241 2 ∧ (s.ticked n).bus.ppu.frameReady = true := by
  obtain ⟨k, rfl⟩ := Nat.exists_eq_add_of_le' h.pos
  obtain ⟨hline, hdot⟩ := (h.last_iff k (Nat.lt_succ_self k)).mpr rfl
  have hfinishes : (s.ticked k).bus.ppu.finishes = true := by
    rw [Ppu.finishes, hline, hdot]
    rfl
  have hnext : s.ticked (k + 1) = (s.ticked k).tick.2 := s.ticked_add k 1
  constructor
  · have hmark := h.at_end
    rw [h.ticked_eq] at hmark
    exact hmark
  · rw [hnext, frameReady_tick, hfinishes, Bool.true_or]

theorem ranToEnd {s : Console} (h : s.bus.ppu.InFrame) {k : Nat} (hk : k < 89342)
    (hfirst : FirstFinish s k) : RanToEnd s (k + 1) ((s.ticked (k + 1)).withReady false) := by
  have hplace (j : Nat) : (s.ticked j).At 241 1 ↔ (s.ticked j).bus.ppu.finishes = true := by
    rw [at_iff (inFrame_ticked h j) (by decide), Ppu.finishes_iff (inFrame_ticked h j)]
  have hin := inFrame_ticked h k
  have hposition := (Ppu.finishes_iff hin).mp hfirst.finishes
  have hend : (s.ticked (k + 1)).At 241 2 := by
    have hmoved := position_ticked hin (k := 1) (by omega)
    rw [ticked_add, at_iff (inFrame_ticked hin 1) (by decide), hmoved, hposition]
  refine ⟨Nat.le_add_left 1 k, hk, rfl, fun j hj => ?_, hend, rfl⟩
  rw [hplace]
  obtain hbefore | rfl := Nat.lt_or_eq_of_le (Nat.le_of_lt_succ hj)
  · rw [hfirst.before j hbefore]
    constructor
    · intro hfalse
      cases hfalse
    · omega
  · exact iff_of_true hfirst.finishes rfl

theorem ranThrough {s : Console} (h : s.bus.ppu.InFrame) (hat : s.At 241 2) :
    RanThrough s s.runFrame.1 s.runFrame.2 := by
  have hposition : s.bus.ppu.position = 82183 := (at_iff h (by decide)).mp hat
  have hin := inFrame_ticked h 7158
  have hlast : (s.ticked 7158).bus.ppu.position = 89341 := by
    rw [position_ticked h (by omega), hposition]
  have hframe : (s.ticked 7158).bus.ppu.frame = s.bus.ppu.frame := frame_ticked h (by omega)
  have hskips : (s.ticked 7158).bus.ppu.skips = true ↔
      (s.bus.ppu.frame + 1) % 2 = 1 ∧ (s.ticked 7158).bus.ppu.rendering = true := by
    rw [skips_eq hin, hlast, hframe, beq_self_eq_true, Bool.true_and, Bool.and_eq_true,
      beq_iff_eq, and_comm]
  have hfirst := FirstFinish.next h (k := 7158) (by omega) (by omega)
  obtain ⟨hbegin, hnumber⟩ := begun hin hlast
  generalize hm : (if (s.ticked 7158).bus.ppu.skips then 1 else 0) = m at hfirst hbegin
  have hout : m ≤ 1 := by
    rw [← hm]
    split_ifs <;> decide
  have hrun : s.runFrame = (89342 - m, (s.ticked (89342 - m)).withReady false) := by
    have hlength : 7158 + (1 + (82182 - m)) + 1 = 89342 - m := by omega
    rw [runFrame_eq hfirst (Nat.lt_trans (show _ < 89342 by omega) (by decide)), hlength]
  have hentered : ((s.ticked (89342 - m)).withReady false).bus.ppu.frame =
      s.bus.ppu.frame + 1 := by
    have hsplit : 89342 - m = 7158 + 1 + (82183 - m) := by omega
    rw [frame_withReady, hsplit, ticked_add, ticked_add,
      frame_ticked (inFrame_ticked hin 1) (by omega), hnumber, hframe]
  rw [hrun]
  refine ⟨(at_iff hin (by decide)).mpr hlast, hentered, by omega, ?_⟩
  rw [hentered, ← hskips]
  split_ifs at hm with hskip
  · exact iff_of_true (by omega) hskip
  · exact iff_of_false (by omega) hskip

/-- Running to the end of a frame comes to that end, in no more ticks than a frame has, with the
last of them and not with the limit. From right behind the end of a frame it takes a whole one,
which is a tick shorter if it is odd and rendering is on in the last dot before it. -/
theorem runFrame_ends_on_frame {s : Console} (h : Reachable s) :
    RanToEnd s s.runFrame.1 s.runFrame.2 ∧
      (s.At 241 2 → RanThrough s s.runFrame.1 s.runFrame.2) := by
  have hin := h.inFrame
  constructor
  · obtain ⟨k, hk, hfirst⟩ := FirstFinish.exists_of_inFrame hin
    rw [runFrame_eq hfirst (Nat.lt_trans hk (by decide))]
    exact ranToEnd hin hk hfirst
  · exact ranThrough hin

/-- The first frame without a cartridge, and then the second, over the mark that the ticks of the
first have left. -/
theorem runFrame_ends_on_frame_marked :
    RanToEnd (ofConfig {}) (ofConfig {}).runFrame.1 (ofConfig {}).runFrame.2 ∧
      ∃ t, Reachable t ∧ t.bus.ppu.frameReady = true ∧ t.At 241 2 ∧
        RanThrough t t.runFrame.1 t.runFrame.2 := by
  have hs : Reachable (ofConfig {}) := .ofConfig {}
  obtain ⟨hend, -⟩ := runFrame_ends_on_frame hs
  obtain ⟨hat, hready⟩ := hend.marked
  have ht := hs.ticked (ofConfig {}).runFrame.1
  exact ⟨hend, _, ht, hready, hat, (runFrame_ends_on_frame ht).2 hat⟩

end Famicom.Console
