import Famicom.Proofs.Console.Run
import Mathlib.Data.Nat.Count

/-! The clocks of the console against each other. The picture unit is as far on as there were
ticks, and one dot further for each that was left out; the processor has counted a third of them.
So a frame is as long as its dots, whenever rendering is switched. -/
namespace Famicom.Console

theorem inFrame_reset (p : Ppu) : p.reset.InFrame := ⟨Nat.zero_le _, Nat.zero_le _⟩

theorem inFrame_accessed {p q : Ppu} (h : p.InFrame) (ha : Ppu.Accessed p q) : q.InFrame := by
  obtain ⟨-, hs, hd⟩ := ha.place
  exact ⟨hd ▸ h.dot_le, hs ▸ h.scanline_le⟩

theorem elapsed_accessed {p q : Ppu} (ha : Ppu.Accessed p q) : q.elapsed = p.elapsed := by
  obtain ⟨hf, hs, hd⟩ := ha.place
  rw [Ppu.elapsed, Ppu.position, hf, hs, hd]
  rfl

theorem inFrame_ticked {s : Console} (h : s.bus.ppu.InFrame) (n : Nat) :
    (s.ticked n).bus.ppu.InFrame := by
  induction n generalizing s with
  | zero => exact h
  | succ n ih =>
    obtain ⟨data, ha⟩ := s.ppu_tick
    exact ih (inFrame_accessed (h.clock data) ha)

theorem inFrame_run (c : Console) (n : Nat) : (c.run n).bus.ppu.InFrame :=
  inFrame_ticked (inFrame_accessed (inFrame_reset _) c.ppu_reset) n

/-- One tick is one dot, or two where the first dot of a frame is left out. -/
theorem elapsed_tick {s : Console} (h : s.bus.ppu.InFrame) :
    s.tick.2.bus.ppu.elapsed = s.bus.ppu.elapsed + 1 + if s.bus.ppu.skips then 1 else 0 := by
  obtain ⟨data, ha⟩ := s.ppu_tick
  rw [elapsed_accessed ha, Ppu.elapsed_clock h]

def skipped (c : Console) (n : Nat) : Nat := Nat.count (fun k => (c.run k).bus.ppu.skips) n

theorem elapsed_run (c : Console) (n : Nat) :
    (c.run n).bus.ppu.elapsed = n + c.skipped n := by
  induction n with
  | zero => rw [run_zero, elapsed_accessed c.ppu_reset]; rfl
  | succ n ih =>
    rw [run_succ, elapsed_tick (c.inFrame_run n), ih, skipped, skipped, Nat.count_succ]
    omega

theorem cycles_run (c : Console) (n : Nat) : (c.run n).cpu.cycles = n / 3 := by
  induction n with
  | zero => rfl
  | succ n ih =>
    rw [run_succ, cpu_tick]
    split_ifs with h
    · rw [Cpu.clock_cycles, ih]
      rw [cycles, ticks_run, beq_iff_eq] at h
      omega
    · rw [ih]
      rw [cycles, ticks_run, beq_iff_eq] at h
      omega

/-! Frames. -/

theorem position_eq {p : Ppu} (h : p.InFrame) : p.position = p.elapsed % 89342 := by
  obtain ⟨hd, hs⟩ := h
  rw [Ppu.elapsed, Ppu.position]
  omega

theorem frame_eq {p : Ppu} (h : p.InFrame) : p.frame = p.elapsed / 89342 := by
  obtain ⟨hd, hs⟩ := h
  rw [Ppu.elapsed, Ppu.position]
  omega

theorem skips_eq {p : Ppu} (h : p.InFrame) :
    p.skips = (p.position == 89341 && (p.rendering && (p.frame + 1) % 2 == 1)) := by
  obtain ⟨hd, hs⟩ := h
  rw [Ppu.skips, Ppu.position]
  congr 1
  rw [Bool.eq_iff_iff]
  simp only [Bool.and_eq_true, decide_eq_true_eq, beq_iff_eq]
  omega

theorem elapsed_ticked {s : Console} (h : s.bus.ppu.InFrame) {k : Nat}
    (hk : s.bus.ppu.position + k < 89342) :
    (s.ticked k).bus.ppu.elapsed = s.bus.ppu.elapsed + k := by
  induction k with
  | zero => rfl
  | succ k ih =>
    have hin := inFrame_ticked h k
    have helapsed := ih (by omega)
    have hskip : (s.ticked k).bus.ppu.skips = false := by
      rw [position_eq h] at hk
      rw [skips_eq hin, position_eq hin, helapsed]
      simp only [Bool.and_eq_false_iff, beq_eq_false_iff_ne]
      omega
    have hnext : s.ticked (k + 1) = (s.ticked k).tick.2 := s.ticked_add k 1
    rw [hnext, elapsed_tick hin, helapsed, hskip]
    rfl

theorem elapsed_within (c : Console) (s k : Nat)
    (h : (c.run s).bus.ppu.elapsed % 89342 + k < 89342) :
    (c.run (s + k)).bus.ppu.elapsed = (c.run s).bus.ppu.elapsed + k := by
  rw [← position_eq (c.inFrame_run s)] at h
  rw [run_add]
  exact elapsed_ticked (c.inFrame_run s) h

/-- What is left out of frame `f` if it begins in tick `s`. -/
def leftOut (c : Console) (f s : Nat) : Nat :=
  if f % 2 = 1 ∧ (c.run (s - 1)).bus.ppu.rendering then 1 else 0

theorem leftOut_le (c : Console) (f s : Nat) : c.leftOut f s ≤ 1 := by
  unfold leftOut
  split_ifs <;> decide

/-- The tick that frame `f` begins in. -/
def frameStart (c : Console) : (f : Nat) → Nat
  | 0 => 0
  | f + 1 => frameStart c f + (89342 - c.leftOut f (frameStart c f))

theorem elapsed_frameStart (c : Console) (f : Nat) :
    (c.run (c.frameStart f)).bus.ppu.elapsed = 89342 * f + c.leftOut f (c.frameStart f) := by
  induction f with
  | zero => rw [elapsed_run]; rfl
  | succ f ih =>
    have hout := c.leftOut_le f (c.frameStart f)
    generalize hl : c.leftOut f (c.frameStart f) = l at ih hout
    have hlast := c.elapsed_within (c.frameStart f) (89341 - l) (by omega)
    rw [ih] at hlast
    have hstart : c.frameStart (f + 1) = c.frameStart f + (89341 - l) + 1 := by
      rw [frameStart, hl]
      omega
    have hin := c.inFrame_run (c.frameStart f + (89341 - l))
    -- The tick before `frameStart (f + 1)` is the last dot of frame `f`.
    have hplace : (89342 * f + l + (89341 - l)) % 89342 = 89341 := by omega
    have hframe : (89342 * f + l + (89341 - l)) / 89342 = f := by omega
    rw [leftOut, hstart, Nat.add_sub_cancel, run_succ, elapsed_tick hin, hlast, skips_eq hin,
      position_eq hin, frame_eq hin, hlast, hplace, hframe]
    simp only [beq_self_eq_true, Bool.true_and, Bool.and_eq_true, beq_iff_eq, and_comm]
    omega

theorem frame_of_mem (c : Console) {f n : Nat} (hs : c.frameStart f ≤ n)
    (hn : n < c.frameStart (f + 1)) : (c.run n).bus.ppu.frame = f := by
  have hstart := c.elapsed_frameStart f
  have hout := c.leftOut_le f (c.frameStart f)
  rw [frameStart] at hn
  obtain ⟨k, rfl⟩ := Nat.exists_eq_add_of_le hs
  rw [frame_eq (c.inFrame_run _), c.elapsed_within _ k (by omega), hstart]
  omega

theorem exists_frame (c : Console) (n : Nat) :
    ∃ f, c.frameStart f ≤ n ∧ n < c.frameStart (f + 1) := by
  have hlt (f : Nat) : c.frameStart f < c.frameStart (f + 1) := by
    have := c.leftOut_le f (c.frameStart f)
    rw [frameStart]
    omega
  induction n with
  | zero => exact ⟨0, Nat.le_refl _, hlt 0⟩
  | succ n ih =>
    obtain ⟨f, hs, hn⟩ := ih
    by_cases hnext : n + 1 < c.frameStart (f + 1)
    · exact ⟨f, by omega, hnext⟩
    · have := hlt (f + 1)
      exact ⟨f + 1, by omega, by omega⟩

/-- Time is conserved. At every point of every run the dots passed are the ticks and the dots left
out, and the processor has counted a third of the ticks. A frame is 89342 ticks, or one fewer if it
is an odd one and rendering was on in the last dot before it. -/
theorem ticks_conserved (c : Console) :
    (∀ n, (c.run n).pacer.ticks = n ∧ (c.run n).cpu.cycles = n / 3 ∧
      89342 * (c.run n).bus.ppu.frame + 341 * (c.run n).bus.ppu.scanline + (c.run n).bus.ppu.dot =
        n + Nat.count (fun k => (c.run k).bus.ppu.skips) n) ∧
    ∀ f, ∃ s, ∀ n, (c.run n).bus.ppu.frame = f ↔
      s ≤ n ∧ n < s + (89342 - if f % 2 = 1 ∧ (c.run (s - 1)).bus.ppu.rendering then 1 else 0) := by
  constructor
  · intro n
    refine ⟨c.ticks_run n, c.cycles_run n, ?_⟩
    have h := c.elapsed_run n
    rw [Ppu.elapsed, Ppu.position, ← Nat.add_assoc] at h
    exact h
  · intro f
    refine ⟨c.frameStart f, fun n => ⟨?_, fun h => c.frame_of_mem h.1 h.2⟩⟩
    rintro rfl
    obtain ⟨g, hs, hn⟩ := c.exists_frame n
    rw [c.frame_of_mem hs hn]
    exact ⟨hs, hn⟩

end Famicom.Console
