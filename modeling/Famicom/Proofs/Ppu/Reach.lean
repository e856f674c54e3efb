import Famicom.Proofs.Ppu.Raster

/-! The states that the picture unit gets into. Registers may be read and written between any two
dots, and what answers is arbitrary. -/
namespace Famicom.Ppu

inductive Reachable : Ppu → Prop
  | start : Reachable {}
  | clock {p : Ppu} (h : Reachable p) (data : UInt8) : Reachable (p.clock data)
  | read {p : Ppu} (h : Reachable p) (r : Fin 8) (data : UInt8) : Reachable (p.read r data).2
  | write {p : Ppu} (h : Reachable p) (r : Fin 8) (v : UInt8) : Reachable (p.write r v)
  | writeOam {p : Ppu} (h : Reachable p) (v : UInt8) : Reachable (p.writeOam v)
  | takeFrameReady {p : Ppu} (h : Reachable p) : Reachable p.takeFrameReady.2
  | reset {p : Ppu} (h : Reachable p) : Reachable p.reset

/-! What a register access leaves alone. -/

theorem advanceTarget_eq (p : Ppu) : p.advanceTarget = { p with v := p.advanceTarget.v } := by
  unfold advanceTarget
  cases p.rendering && p.onRenderLine <;> rfl

theorem read_eq (p : Ppu) (r : Nat) (data : UInt8) : (p.read r data).2 = { p with
    vblank := (p.read r data).2.vblank
    toggle := (p.read r data).2.toggle
    v := (p.read r data).2.v
    buffer := (p.read r data).2.buffer
    latch := (p.read r data).2.latch } := by
  match r with
  | 2 => rfl
  | 4 => rfl
  | 7 =>
    simp only [read, readData]
    rw [advanceTarget_eq]
  | 0 | 1 | 3 | 5 | 6 | _ + 8 => rfl

theorem write_eq (p : Ppu) (r : Nat) (v : UInt8) : p.write r v = { p with
    latch := v
    ctrl := if r = 0 then v else p.ctrl
    mask := if r = 1 then v else p.mask
    t := (p.write r v).t
    v := (p.write r v).v
    fineX := if r = 5 ∧ !p.toggle then v &&& 7 else p.fineX
    toggle := (p.write r v).toggle
    oam := (p.write r v).oam
    oamAddr := (p.write r v).oamAddr
    palette := (p.write r v).palette } := by
  match r with
  | 0 | 1 | 2 | 3 | 4 => rfl
  | 5 =>
    simp only [write, writeScroll]
    cases p.toggle <;> rfl
  | 6 =>
    simp only [write, writeAddress]
    cases p.toggle <;> rfl
  | 7 =>
    simp only [write, writeData]
    cases { p with latch := v }.targetsPalette
    · rw [if_neg Bool.false_ne_true, advanceTarget_eq]
      rfl
    · rw [if_pos rfl, advanceTarget_eq]
      rfl
  | _ + 8 => rfl

theorem fineX_write {p : Ppu} (h : p.fineX.toNat < 8) (r : Nat) (v : UInt8) :
    (p.write r v).fineX.toNat < 8 := by
  rw [write_eq]
  dsimp only
  split_ifs
  · rw [UInt8.toNat_and]
    exact Nat.lt_succ_of_le Nat.and_le_right
  · exact h

namespace Reachable

theorem inFrame {p : Ppu} (h : Reachable p) : p.InFrame := by
  induction h with
  | start => exact ⟨by decide, by decide⟩
  | clock _ data ih => exact ih.clock data
  | read _ r data ih =>
    rw [read_eq]
    exact ⟨ih.dot_le, ih.scanline_le⟩
  | write _ r v ih =>
    rw [write_eq]
    exact ⟨ih.dot_le, ih.scanline_le⟩
  | writeOam _ v ih => exact ⟨ih.dot_le, ih.scanline_le⟩
  | takeFrameReady _ ih => exact ⟨ih.dot_le, ih.scanline_le⟩
  | reset _ ih => exact ⟨Nat.zero_le _, Nat.zero_le _⟩

theorem fineX_lt {p : Ppu} (h : Reachable p) : p.fineX.toNat < 8 := by
  induction h with
  | start => decide
  | clock _ data ih => rwa [clock_fineX]
  | read _ r data ih =>
    rw [read_eq]
    exact ih
  | write _ r v ih => exact fineX_write ih r v
  | writeOam _ v ih => exact ih
  | takeFrameReady _ ih => exact ih
  | reset _ ih => exact Nat.zero_lt_succ _

theorem iterate {p : Ppu} (h : Reachable p) (m : Nat → UInt8) (n : Nat) :
    Reachable ((dotOver m)^[n] p) :=
  iterate_dotOver m (fun _ hq => hq.clock _) h n

end Reachable

def striped (a : Nat) : UInt8 := UInt8.ofNat (a / 8 + a * 5)

/-- After `n` dots the picture is switched on. -/
def switchOn (m : Nat → UInt8) (n : Nat) (mask : UInt8) (p : Ppu) : Ppu :=
  ((dotOver m)^[n] p).write 1 mask

section SwitchOn
variable (m : Nat → UInt8) {n : Nat} (mask : UInt8) {p : Ppu}

theorem Reachable.switchOn (h : Reachable p) : Reachable (p.switchOn m n mask) :=
  (h.iterate m n).write 1 mask

theorem settled_switchOn (p : Ppu) : Settled { p with mask } (p.switchOn m n mask) := by
  have h := settled_iterate m p n
  exact ⟨h.ctrl_eq, rfl, h.t_eq, h.fineX_eq, h.oam_eq⟩

theorem switchOn_at (h : p.InFrame) {y d : Nat} (hd : d ≤ 340) (hn : p.position + n < 89342)
    (hp : p.position + n = 341 * y + d) :
    (p.switchOn m n mask).scanline = y ∧ (p.switchOn m n mask).dot = d := by
  rw [← position_iterate m h n hn] at hp
  exact (h.iterate m n).at_position hd hp

end SwitchOn
end Famicom.Ppu
