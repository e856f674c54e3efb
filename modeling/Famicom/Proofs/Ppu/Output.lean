import Famicom.Proofs.Ppu.Reach

/-! What the picture unit puts out: its two screens, and the mark that one of them is finished. The
host looks at these, and the unit itself at none of them: an access is answered, and an address put
out, in the same way over any output. -/
namespace Famicom.Ppu

def withOutput (p : Ppu) (back front : Screen) (ready : Bool) : Ppu :=
  { p with back, front, frameReady := ready }

section Output
variable (p : Ppu) (back front : Screen) (ready : Bool)

theorem fetch?_withOutput : (p.withOutput back front ready).fetch? = p.fetch? := by
  have hdot : (p.withOutput back front ready).dot = p.dot := rfl
  have hpattern (slot : Nat) : (p.withOutput back front ready).sprites.patternAddress
      (p.withOutput back front ready).tallSprites (p.withOutput back front ready).spriteTable
      (p.withOutput back front ready).scanline slot =
        p.sprites.patternAddress p.tallSprites p.spriteTable p.scanline slot := rfl
  unfold fetch?
  simp only [hdot, hpattern]
  rfl

theorem advanceTarget_withOutput : (p.withOutput back front ready).advanceTarget =
    p.advanceTarget.withOutput back front ready := by
  have hrenders : ((p.withOutput back front ready).rendering &&
      (p.withOutput back front ready).onRenderLine) = (p.rendering && p.onRenderLine) := rfl
  unfold advanceTarget
  rw [hrenders]
  cases p.rendering && p.onRenderLine <;> rfl

theorem read_withOutput (r : Nat) (data : UInt8) : (p.withOutput back front ready).read r data =
    ((p.read r data).1, (p.read r data).2.withOutput back front ready) := by
  match r with
  | 7 =>
    have hnext := { p with buffer := data }.advanceTarget_withOutput back front ready
    exact congrArg (fun q : Ppu => (p.peek 7, { q with latch := p.peek 7 })) hnext
  | 0 | 1 | 2 | 3 | 4 | 5 | 6 | _ + 8 => rfl

theorem writeData_withOutput (v : UInt8) : (p.withOutput back front ready).writeData v =
    (p.writeData v).withOutput back front ready := by
  have htarget : (p.withOutput back front ready).targetsPalette = p.targetsPalette := rfl
  unfold writeData
  rw [htarget]
  split_ifs
  · exact { p with palette := Palette.write p.palette p.target v }.advanceTarget_withOutput
      back front ready
  · exact p.advanceTarget_withOutput back front ready

theorem write_withOutput (r : Nat) (v : UInt8) : (p.withOutput back front ready).write r v =
    (p.write r v).withOutput back front ready := by
  have htoggle : (p.withOutput back front ready).toggle = p.toggle := rfl
  match r with
  | 5 =>
    simp only [write, writeScroll, htoggle]
    cases p.toggle <;> rfl
  | 6 =>
    simp only [write, writeAddress, htoggle]
    cases p.toggle <;> rfl
  | 7 => exact { p with latch := v }.writeData_withOutput back front ready v
  | 0 | 1 | 2 | 3 | 4 | _ + 8 => rfl

end Output

/-! The mark by itself. -/

def withReady (p : Ppu) (on : Bool) : Ppu := { p with frameReady := on }

section Ready
variable (p : Ppu) (on : Bool)

theorem read_withReady (r : Nat) (data : UInt8) : (p.withReady on).read r data =
    ((p.read r data).1, (p.read r data).2.withReady on) := by
  have hscreens : (p.read r data).2.withOutput p.back p.front on =
      (p.read r data).2.withReady on := by
    rw [read_eq]
    rfl
  rw [← hscreens]
  exact p.read_withOutput p.back p.front on r data

theorem write_withReady (r : Nat) (v : UInt8) :
    (p.withReady on).write r v = (p.write r v).withReady on := by
  have hscreens : (p.write r v).withOutput p.back p.front on = (p.write r v).withReady on := by
    rw [write_eq]
    rfl
  rw [← hscreens]
  exact p.write_withOutput p.back p.front on r v

theorem clock_withReady (data : UInt8) : (p.withReady on).clock data =
    (p.clock data).withReady (p.finishes || on) := by
  have hcompose : (p.withReady on).compose data = (p.compose data).withReady on := by
    rw [compose_eq, compose_eq]
    rfl
  rw [clock_eq, clock_eq]
  unfold drawn
  rw [hcompose]
  rfl

end Ready
end Famicom.Ppu
