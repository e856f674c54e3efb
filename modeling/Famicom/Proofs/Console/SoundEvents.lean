import Famicom.Proofs.Apu.Events
import Famicom.Proofs.Console.Run

/-! The sound unit of a console. Whatever the program, it is changed by events alone: what holds
after all events from power-on holds of it after any number of ticks. -/
namespace Famicom

/-- Events lead from one state to the other. -/
def Apu.Follows (s t : Apu) : Prop := ∃ es, s.run es = t

namespace Apu.Follows
variable {s t u : Apu}

theorem refl (s : Apu) : Follows s s := ⟨[], rfl⟩

theorem trans (h : Follows s t) (h' : Follows t u) : Follows s u := by
  obtain ⟨es, rfl⟩ := h
  obtain ⟨fs, rfl⟩ := h'
  exact ⟨es ++ fs, run_append s es fs⟩

theorem after (s : Apu) (e : Event) : Follows s (s.after e) := ⟨[e], rfl⟩

end Apu.Follows

open Apu (Follows)

namespace Bus

/-! Accesses. -/

theorem apu_read (b : Bus) (a : UInt16) : Follows b.apu (b.read a).2.apu := by
  simp only [read, readDevice]
  split_ifs
  · exact .refl _
  · rw [readPpu_rest]
    exact .refl _
  · exact .after b.apu .readStatus
  · exact .refl _
  · exact .refl _
  · exact .refl _
  · cases b.picture.cartridge <;> exact .refl _

theorem apu_write (b : Bus) (a : UInt16) (v : UInt8) : Follows b.apu (b.write a v).apu := by
  simp only [write]
  split_ifs
  · exact .refl _
  · rw [writePpu_rest]
    exact .refl _
  · exact .refl _
  · exact .refl _
  · exact .after b.apu (.write a v)
  · exact .refl _
  · exact .refl _

theorem Wrote.apu {b b' : Bus} {ws : List (UInt16 × UInt8)} (h : Wrote b ws b') :
    Follows b.apu b'.apu := by
  induction h with
  | refl => exact .refl _
  | read _ a ih => exact ih.trans (apu_read _ a)
  | write _ a v ih => exact ih.trans (apu_write _ a v)

theorem apu_copyOam (b : Bus) (a : UInt16) (n : Nat) : Follows b.apu (b.copyOam a n).apu := by
  induction n generalizing b a with
  | zero => exact .refl _
  | succ n ih =>
    rw [copyOam]
    exact (b.apu_read a).trans
      (ih { (b.read a).2 with ppu := (b.read a).2.ppu.writeOam (b.read a).1 } (a + 1))

theorem apu_serveDmc (b : Bus) : Follows b.apu b.serveDmc.2.apu :=
  (b.apu_read b.apu.dmc.address).trans (.after _ (.deliver (b.read b.apu.dmc.address).1))

end Bus

/-! The processor. -/

namespace Cpu
variable (c : Cpu) (b : Bus)

theorem apu_perform (w : Work) : Follows b.apu (c.perform b w).2.apu := by
  cases w with
  | oamTransfer page => exact Bus.apu_copyOam { b with oamPage := none } _ _
  | dmcFetch a => exact b.apu_serveDmc
  | nmi => exact (interrupt_wrote c.registers b c.registers.pc nmiVector false).apu
  | irq => exact (interrupt_wrote c.registers b c.registers.pc irqVector false).apu
  | instruction opcode => exact (c.execute_wrote b).apu

theorem apu_clock : Follows b.apu (c.clock b).2.2.apu := by
  cases h : (c.clock b).1 with
  | none =>
    rw [c.clock_idle b h]
    exact .refl _
  | some w =>
    rw [(c.clock_work b h).1]
    exact apu_perform _ b w

end Cpu

/-! The console. -/

namespace Console

theorem apu_clockDevices (s : Console) : Follows s.bus.apu s.clockDevices.bus.apu := by
  have happu : s.bus.clockCartridge.clockPpu.apu = s.bus.apu := by
    obtain ⟨_, _, h⟩ := s.bus.clockCartridge.clockPpu_eq
    rw [h]
    rfl
  unfold clockDevices
  dsimp only
  split_ifs
  · rw [← happu]
    exact .after _ .clock
  · rw [← happu]
    exact .refl _

theorem apu_tick (s : Console) : Follows s.bus.apu s.tick.2.bus.apu := by
  rw [bus_tick]
  split_ifs
  · exact (s.apu_clockDevices.trans (s.cpu.apu_clock s.clockDevices.bus)).trans
      (.after _ .takeSample)
  · exact s.apu_clockDevices

theorem apu_run (c : Console) (n : Nat) : Follows {} (c.run n).bus.apu := by
  induction n with
  | zero => exact (Cpu.readWord_wrote c.bus.reset Cpu.resetVector).apu
  | succ n ih =>
    rw [run_succ]
    exact ih.trans (c.run n).apu_tick

end Console
end Famicom
