import Famicom.Console
import Famicom.Proofs.Cpu.Work
import Mathlib.Logic.Function.Iterate

/-! The console tick by tick after a reset, whatever the program. A tick is a dot of the picture
unit, on which the processor then works through its registers; each third is also a processor
cycle. -/
namespace Famicom.Console

def ticked (c : Console) (n : Nat) : Console := (fun s => s.tick.2)^[n] c

theorem ticked_succ (c : Console) (n : Nat) : c.ticked (n + 1) = c.tick.2.ticked n := rfl

theorem ticked_add (c : Console) (m n : Nat) : c.ticked (m + n) = (c.ticked m).ticked n := by
  rw [ticked, Nat.add_comm, Function.iterate_add_apply]
  rfl

def run (c : Console) (n : Nat) : Console := (fun s => s.tick.2)^[n] c.reset

theorem run_add (c : Console) (m n : Nat) : c.run (m + n) = (c.run m).ticked n :=
  c.reset.ticked_add m n

theorem run_zero (c : Console) : c.run 0 = c.reset := rfl

theorem run_succ (c : Console) (n : Nat) : c.run (n + 1) = (c.run n).tick.2 :=
  Function.iterate_succ_apply' _ n _

/-! The devices. -/

/-- In a tick the devices leave alone the processor and the page that it asked for. -/
theorem clockDevices_eq (s : Console) : ∃ picture data apu, s.clockDevices =
    { s with
      pacer.ticks := s.pacer.ticks + 1
      bus := { s.bus with picture, apu, ppu := s.bus.ppu.clock data } } := by
  obtain ⟨picture, data, h⟩ := s.bus.clockCartridge.clockPpu_eq
  unfold clockDevices
  dsimp only
  rw [h]
  split_ifs
  · exact ⟨_, _, _, rfl⟩
  · exact ⟨_, _, _, rfl⟩

def cycles (s : Console) : Bool := (s.pacer.ticks + 1) % 3 == 0

theorem onCpuCycle_clockDevices (s : Console) : s.clockDevices.onCpuCycle = s.cycles := by
  obtain ⟨_, _, _, h⟩ := s.clockDevices_eq
  rw [h]
  rfl

theorem cpu_clockDevices (s : Console) : s.clockDevices.cpu = s.cpu := by
  obtain ⟨_, _, _, h⟩ := s.clockDevices_eq
  rw [h]

theorem oamPage_clockDevices (s : Console) : s.clockDevices.bus.oamPage = s.bus.oamPage := by
  obtain ⟨_, _, _, h⟩ := s.clockDevices_eq
  rw [h]

/-! One tick. -/

theorem pacer_ticks (p : Pacer) : p.advance.2.ticks = p.ticks := by
  unfold Pacer.advance
  dsimp only
  split_ifs <;> rfl

theorem ticks_tick (s : Console) : s.tick.2.pacer.ticks = s.pacer.ticks + 1 := by
  obtain ⟨_, _, _, h⟩ := s.clockDevices_eq
  change s.clockDevices.clockCpu.pacer.advance.2.ticks = _
  rw [pacer_ticks, clockCpu, h]
  split_ifs <;> rfl

theorem ticks_ticked (c : Console) (n : Nat) :
    (c.ticked n).pacer.ticks = c.pacer.ticks + n := by
  induction n generalizing c with
  | zero => rfl
  | succ n ih => rw [ticked_succ, ih, ticks_tick, Nat.add_right_comm, Nat.add_assoc]

theorem cpu_tick (s : Console) : s.tick.2.cpu =
    if s.cycles then (s.cpu.clock s.clockDevices.bus).2.1 else s.cpu := by
  change s.clockDevices.clockCpu.cpu = _
  rw [clockCpu, onCpuCycle_clockDevices, cpu_clockDevices]
  split_ifs
  · rfl
  · rw [cpu_clockDevices]

theorem bus_tick (s : Console) : s.tick.2.bus =
    if s.cycles then (s.cpu.clock s.clockDevices.bus).2.2.takeSample
    else s.clockDevices.bus := by
  change s.clockDevices.clockCpu.bus = _
  rw [clockCpu, onCpuCycle_clockDevices, cpu_clockDevices]
  split_ifs <;> rfl

theorem ppu_tick (s : Console) :
    ∃ data, Ppu.Accessed (s.bus.ppu.clock data) s.tick.2.bus.ppu := by
  obtain ⟨_, data, _, h⟩ := s.clockDevices_eq
  have hppu : s.clockDevices.bus.ppu = s.bus.ppu.clock data := by rw [h]
  refine ⟨data, ?_⟩
  rw [bus_tick, ← hppu]
  split_ifs
  · exact s.cpu.ppu_clock s.clockDevices.bus
  · exact .refl

/-- In the machine the picture unit gets only into states that it gets into by itself. -/
theorem reachable_ticked {s : Console} (h : s.bus.ppu.Reachable) (n : Nat) :
    (s.ticked n).bus.ppu.Reachable := by
  induction n generalizing s with
  | zero => exact h
  | succ n ih =>
    obtain ⟨data, ha⟩ := s.ppu_tick
    exact ih (ha.reachable (h.clock data))

/-! The reset. -/

theorem ppu_reset (c : Console) : Ppu.Accessed c.bus.ppu.reset c.reset.bus.ppu :=
  (Cpu.readWord_wrote c.bus.reset Cpu.resetVector).ppu

theorem ticks_run (c : Console) (n : Nat) : (c.run n).pacer.ticks = n :=
  (c.reset.ticks_ticked n).trans (Nat.zero_add n)

end Famicom.Console
