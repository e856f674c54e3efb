import Famicom.Proofs.Console.Reading
import Famicom.Proofs.Console.Run
import Famicom.Proofs.Cpu.Unnoticed
import Famicom.Proofs.Ppu.Output

/-! How the host drives the console makes no difference to it. Whatever is called, the console goes
on tick by tick, and the mark of a finished picture, which is all that a call clears, is noticed by
nothing inside: so the ticks that have passed settle everything else. -/
namespace Famicom

/-! The mark on the bus. -/

namespace Bus

/-- The same bus, a finished picture marked or not. -/
def withReady (b : Bus) (on : Bool) : Bus := { b with ppu := b.ppu.withReady on }

section Ready
variable (b : Bus) (on : Bool)

theorem readPpu_withReady (r : Nat) :
    (b.withReady on).readPpu r = ((b.readPpu r).1, (b.readPpu r).2.withReady on) := by
  have hfetch : (b.withReady on).ppu.readFetch? r = b.ppu.readFetch? r := rfl
  have hread (data : UInt8) : (b.withReady on).ppu.read r data =
      ((b.ppu.read r data).1, (b.ppu.read r data).2.withReady on) := b.ppu.read_withReady on r data
  unfold readPpu
  rw [hfetch]
  cases b.ppu.readFetch? r with
  | none =>
    dsimp only
    rw [hread]
    rfl
  | some a =>
    dsimp only
    rw [hread]
    rfl

theorem writePpu_withReady (r : Nat) (v : UInt8) :
    (b.withReady on).writePpu r v = (b.writePpu r v).withReady on := by
  have htarget : (b.withReady on).ppu.writeTarget? r = b.ppu.writeTarget? r := rfl
  have hwrite : (b.withReady on).ppu.write r v = (b.ppu.write r v).withReady on :=
    b.ppu.write_withReady on r v
  unfold writePpu
  rw [htarget, hwrite]
  cases b.ppu.writeTarget? r <;> rfl

theorem read_withReady (a : UInt16) :
    (b.withReady on).read a = ((b.read a).1, (b.read a).2.withReady on) := by
  simp only [read, readDevice]
  split_ifs
  · rfl
  · rw [readPpu_withReady]
    rfl
  · rfl
  · rfl
  · rfl
  · rfl
  · have hcartridge : (b.withReady on).picture.cartridge = b.picture.cartridge := rfl
    rw [hcartridge]
    cases b.picture.cartridge <;> rfl

theorem write_withReady (a : UInt16) (v : UInt8) :
    (b.withReady on).write a v = (b.write a v).withReady on := by
  simp only [write]
  split_ifs
  · rfl
  · exact { b with openBus := v }.writePpu_withReady on _ v
  all_goals rfl

end Ready

theorem unnoticed_withReady (on : Bool) : Unnoticed (·.withReady on) where
  read_eq b a := b.read_withReady on a
  write_eq b a v := b.write_withReady on a v
  nmi_eq _ := rfl
  irq_eq _ := rfl
  apu_eq _ := rfl
  deliver_eq _ _ := rfl
  oamPage_eq _ := rfl
  takeOamPage_eq _ := rfl
  writeOam_eq _ _ := rfl

theorem clockPpu_withReady (b : Bus) (on : Bool) :
    (b.withReady on).clockPpu = b.clockPpu.withReady (b.ppu.finishes || on) := by
  have hfetch : (b.withReady on).ppu.fetch? = b.ppu.fetch? :=
    b.ppu.fetch?_withOutput b.ppu.back b.ppu.front on
  have hclock (data : UInt8) : (b.withReady on).ppu.clock data =
      (b.ppu.clock data).withReady (b.ppu.finishes || on) := b.ppu.clock_withReady on data
  unfold clockPpu
  simp only [hfetch, hclock]
  cases b.ppu.fetch? <;> rfl

end Bus

namespace Console

def withReady (c : Console) (on : Bool) : Console := { c with bus := c.bus.withReady on }

section Ready
variable (c : Console) (on : Bool)

theorem clockDevices_withReady : (c.withReady on).clockDevices =
    c.clockDevices.withReady (c.bus.ppu.finishes || on) := by
  have hppu : (c.withReady on).bus.clockCartridge.clockPpu =
      c.bus.clockCartridge.clockPpu.withReady (c.bus.ppu.finishes || on) :=
    c.bus.clockCartridge.clockPpu_withReady on
  have hcycles : (c.withReady on).cycles = c.cycles := rfl
  have hdevices (s : Console) : s.clockDevices =
      { s with
        pacer.ticks := s.pacer.ticks + 1
        bus := if s.cycles then s.bus.clockCartridge.clockPpu.clockApu
          else s.bus.clockCartridge.clockPpu } := by
    unfold clockDevices cycles onCpuCycle
    dsimp only
    split_ifs <;> rfl
  rw [hdevices, hdevices, hcycles, hppu]
  split_ifs <;> rfl

theorem clockCpu_withReady : (c.withReady on).clockCpu = c.clockCpu.withReady on := by
  have hcycle : (c.withReady on).onCpuCycle = c.onCpuCycle := rfl
  have hclock : (c.withReady on).cpu.clock (c.withReady on).bus =
      ((c.cpu.clock c.bus).1, (c.cpu.clock c.bus).2.1, (c.cpu.clock c.bus).2.2.withReady on) :=
    Cpu.clock_unnoticed (Bus.unnoticed_withReady on) c.bus c.cpu
  unfold clockCpu
  rw [hcycle, hclock]
  split_ifs <;> rfl

/-- A tick is the same over either mark, and so is the moment a sample comes due. -/
theorem tick_withReady : (c.withReady on).tick =
    (c.tick.1, c.tick.2.withReady (c.bus.ppu.finishes || on)) := by
  unfold tick
  rw [clockDevices_withReady, clockCpu_withReady]
  rfl

end Ready

/-! Ticks one after another. -/

theorem ticked_withReady (c : Console) (on : Bool) (n : Nat) :
    ((c.withReady on).ticked n).withReady false = (c.ticked n).withReady false := by
  induction n generalizing c on with
  | zero => rfl
  | succ n ih => rw [ticked_succ, ticked_succ, tick_withReady, ih]

/-- Ticks lead from one console to the other, marks apart. -/
def Advanced (c d : Console) (n : Nat) : Prop := d.withReady false = (c.ticked n).withReady false

namespace Advanced
variable {c d e : Console} {m n : Nat}

theorem refl (c : Console) : Advanced c c 0 := rfl

theorem tick (c : Console) : Advanced c c.tick.2 1 := rfl

theorem withReady (h : Advanced c d n) (on : Bool) : Advanced c (d.withReady on) n := h

theorem trans (h : Advanced c d m) (h' : Advanced d e n) : Advanced c e (m + n) := by
  unfold Advanced at h h' ⊢
  rw [h', ← ticked_withReady d false, h, ticked_withReady, ticked_add]

theorem ticks_eq (h : Advanced c d n) : d.pacer.ticks = c.pacer.ticks + n := by
  have hticks : (d.withReady false).pacer.ticks = ((c.ticked n).withReady false).pacer.ticks :=
    congrArg (·.pacer.ticks) h
  exact hticks.trans (c.ticks_ticked n)

end Advanced

/-! The calls of a host. -/

inductive Call where
  | tick
  | runFrame
  | readSamples (buffer : Array UInt8)

def after? (c : Console) : Call → Option Console
  | .tick => some c.tick.2
  | .runFrame => some c.runFrame.2
  | .readSamples buffer => (c.readSamples? buffer).map (·.2.2)

def drive? (c : Console) (xs : List Call) : Option Console := xs.foldlM after? c

theorem advanced_runTicks (c : Console) (n : Nat) : ∃ k, Advanced c (c.runTicks n) k := by
  induction n generalizing c with
  | zero => exact ⟨0, .refl c⟩
  | succ n ih =>
    have hnext : Advanced c (c.tick.2.withReady false) 1 := (Advanced.tick c).withReady false
    obtain ⟨k, hk⟩ := ih (c.tick.2.withReady false)
    have hticks : c.runTicks (n + 1) =
        if c.tick.2.bus.ppu.frameReady then c.tick.2.withReady false
        else (c.tick.2.withReady false).runTicks n := rfl
    rw [hticks]
    split_ifs
    · exact ⟨1, hnext⟩
    · exact ⟨1 + k, hnext.trans hk⟩

theorem advanced_runFrame (c : Console) : ∃ k, Advanced c c.runFrame.2 k := by
  obtain ⟨k, hk⟩ := (c.withReady false).advanced_runTicks maxFrameTicks
  exact ⟨0 + k, ((Advanced.refl c).withReady false).trans hk⟩

theorem advanced_after {c d : Console} {x : Call} (h : c.after? x = some d) :
    ∃ k, Advanced c d k := by
  cases x with
  | tick =>
    rw [← Option.some.inj h]
    exact ⟨1, .tick c⟩
  | runFrame =>
    rw [← Option.some.inj h]
    exact c.advanced_runFrame
  | readSamples buffer =>
    obtain ⟨⟨n, out, e⟩, hread, rfl⟩ := Option.map_eq_some_iff.mp h
    obtain ⟨t, -, rfl⟩ := (filled hread).reached
    exact ⟨t, rfl⟩

theorem advanced_drive {c d : Console} {xs : List Call} (h : c.drive? xs = some d) :
    ∃ k, Advanced c d k := by
  induction xs generalizing c with
  | nil =>
    rw [← Option.some.inj h]
    exact ⟨0, .refl c⟩
  | cons x xs ih =>
    rw [drive?, List.foldlM_cons] at h
    obtain ⟨e, he, hd⟩ := Option.bind_eq_some_iff.mp h
    obtain ⟨j, hj⟩ := advanced_after he
    obtain ⟨k, hk⟩ := ih hd
    exact ⟨j + k, hj.trans hk⟩

/-- Calls that come to an end leave the console as the ticks that passed settle it, up to the mark
of a finished picture. A read comes to its end just where enough samples come due, with the mixes of
those moments as its frames; and the frames are the same however they are read. -/
theorem driving_unnoticed (c : Console) :
    (∀ xs ys d e, c.drive? xs = some d → c.drive? ys = some e → d.pacer.ticks = e.pacer.ticks →
      d.withReady e.bus.ppu.frameReady = e) ∧
    (∀ buffer : Array UInt8,
      (∃ x, c.readSamples? buffer = some x) ↔ ∃ t, buffer.size / 4 ≤ c.dueIn t) ∧
    (∀ buffer n out d, c.readSamples? buffer = some (n, out, d) → Filled c buffer n out d) ∧
    ∀ first second whole : Array UInt8, whole.size = 4 * (first.size / 4 + second.size / 4) →
      (c.readSamples? whole = (c.readSamples? first).bind fun (n, x, d) =>
        (d.readSamples? second).map fun (m, y, e) =>
          (n + m, x.extract 0 n ++ y.extract 0 m, e)) ∧
      ∀ t, first.size / 4 + second.size / 4 ≤ c.dueIn t → ∃ x d y e,
        c.readSamples? first = some (4 * (first.size / 4), x, d) ∧
        d.readSamples? second = some (4 * (second.size / 4), y, e) ∧
        c.readSamples? whole = some (4 * (first.size / 4) + 4 * (second.size / 4),
          x.extract 0 (4 * (first.size / 4)) ++ y.extract 0 (4 * (second.size / 4)), e) := by
  refine ⟨fun xs ys d e hd he hticks => ?_, fun _ => readSamples?_some_iff, fun _ _ _ _ => filled,
    fun first second whole hsize => ⟨c.readSamples?_pieces first second whole hsize,
      fun _ => readSamples?_pieces_some hsize⟩⟩
  obtain ⟨j, hj⟩ := advanced_drive hd
  obtain ⟨k, hk⟩ := advanced_drive he
  have hsame : j = k := by
    rw [hj.ticks_eq, hk.ticks_eq] at hticks
    exact Nat.add_left_cancel hticks
  have hmark : d.withReady false = e.withReady false := by
    subst hsame
    exact Eq.trans hj (Eq.symm hk)
  exact congrArg (·.withReady e.bus.ppu.frameReady) hmark

theorem drive?_ticks (c : Console) (n : Nat) :
    c.drive? (List.replicate n .tick) = some (c.ticked n) := by
  induction n generalizing c with
  | zero => rfl
  | succ n ih =>
    rw [List.replicate_succ, ticked_succ, ← ih]
    rfl

/-- A frame against as many ticks; and a console for which each tick a sample is due, read into six
bytes, and into eight at once or as six and five. -/
theorem driving_unnoticed_frame :
    let c := { ofConfig { sampleRate := 5369318 } with bus.apu.sample := 0x1234 }
    (∃ n, c.drive? (List.replicate n .tick) = some (c.ticked n) ∧
      c.runFrame.2.withReady (c.ticked n).bus.ppu.frameReady = c.ticked n) ∧
    c.readSamples? #[1, 2, 3, 4, 5, 6] =
      some (4, #[0x34, 0x12, 0x34, 0x12, 5, 6], c.ticked 1) ∧
    ∃ x d y e, c.readSamples? (Array.replicate 6 0) = some (4, x, d) ∧
      d.readSamples? (Array.replicate 5 0) = some (4, y, e) ∧
      c.readSamples? (Array.replicate 8 0) = some (8, x.extract 0 4 ++ y.extract 0 4, e) := by
  intro c
  obtain ⟨hcalls, hends, hfilled, hpieces⟩ := driving_unnoticed c
  have hdue : c.dueIn 2 = 2 := by decide +kernel
  refine ⟨?_, ?_, ?_⟩
  · obtain ⟨n, hn⟩ := c.advanced_runFrame
    exact ⟨n, c.drive?_ticks n, hcalls [.runFrame] _ _ _ rfl (c.drive?_ticks n)
      (hn.ticks_eq.trans (c.ticks_ticked n).symm)⟩
  · obtain ⟨⟨n, out, d⟩, hread⟩ := (hends #[1, 2, 3, 4, 5, 6]).mpr ⟨2, by rw [hdue]; decide⟩
    have hfill := hfilled _ _ _ _ hread
    have hfirst : Takes c 1 1 := .one (by decide +kernel)
    obtain ⟨t, ht, rfl⟩ := hfill.reached
    obtain rfl := ht.unique hfirst
    obtain ⟨t', lo, hi, ht', hsample, hbytes⟩ := hfill.frame 0 (by decide)
    obtain rfl := ht'.unique hfirst
    have hmix : (c.ticked 1).bus.apu.sample.toUInt16.toNat = 0x1234 := by decide +kernel
    have hlo : lo.toNat = 0x34 := by have := lo.toNat_lt; omega
    have hhi : hi.toNat = 0x12 := by have := lo.toNat_lt; omega
    obtain rfl : lo = 0x34 := UInt8.toNat_inj.mp hlo
    obtain rfl : hi = 0x12 := UInt8.toNat_inj.mp hhi
    obtain rfl : n = 4 := hfill.count
    rw [hread, hfill.eq_append, hbytes]
    rfl
  · exact (hpieces (Array.replicate 6 0) (Array.replicate 5 0) (Array.replicate 8 0) rfl).2 2
      (Nat.le_of_eq hdue.symm)

end Console
end Famicom
