import Famicom.Proofs.Cpu.Work

/-! What the processor cannot notice. It knows the bus by the accesses it makes, the lines it
samples and the transfers it is asked for, and by nothing else: what these do not show stays out of
every cycle, and comes out of it as it went in. -/
namespace Famicom

/-- A change of the bus that nothing which the processor does will ever show. -/
structure Bus.Unnoticed (f : Bus → Bus) : Prop where
  read_eq : ∀ b a, (f b).read a = ((b.read a).1, f (b.read a).2)
  write_eq : ∀ b a v, (f b).write a v = f (b.write a v)
  nmi_eq : ∀ b, (f b).nmi = b.nmi
  irq_eq : ∀ b, (f b).irq = b.irq
  apu_eq : ∀ b, (f b).apu = b.apu
  deliver_eq : ∀ b v, { f b with apu := b.apu.deliver v } = f { b with apu := b.apu.deliver v }
  oamPage_eq : ∀ b, (f b).oamPage = b.oamPage
  takeOamPage_eq : ∀ b, { f b with oamPage := none } = f { b with oamPage := none }
  writeOam_eq : ∀ b v, { f b with ppu := (f b).ppu.writeOam v } =
    f { b with ppu := b.ppu.writeOam v }

namespace Bus.Unnoticed
variable {f : Bus → Bus} (h : Unnoticed f) (b : Bus)
include h

theorem readWord_eq (a : UInt16) : (f b).readWord a = ((b.readWord a).1, f (b.readWord a).2) := by
  simp only [readWord, h.read_eq]

theorem peek_eq (a : UInt16) : (f b).peek a = b.peek a := by
  rw [← read_fst, h.read_eq, read_fst]

theorem copyOam_eq (a : UInt16) (n : Nat) : (f b).copyOam a n = f (b.copyOam a n) := by
  induction n generalizing b a with
  | zero => rfl
  | succ n ih =>
    rw [copyOam, copyOam, ← ih, h.read_eq]
    dsimp only
    rw [h.writeOam_eq]

theorem serveDmc_eq : (f b).serveDmc.2 = f b.serveDmc.2 := by
  simp only [serveDmc, h.apu_eq, h.read_eq, h.deliver_eq]

end Bus.Unnoticed

namespace Cpu
variable {f : Bus → Bus} (h : Bus.Unnoticed f) (b : Bus)
include h

/-! Instructions. -/

theorem locate_unnoticed (mode : Mode) (r : Registers) :
    locate mode r (f b) = ((locate mode r b).1, f (locate mode r b).2) := by
  cases mode <;> simp only [locate, readZeroPage, readWrapped, h.readWord_eq, h.read_eq]

theorem load_unnoticed (r : Registers) (o : Operand) :
    load r (f b) o = ((load r b o).1, f (load r b o).2) := by
  cases o <;> simp only [load, h.read_eq]

theorem store_unnoticed (r : Registers) (v : UInt8) (o : Operand) :
    store r (f b) v o = ((store r b v o).1, f (store r b v o).2) := by
  cases o <;> simp only [store, h.write_eq]

theorem interrupt_unnoticed (r : Registers) (back vector : UInt16) (software : Bool) :
    r.interrupt (f b) back vector software =
      ((r.interrupt b back vector software).1, f (r.interrupt b back vector software).2) := by
  simp only [Registers.interrupt, Registers.pushWord, Registers.push, h.write_eq, h.readWord_eq]

theorem Effect.run_unnoticed (e : Effect) (o : Operand) (r : Registers) : e.run o r (f b) =
    ((e.run o r b).1, (e.run o r b).2.1, f (e.run o r b).2.2) := by
  cases e with
  | read g => simp only [run, load_unnoticed h]
  | write g => simp only [run, store_unnoticed h]
  | update g => simp only [run, load_unnoticed h, store_unnoticed h]
  | inside g => rfl
  | push g => simp only [run, Registers.push, h.write_eq]
  | pull g => simp only [run, Registers.pull, h.read_eq]
  | branch taken =>
    cases o with
    | memory a =>
      simp only [run]
      split_ifs <;> rfl
    | accumulator | none => rfl
  | jump => cases o <;> rfl
  | call =>
    cases o with
    | memory a => simp only [run, Registers.pushWord, Registers.push, h.write_eq]
    | accumulator | none => rfl
  | ret => simp only [run, Registers.pullWord, Registers.pull, h.read_eq]
  | retInterrupt => simp only [run, Registers.pullWord, Registers.pull, h.read_eq]
  | brk => simp only [run, interrupt_unnoticed h]

variable (c : Cpu)

theorem execute_unnoticed : c.execute (f b) = ((c.execute b).1, f (c.execute b).2) := by
  simp only [execute, h.read_eq, locate_unnoticed h, Effect.run_unnoticed h]

/-! One cycle. -/

theorem perform_unnoticed (w : Work) :
    c.perform (f b) w = ((c.perform b w).1, f (c.perform b w).2) := by
  cases w with
  | oamTransfer page => simp only [perform, Bus.transferOam, h.takeOamPage_eq, h.copyOam_eq]
  | dmcFetch a => simp only [perform, h.serveDmc_eq]
  | nmi | irq => simp only [perform, interrupt, interrupt_unnoticed h]
  | instruction opcode => exact execute_unnoticed h b c

theorem due?_unnoticed : c.due? (f b) = c.due? b := by
  simp only [due?, next, h.oamPage_eq, h.apu_eq, h.peek_eq]

theorem clock_unnoticed :
    c.clock (f b) = ((c.clock b).1, (c.clock b).2.1, f (c.clock b).2.2) := by
  have hpoll : c.poll (f b) = c.poll b := by simp only [poll, h.nmi_eq, h.irq_eq]
  simp only [clock, hpoll, due?_unnoticed h, perform_unnoticed h]
  cases (c.poll b).due? b <;> rfl

end Cpu
end Famicom
