import Famicom.Proofs.Cpu.Writes

/-! The work that a cycle begins: what it leaves of a request, of the lines, of the count of cycles
and of the mask, and what of the picture unit it reaches. Each kind of work answers its own request
and no other. -/
namespace Famicom.Cpu
open Bus

/-! The mask. -/

/-- The instructions that can clear the mask. -/
def Mnemonic.unmasks (m : Mnemonic) : Prop := m = .cli ∨ m = .plp ∨ m = .rti

def Effect.KeepsMask : Effect → Prop
  | .read f | .pull f => ∀ r v, r.p.irqDisable = true → (f r v).p.irqDisable = true
  | .update f => ∀ r v, r.p.irqDisable = true → (f r v).2.p.irqDisable = true
  | .inside f => ∀ r, r.p.irqDisable = true → (f r).p.irqDisable = true
  | .write _ | .push _ | .branch _ | .jump | .call | .ret | .brk => True
  | .retInterrupt => False

theorem Mnemonic.keepsMask (m : Mnemonic) (h : ¬m.unmasks) : m.effect.KeepsMask := by
  cases m
  case cli => exact absurd (.inl rfl) h
  case plp => exact absurd (.inr (.inl rfl)) h
  case rti => exact absurd (.inr (.inr rfl)) h
  case sei => exact fun _ _ => rfl
  all_goals first | exact trivial | exact fun _ _ h => h | exact fun _ h => h

theorem store_masked {r : Registers} (h : r.p.irqDisable = true) (b : Bus) (v : UInt8)
    (o : Operand) : (store r b v o).1.p.irqDisable = true := by
  cases o <;> exact h

seal Bus.read Bus.write

theorem Effect.run_masked {e : Effect} (he : e.KeepsMask) (o : Operand) {r : Registers}
    (h : r.p.irqDisable = true) (b : Bus) : (e.run o r b).2.1.p.irqDisable = true := by
  cases e with
  | read f => exact he _ _ h
  | write f => exact store_masked h b (f r) o
  | update f => exact store_masked (he _ _ h) _ _ o
  | inside f => exact he _ h
  | push f => exact h
  | pull f => exact he _ _ h
  | branch taken =>
    cases o with
    | memory a =>
      simp only [Effect.run]
      split_ifs <;> exact h
    | accumulator | none => exact h
  | jump | call => cases o <;> exact h
  | ret => exact h
  | retInterrupt => exact he.elim
  | brk => exact rfl

theorem execute_masked {c : Cpu} {b : Bus} (h : c.registers.p.irqDisable = true)
    (hm : ¬(Opcode.decode (b.peek c.registers.pc)).mnemonic.unmasks) :
    (c.execute b).1.registers.p.irqDisable = true := by
  rw [← b.read_fst] at hm
  unfold execute
  dsimp only
  apply Effect.run_masked (Mnemonic.keepsMask _ hm)
  exact h

/-! One piece of work. -/

variable (c : Cpu) (b : Bus) (w : Work)

theorem perform_cycles : (c.perform b w).1.cycles = c.cycles := by
  cases w <;> rfl

theorem perform_nmiLine : (c.perform b w).1.nmiLine = c.nmiLine := by
  cases w <;> rfl

theorem perform_nmiPending :
    (c.perform b w).1.nmiPending = if w = .nmi then false else c.nmiPending := by
  cases w <;> rfl

theorem perform_masked (h : c.registers.p.irqDisable = true)
    (hm : ∀ opcode, w = .instruction opcode →
      ¬(Opcode.decode (b.peek c.registers.pc)).mnemonic.unmasks) :
    (c.perform b w).1.registers.p.irqDisable = true := by
  cases w with
  | oamTransfer page | dmcFetch a => exact h
  | nmi | irq => rfl
  | instruction opcode => exact execute_masked h (hm opcode rfl)

theorem ppu_perform : Ppu.Accessed b.ppu (c.perform b w).2.ppu := by
  cases w with
  | oamTransfer page => exact ppu_copyOam { b with oamPage := none } _ _
  | dmcFetch a => exact b.ppu_read _
  | nmi | irq => exact (interrupt_wrote _ b _ _ _).ppu
  | instruction opcode => exact (c.execute_wrote b).ppu

/-! The order of requests. -/

/-- Everything that can come next, with what it needs to come. -/
theorem next_cases :
    (∃ page, b.oamPage = some page ∧ c.next b = .oamTransfer page) ∨
    b.oamPage = none ∧ (c.next b = .dmcFetch b.apu.dmc.address ∨
      c.nmiPending = true ∧ c.next b = .nmi ∨
      c.nmiPending = false ∧
        (c.irqLine = true ∧ c.registers.p.irqDisable = false ∧ c.next b = .irq ∨
          c.next b = .instruction (b.peek c.registers.pc))) := by
  unfold next
  cases b.oamPage with
  | some page => exact .inl ⟨page, rfl, rfl⟩
  | none =>
    refine .inr ⟨rfl, ?_⟩
    dsimp only
    split_ifs with hwants hnmi hirq
    · exact .inl rfl
    · exact .inr (.inl ⟨hnmi, rfl⟩)
    · rw [Bool.and_eq_true, Bool.not_eq_true'] at hirq
      exact .inr (.inr ⟨Bool.not_eq_true _ ▸ hnmi, .inl ⟨hirq.1, hirq.2, rfl⟩⟩)
    · exact .inr (.inr ⟨Bool.not_eq_true _ ▸ hnmi, .inr rfl⟩)

theorem next_of_page {page : UInt8} (h : b.oamPage = some page) :
    c.next b = .oamTransfer page := by
  rw [next, h]

section
variable {c b}

theorem next_of_pending (h : c.nmiPending = true) :
    c.next b ≠ .irq ∧ ∀ opcode, c.next b ≠ .instruction opcode := by
  obtain ⟨_, -, hw⟩ | ⟨-, hw | ⟨-, hw⟩ | ⟨hclear, -⟩⟩ := c.next_cases b
  · simp [hw]
  · simp [hw]
  · simp [hw]
  · rw [h] at hclear
    cases hclear

theorem pending_of_next (h : c.next b = .nmi) : c.nmiPending = true := by
  obtain ⟨_, -, hw⟩ | ⟨-, hw | ⟨hpending, -⟩ | ⟨-, ⟨-, -, hw⟩ | hw⟩⟩ := c.next_cases b
  all_goals first | exact hpending | simp [hw] at h

theorem line_of_next (h : c.next b = .irq) :
    c.irqLine = true ∧ c.registers.p.irqDisable = false := by
  obtain ⟨_, -, hw⟩ | ⟨-, hw | ⟨-, hw⟩ | ⟨-, ⟨hline, hmask, -⟩ | hw⟩⟩ := c.next_cases b
  all_goals first | exact ⟨hline, hmask⟩ | simp [hw] at h

theorem opcode_of_next {opcode : UInt8} (h : c.next b = .instruction opcode) :
    b.oamPage = none ∧ opcode = b.peek c.registers.pc := by
  obtain ⟨_, -, hw⟩ | ⟨hpage, hw | ⟨-, hw⟩ | ⟨-, ⟨-, -, hw⟩ | hw⟩⟩ := c.next_cases b
  all_goals first | exact ⟨hpage, (Work.instruction.inj (hw.symm.trans h)).symm⟩ | simp [hw] at h

end

/-! One cycle. -/

theorem writes_poll (b' : Bus) : (c.poll b).writes b' = c.writes b' := by
  rw [writes, writes, show (c.poll b).registers = c.registers from rfl]

theorem clock_fst : (c.clock b).1 = (c.poll b).due? b := by
  unfold clock
  dsimp only
  cases (c.poll b).due? b <;> rfl

theorem clock_idle (h : (c.clock b).1 = none) : (c.clock b).2 = (c.poll b, b) := by
  rw [clock_fst] at h
  simp only [clock, h]

theorem clock_work {w : Work} (h : (c.clock b).1 = some w) :
    (c.clock b).2 = (c.poll b).perform b w ∧ w = (c.poll b).next b := by
  rw [clock_fst] at h
  refine ⟨by simp only [clock, h], ?_⟩
  rw [due?] at h
  split_ifs at h
  exact (Option.some.inj h).symm

theorem clock_cycles : (c.clock b).2.1.cycles = c.cycles + 1 := by
  cases h : (c.clock b).1 with
  | none => rw [c.clock_idle b h]; rfl
  | some w => rw [(c.clock_work b h).1, perform_cycles]; rfl

theorem clock_nmiLine : (c.clock b).2.1.nmiLine = b.nmi := by
  cases h : (c.clock b).1 with
  | none => rw [c.clock_idle b h]; rfl
  | some w => rw [(c.clock_work b h).1, perform_nmiLine]; rfl

theorem ppu_clock : Ppu.Accessed b.ppu (c.clock b).2.2.ppu := by
  cases h : (c.clock b).1 with
  | none =>
    rw [c.clock_idle b h]
    exact .refl
  | some w =>
    rw [(c.clock_work b h).1]
    exact ppu_perform _ b w

end Famicom.Cpu
