import Famicom.Proofs.Cpu.Frame

/-! What an instruction is charged, told by what it does. The decoder knows the instructions that pay
for a carry by their base cost. They are just those that put nothing where their operand is, the
inert ones apart. -/
namespace Famicom.Cpu

/-! The table. -/

namespace Mnemonic
variable {m : Mnemonic} {p : Status}

theorem jumps_of_condition {taken : Status → Bool} (h : m.condition? = some taken) :
    m.jumps p = taken p := by
  cases m
  case bpl | bmi | bvc | bvs | bcc | bcs | bne | beq =>
    obtain rfl := Option.some.inj h
    rfl
  all_goals cases h

end Mnemonic

namespace Opcode

theorem onlyReads_decode {byte : UInt8} (h : (decode byte).mode.indexed = true) :
    (decode byte).mnemonic.onlyReads =
      !((decode byte).mnemonic.writesOperand || (decode byte).mnemonic.inert) := by
  revert h
  apply decode_all (P := fun o => o.mode.indexed = true →
    o.mnemonic.onlyReads = !(o.mnemonic.writesOperand || o.mnemonic.inert))
  decide +kernel

theorem relative_decode (byte : UInt8) :
    (decode byte).mode = .rel ↔ (decode byte).mnemonic.condition?.isSome = true := by
  apply decode_all (P := fun o => o.mode = .rel ↔ o.mnemonic.condition?.isSome = true)
  decide +kernel

end Opcode

/-! The two penalties. -/

theorem indexPenalty_decode (byte : UInt8) (r : Registers) (b : Bus) :
    indexPenalty (Opcode.decode byte) r b =
      if ((indexing? (Opcode.decode byte).mode r b).any fun w => carries w.1 w.2) = true ∧
        (Opcode.decode byte).mnemonic.writesOperand = false ∧
        (Opcode.decode byte).mnemonic.inert = false then 1 else 0 := by
  have hmode := indexing?_isSome (Opcode.decode byte).mode r b
  unfold indexPenalty
  cases hindexing : indexing? (Opcode.decode byte).mode r b with
  | none => simp
  | some w =>
    rw [hindexing, Option.isSome_some] at hmode
    have hreads := Opcode.onlyReads_decode hmode.symm
    simp only [hreads, Option.any_some, Bool.and_eq_true, Bool.not_eq_true', Bool.or_eq_false_iff]
    apply if_congr and_comm rfl rfl

theorem branchPenalty_decode (byte : UInt8) (r : Registers) (b : Bus) :
    branchPenalty (Opcode.decode byte) r b =
      if (Opcode.decode byte).mode = .rel ∧ (Opcode.decode byte).mnemonic.jumps r.p = true then
        if Byte.high (branchTarget r.pc (b.read (r.pc + 1)).1) = Byte.high (r.pc + 2) then 1 else 2
      else 0 := by
  have hrelative := Opcode.relative_decode byte
  unfold branchPenalty
  cases hcondition : (Opcode.decode byte).mnemonic.condition? with
  | none =>
    rw [hcondition] at hrelative
    simp [hrelative]
  | some taken =>
    rw [hcondition] at hrelative
    have hmode : (Opcode.decode byte).mode = .rel := hrelative.mpr rfl
    simp only [hmode, Mnemonic.jumps_of_condition hcondition, true_and, eq_comm]

/-! One instruction. -/

/-- Whenever an instruction is dispatched, the processor is busy for its base cost; for one cycle
more if an index carries out of the low byte of the address that it is added to, unless the
instruction stores, updates or is inert; and, if it is a branch that is taken, for one more, or two
onto another page than that of the next instruction. -/
theorem dispatch_charged {c : Cpu} {b : Bus} {opcode : UInt8}
    (h : (c.clock b).1 = some (.instruction opcode)) :
    let o := Opcode.decode opcode
    let r := c.registers
    let fetched := (b.read r.pc).2
    let carried := (indexing? o.mode r fetched).any fun w => carries w.1 w.2
    let target := branchTarget r.pc (fetched.read (r.pc + 1)).1
    (c.clock b).2.1.remaining = o.cycles +
      (if carried = true ∧ o.mnemonic.writesOperand = false ∧ o.mnemonic.inert = false then 1
        else 0) +
      if o.mode = .rel ∧ o.mnemonic.jumps r.p = true then
        if Byte.high target = Byte.high (r.pc + 2) then 1 else 2
      else 0 := by
  intro o r fetched carried target
  obtain ⟨hclock, hnext⟩ := c.clock_work b h
  have hopcode : opcode = b.peek r.pc := (opcode_of_next hnext.symm).2
  have hcost : (c.clock b).2.1.remaining = instructionCost opcode r fetched := by
    rw [hclock, hopcode]
    exact execute_remaining (c.poll b) b
  rw [hcost, instructionCost, indexPenalty_decode, branchPenalty_decode]

/-- A load over the end of the address space. -/
def wrappingLoad : Bus := { ram := (((Ram.zeros _).write 0 0xBD).write 1 0xFF).write 2 0xFF }

/-- The sum of base and index wraps round, and the carry costs a cycle all the same. -/
theorem dispatch_charged_wrapped :
    (clock { registers := { x := 1 } } wrappingLoad).1 = some (.instruction 0xBD) ∧
      (clock { registers := { x := 1 } } wrappingLoad).2.1.remaining = 5 := by
  have hdispatch : (clock { registers := { x := 1 } } wrappingLoad).1 =
      some (.instruction 0xBD) := by decide +kernel
  refine ⟨hdispatch, ?_⟩
  rw [dispatch_charged hdispatch]
  decide +kernel

end Famicom.Cpu
