import Famicom.Proofs.Bytes
import Famicom.Proofs.Cpu.Work

/-! What each piece of work costs in cycles. An instruction costs what the table says, and more in
two cases: an indexed read whose index carries into the high byte of the address, and a branch that
is taken. -/
namespace Famicom.Cpu

/-! The penalties. -/

/-- The base address and the index of the modes that add an index to a whole word. -/
def indexing? (mode : Mode) (r : Registers) (b : Bus) : Option (UInt16 × UInt8) :=
  match mode with
  | .abx => some ((b.readWord (r.pc + 1)).1, r.x)
  | .aby => some ((b.readWord (r.pc + 1)).1, r.y)
  | .izy =>
    let (v, b) := b.read (r.pc + 1)
    some ((readZeroPage b v).1, r.y)
  | .imp | .acc | .imm | .zp | .zpx | .zpy | .abs | .ind | .izx | .rel => none

namespace Mode

def indexed : Mode → Bool
  | abx | aby | izy => true
  | _ => false

end Mode

def carries (base : UInt16) (index : UInt8) : Bool := 0xFF < (Byte.low base).toNat + index.toNat

/-- Whether an instruction looks at its operand and writes nothing, which lets it end early. -/
def Mnemonic.onlyReads (m : Mnemonic) : Bool :=
  match m.effect with
  | .read _ => true
  | _ => m == .nop

/-- What a branch waits for. -/
def Mnemonic.condition? (m : Mnemonic) : Option (Status → Bool) :=
  match m.effect with
  | .branch taken => some taken
  | _ => none

/-- An index that carries costs a read another cycle. -/
def indexPenalty (o : Opcode) (r : Registers) (b : Bus) : Nat :=
  match indexing? o.mode r b with
  | some (base, index) => if o.mnemonic.onlyReads && carries base index then 1 else 0
  | none => 0

/-- A branch that is taken costs one more cycle, and yet another one if it leaves the page of the
next instruction. -/
def branchPenalty (o : Opcode) (r : Registers) (b : Bus) : Nat :=
  match o.mnemonic.condition? with
  | some taken =>
    let next := r.pc + 2
    let target := branchTarget r.pc (b.read (r.pc + 1)).1
    if taken r.p then if Byte.high next = Byte.high target then 1 else 2 else 0
  | none => 0

def instructionCost (opcode : UInt8) (r : Registers) (b : Bus) : Nat :=
  let o := Opcode.decode opcode
  o.cycles + indexPenalty o r b + branchPenalty o r b

def Work.cost (cycle : Nat) (r : Registers) (b : Bus) : Work → Nat
  | .oamTransfer _ => if cycle % 2 = 0 then 513 else 514
  | .dmcFetch _ => 4
  | .nmi | .irq => 7
  | .instruction opcode => instructionCost opcode r (b.read r.pc).2

/-! The table. -/

namespace Opcode

theorem decode_all {P : Opcode → Prop} (h : ∀ n < 256, P (decode (UInt8.ofNat n)))
    (byte : UInt8) : P (decode byte) := by
  simpa using h byte.toNat byte.toNat_lt

theorem pagePenalty_decode (byte : UInt8) : (decode byte).pagePenalty =
    if (decode byte).mode.indexed && (decode byte).mnemonic.onlyReads then 1 else 0 := by
  apply decode_all (P := fun o =>
    o.pagePenalty = if o.mode.indexed && o.mnemonic.onlyReads then 1 else 0)
  decide +kernel

theorem branch_decode {byte : UInt8} {taken : Status → Bool}
    (h : (decode byte).mnemonic.condition? = some taken) :
    (decode byte).mode = .rel ∧ (decode byte).cycles = 2 := by
  have hbranch : (decode byte).mnemonic.condition?.isSome = true := by
    rw [h]
    rfl
  revert hbranch
  apply decode_all (P := fun o =>
    o.mnemonic.condition?.isSome = true → o.mode = .rel ∧ o.cycles = 2)
  decide +kernel

theorem cycles_decode (byte : UInt8) :
    2 ≤ (decode byte).cycles ∧ (decode byte).cycles + (decode byte).pagePenalty ≤ 8 := by
  apply decode_all (P := fun o => 2 ≤ o.cycles ∧ o.cycles + o.pagePenalty ≤ 8)
  decide +kernel

end Opcode

theorem indexing?_isSome (mode : Mode) (r : Registers) (b : Bus) :
    (indexing? mode r b).isSome = mode.indexed := by
  cases mode <;> rfl

theorem indexPenalty_le (byte : UInt8) (r : Registers) (b : Bus) :
    indexPenalty (Opcode.decode byte) r b ≤ (Opcode.decode byte).pagePenalty := by
  have hmode := indexing?_isSome (Opcode.decode byte).mode r b
  rw [Opcode.pagePenalty_decode, ← hmode, indexPenalty]
  cases indexing? (Opcode.decode byte).mode r b with
  | none => exact Nat.zero_le _
  | some p =>
    dsimp only [Option.isSome_some]
    cases (Opcode.decode byte).mnemonic.onlyReads with
    | false => exact Nat.zero_le _
    | true =>
      simp only [Bool.true_and, if_true]
      split_ifs <;> decide

theorem branchPenalty_le (o : Opcode) (r : Registers) (b : Bus) : branchPenalty o r b ≤ 2 := by
  unfold branchPenalty
  cases o.mnemonic.condition? with
  | none => exact Nat.zero_le _
  | some taken =>
    dsimp only
    split_ifs <;> decide

theorem instructionCost_bounds (opcode : UInt8) (r : Registers) (b : Bus) :
    2 ≤ instructionCost opcode r b ∧ instructionCost opcode r b ≤ 8 := by
  unfold instructionCost
  dsimp only
  obtain ⟨hleast, hmost⟩ := Opcode.cycles_decode opcode
  have hindex := indexPenalty_le opcode r b
  constructor
  · omega
  · cases hbranch : (Opcode.decode opcode).mnemonic.condition? with
    | none =>
      have hzero : branchPenalty (Opcode.decode opcode) r b = 0 := by
        rw [branchPenalty, hbranch]
      omega
    | some taken =>
      obtain ⟨hrel, hshort⟩ := Opcode.branch_decode hbranch
      have hmore := branchPenalty_le (Opcode.decode opcode) r b
      have hpage : (Opcode.decode opcode).pagePenalty = 0 := by
        rw [Opcode.pagePenalty, hrel]
      omega

/-! What an execution charges. -/

theorem crossed_indexed (base : UInt16) (index : UInt8) :
    (Located.indexed base index).crossed = carries base index := by
  rw [Bool.eq_iff_iff]
  simp only [Located.indexed, carries, bne_iff_ne, ne_eq, Byte.high_add, decide_eq_true_eq]
  omega

theorem crossed_locate (mode : Mode) (r : Registers) (b : Bus) :
    (locate mode r b).1.crossed =
      (indexing? mode r b).any fun p => carries p.1 p.2 := by
  cases mode with
  | abx | aby | izy => exact crossed_indexed _ _
  | imp | acc | imm | zp | zpx | zpy | abs | ind | izx | rel => rfl

theorem pagePenalty_locate (byte : UInt8) (r : Registers) (b : Bus) :
    (if (locate (Opcode.decode byte).mode r b).1.crossed then (Opcode.decode byte).pagePenalty
      else 0) = indexPenalty (Opcode.decode byte) r b := by
  have hmode := indexing?_isSome (Opcode.decode byte).mode r b
  rw [crossed_locate, Opcode.pagePenalty_decode, ← hmode, indexPenalty]
  cases indexing? (Opcode.decode byte).mode r b with
  | none => rfl
  | some p =>
    simp only [Option.any_some, Option.isSome_some, Bool.true_and]
    cases (Opcode.decode byte).mnemonic.onlyReads <;> simp

theorem run_straight {m : Mnemonic} (h : m.condition? = none) (o : Operand) (r : Registers)
    (b : Bus) : (m.effect.run o r b).1 = 0 := by
  unfold Mnemonic.condition? at h
  cases he : m.effect with
  | branch taken =>
    rw [he] at h
    cases h
  | jump | call => cases o <;> rfl
  | read f | write f | update f | inside f | push f | pull f | ret | retInterrupt | brk => rfl

theorem run_branch {m : Mnemonic} {taken : Status → Bool} (h : m.condition? = some taken)
    (a : UInt16) (r : Registers) (b : Bus) :
    (m.effect.run (.memory a) r b).1 = if taken r.p then branchCost r.pc a else 0 := by
  unfold Mnemonic.condition? at h
  cases he : m.effect with
  | branch taken' =>
    rw [he] at h
    cases h
    simp only [Effect.run]
    split_ifs <;> rfl
  | _ =>
    rw [he] at h
    cases h

/-- An execution charges what the instruction costs. -/
theorem execute_remaining (c : Cpu) (b : Bus) : (c.execute b).1.remaining =
    instructionCost (b.peek c.registers.pc) c.registers (b.read c.registers.pc).2 := by
  rw [← b.read_fst]
  unfold execute instructionCost
  dsimp only
  generalize b.read c.registers.pc = fetched
  rw [pagePenalty_locate]
  congr 1
  rw [branchPenalty]
  cases hbranch : (Opcode.decode fetched.1).mnemonic.condition? with
  | none => exact run_straight hbranch _ _ _
  | some taken =>
    have hrel := (Opcode.branch_decode hbranch).1
    rw [Opcode.length, hrel]
    exact run_branch hbranch _ _ _

theorem perform_remaining {c : Cpu} {b : Bus} {w : Work} (h : w = c.next b) :
    (c.perform b w).1.remaining = w.cost c.cycles c.registers b := by
  cases w with
  | oamTransfer page =>
    change 513 + c.cycles % 2 = if c.cycles % 2 = 0 then 513 else 514
    split_ifs <;> omega
  | dmcFetch a => rfl
  | nmi | irq => rfl
  | instruction opcode =>
    rw [(opcode_of_next h.symm).2]
    exact c.execute_remaining b

theorem cost_pos (cycle : Nat) (r : Registers) (b : Bus) (w : Work) : 0 < w.cost cycle r b := by
  cases w with
  | oamTransfer page =>
    simp only [Work.cost]
    split_ifs <;> decide
  | dmcFetch a => exact Nat.zero_lt_succ _
  | nmi | irq => exact Nat.zero_lt_succ _
  | instruction opcode => exact Nat.zero_lt_of_lt (instructionCost_bounds opcode r _).1

end Famicom.Cpu
