import Famicom.Cpu
import Famicom.Proofs.Bus.Reads

/-! Fetching an instruction. The processor reads the bytes of the instruction, in order, and then
carries out what they say; an immediate operand it reads as any other operand, if at all. -/
namespace Famicom.Cpu
open Bus

def Mode.fetched : Mode → Nat
  | .imm => 1
  | m => m.length

/-- Where the operand is, `lo` and `hi` being the bytes after the opcode. -/
def aim (mode : Mode) (r : Registers) (lo hi : UInt8) (b : Bus) : Located × Bus :=
  let word := Byte.word lo hi
  match mode with
  | .imp => ({ operand := .none }, b)
  | .acc => ({ operand := .accumulator }, b)
  | .imm => (.memory (r.pc + 1), b)
  | .zp => (.memory lo.toUInt16, b)
  | .zpx => (.memory (lo + r.x).toUInt16, b)
  | .zpy => (.memory (lo + r.y).toUInt16, b)
  | .abs => (.memory word, b)
  | .abx => (.indexed word r.x, b)
  | .aby => (.indexed word r.y, b)
  | .ind =>
    let (a, b) := readWrapped b word
    (.memory a, b)
  | .izx =>
    let (a, b) := readZeroPage b (lo + r.x)
    (.memory a, b)
  | .izy =>
    let (base, b) := readZeroPage b lo
    (.indexed base r.y, b)
  | .rel => (.memory (branchTarget r.pc lo), b)

/-- Carries out the instruction with these bytes, `b` being as their fetch left it. -/
def carryOut (c : Cpu) (bytes : List UInt8) (b : Bus) : Cpu × Bus :=
  let o := Opcode.decode (bytes.getD 0 0)
  let (located, b) := aim o.mode c.registers (bytes.getD 1 0) (bytes.getD 2 0) b
  let penalty := if located.crossed then o.pagePenalty else 0
  let r := { c.registers with pc := c.registers.pc + bytes.length.toUInt16 }
  let (extra, registers, b) := o.mnemonic.effect.run located.operand r b
  ({ c with registers, remaining := o.cycles + penalty + extra }, b)

seal Bus.read Bus.write

theorem locate_eq (mode : Mode) (r : Registers) (b : Bus) :
    let bytes := (b.fetch r.pc mode.length).1
    locate mode r (b.read r.pc).2 =
      aim mode r (bytes.getD 1 0) (bytes.getD 2 0) (b.fetch r.pc mode.fetched).2 := by
  cases mode <;> rfl

theorem execute_eq (c : Cpu) (b : Bus) :
    let o := Opcode.decode (b.peek c.registers.pc)
    c.execute b = c.carryOut (b.fetch c.registers.pc o.length).1
      (b.fetch c.registers.pc o.mode.fetched).2 := by
  rw [← b.read_fst]
  have hfirst (o : Opcode) : (b.fetch c.registers.pc o.length).1.getD 0 0 =
      (b.read c.registers.pc).1 := by
    obtain ⟨_, mode, _, _⟩ := o
    cases mode <;> rfl
  unfold carryOut execute
  dsimp only
  rw [hfirst, locate_eq, length_fetch]
  rfl

end Famicom.Cpu
