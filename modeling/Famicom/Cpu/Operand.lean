import Famicom.Bus
import Famicom.Cpu.Opcode
import Famicom.Cpu.Registers

/-! Where an instruction finds its data. The bytes after the opcode and any pointer are read, but
never the data itself: a store does not read where it writes. -/
namespace Famicom.Cpu

inductive Operand where
  | none
  | accumulator
  | memory (a : UInt16)
deriving DecidableEq

structure Located where
  operand : Operand
  /-- The index carried into the high byte. -/
  crossed : Bool := false
deriving DecidableEq

namespace Located

def memory (a : UInt16) : Located := { operand := .memory a }

def indexed (base : UInt16) (index : UInt8) : Located :=
  let a := base + index.toUInt16
  { operand := .memory a, crossed := Byte.high base != Byte.high a }

end Located

/-- A pointer in page zero, which does not reach beyond it. -/
def readZeroPage (b : Bus) (v : UInt8) : UInt16 × Bus :=
  let (lo, b) := b.read v.toUInt16
  let (hi, b) := b.read (v + 1).toUInt16
  (Byte.word lo hi, b)

/-- The address of the high byte of a pointer that does not carry out of its page. -/
def wrappedNext (a : UInt16) : UInt16 := Byte.word (Byte.low a + 1) (Byte.high a)

def readWrapped (b : Bus) (a : UInt16) : UInt16 × Bus :=
  let (lo, b) := b.read a
  let (hi, b) := b.read (wrappedNext a)
  (Byte.word lo hi, b)

def branchTarget (pc : UInt16) (v : UInt8) : UInt16 := pc + 2 + v.toInt8.toInt16.toUInt16

def locate (mode : Mode) (r : Registers) (b : Bus) : Located × Bus :=
  let arg := r.pc + 1
  match mode with
  | .imp => ({ operand := .none }, b)
  | .acc => ({ operand := .accumulator }, b)
  | .imm => (.memory arg, b)
  | .zp =>
    let (v, b) := b.read arg
    (.memory v.toUInt16, b)
  | .zpx =>
    let (v, b) := b.read arg
    (.memory (v + r.x).toUInt16, b)
  | .zpy =>
    let (v, b) := b.read arg
    (.memory (v + r.y).toUInt16, b)
  | .abs =>
    let (a, b) := b.readWord arg
    (.memory a, b)
  | .abx =>
    let (base, b) := b.readWord arg
    (.indexed base r.x, b)
  | .aby =>
    let (base, b) := b.readWord arg
    (.indexed base r.y, b)
  | .ind =>
    let (pointer, b) := b.readWord arg
    let (a, b) := readWrapped b pointer
    (.memory a, b)
  | .izx =>
    let (v, b) := b.read arg
    let (a, b) := readZeroPage b (v + r.x)
    (.memory a, b)
  | .izy =>
    let (v, b) := b.read arg
    let (base, b) := readZeroPage b v
    (.indexed base r.y, b)
  | .rel =>
    let (v, b) := b.read arg
    (.memory (branchTarget r.pc v), b)

end Famicom.Cpu
