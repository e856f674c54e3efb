import Famicom.Cpu.Effect

/-! The processor. An instruction takes effect whole in its first cycle and then keeps the
processor busy for the rest of its cost. -/
namespace Famicom

open Cpu in
structure Cpu where
  registers : Registers := {}
  /-- Cycles until the next piece of work begins. -/
  remaining : Nat := 0
  cycles : Nat := 0
  /-- The interrupt lines as they were last seen. -/
  nmiLine : Bool := false
  irqLine : Bool := false
  /-- The line of a non-maskable interrupt has risen and not been answered. -/
  nmiPending : Bool := false
deriving DecidableEq

namespace Cpu

inductive Work where
  | oamTransfer (page : UInt8)
  | dmcFetch (a : UInt16)
  | nmi
  | irq
  | instruction (opcode : UInt8)
deriving DecidableEq

/-- Registers as they power on, and seven cycles before the first instruction. -/
def reset (b : Bus) : Cpu × Bus :=
  let (pc, b) := b.readWord resetVector
  ({ registers := { pc }, remaining := 7 }, b)

/-- Counts a cycle and samples the lines. -/
def poll (c : Cpu) (b : Bus) : Cpu :=
  { c with
    remaining := c.remaining - 1
    cycles := c.cycles + 1
    nmiPending := c.nmiPending || (b.nmi && !c.nmiLine)
    nmiLine := b.nmi
    irqLine := b.irq }

/-- What comes next: transfers first, then interrupts, then the program. -/
def next (c : Cpu) (b : Bus) : Work :=
  match b.oamPage with
  | some page => .oamTransfer page
  | none =>
    if b.apu.dmc.wants then .dmcFetch b.apu.dmc.address
    else if c.nmiPending then .nmi
    else if c.irqLine && !c.registers.p.irqDisable then .irq
    else .instruction (b.peek c.registers.pc)

def due? (c : Cpu) (b : Bus) : Option Work :=
  if c.remaining = 0 then some (c.next b) else none

def interrupt (c : Cpu) (b : Bus) (vector : UInt16) : Cpu × Bus :=
  let (registers, b) := c.registers.interrupt b c.registers.pc vector false
  ({ c with registers, remaining := 7 }, b)

def execute (c : Cpu) (b : Bus) : Cpu × Bus :=
  let (byte, b) := b.read c.registers.pc
  let o := Opcode.decode byte
  let (located, b) := locate o.mode c.registers b
  let penalty := if located.crossed then o.pagePenalty else 0
  let r := { c.registers with pc := c.registers.pc + o.length.toUInt16 }
  let (extra, registers, b) := o.mnemonic.effect.run located.operand r b
  ({ c with registers, remaining := o.cycles + penalty + extra }, b)

/-- A sprite transfer begun in an odd cycle waits one more. -/
def perform (c : Cpu) (b : Bus) : Work → Cpu × Bus
  | .oamTransfer page =>
    ({ c with remaining := 513 + c.cycles % 2 }, { b with oamPage := none }.transferOam page)
  | .dmcFetch _ => ({ c with remaining := 4 }, b.serveDmc.2)
  | .nmi => { c with nmiPending := false }.interrupt b nmiVector
  | .irq => c.interrupt b irqVector
  | .instruction _ => c.execute b

def clock (c : Cpu) (b : Bus) : Option Work × Cpu × Bus :=
  let c := c.poll b
  match c.due? b with
  | none => (none, c, b)
  | some work => (some work, c.perform b work)

end Cpu
end Famicom
