import Famicom.Cpu.Operand

/-! What instructions do. Most of them are a function on the registers together with a way of
touching their operand; those that move the program counter or the stack are kinds of their own. -/
namespace Famicom.Cpu

/-! The stack, in page one. -/
namespace Registers

def stackAddress (r : Registers) : UInt16 := Byte.word r.sp 0x01

def push (r : Registers) (b : Bus) (v : UInt8) : Registers × Bus :=
  ({ r with sp := r.sp - 1 }, b.write r.stackAddress v)

def pull (r : Registers) (b : Bus) : UInt8 × Registers × Bus :=
  let r := { r with sp := r.sp + 1 }
  let (v, b) := b.read r.stackAddress
  (v, r, b)

def pushWord (r : Registers) (b : Bus) (v : UInt16) : Registers × Bus :=
  let (r, b) := r.push b (Byte.high v)
  r.push b (Byte.low v)

def pullWord (r : Registers) (b : Bus) : UInt16 × Registers × Bus :=
  let (lo, r, b) := r.pull b
  let (hi, r, b) := r.pull b
  (Byte.word lo hi, r, b)

/-- Enters an interrupt, by hardware or by the break instruction. -/
def interrupt (r : Registers) (b : Bus) (back vector : UInt16) (software : Bool) :
    Registers × Bus :=
  let (r, b) := r.pushWord b back
  let (r, b) := r.push b (r.p.pushed software)
  let (pc, b) := b.readWord vector
  ({ r with pc, p.irqDisable := true }, b)

end Registers

def nmiVector : UInt16 := 0xFFFA
def resetVector : UInt16 := 0xFFFC
def irqVector : UInt16 := 0xFFFE

inductive Effect where
  /-- Takes the operand's value into the registers. -/
  | read (f : Registers → UInt8 → Registers)
  | write (f : Registers → UInt8)
  /-- Reads the operand and writes a new value back. -/
  | update (f : Registers → UInt8 → UInt8 × Registers)
  /-- Only registers change. -/
  | inside (f : Registers → Registers)
  | push (f : Registers → UInt8)
  | pull (f : Registers → UInt8 → Registers)
  | branch (taken : Status → Bool)
  | jump
  | call
  | ret
  | retInterrupt
  | brk

namespace Effect

/-- An update whose result goes on into a second operation. -/
def andThen (f : Registers → UInt8 → UInt8 × Registers) (g : Registers → UInt8 → Registers) :
    Effect :=
  .update fun r v =>
    let (w, r) := f r v
    (w, g r w)

end Effect

open Registers in
def Mnemonic.effect : Mnemonic → Effect
  | lda => .read setA
  | ldx => .read setX
  | ldy => .read setY
  | lax => .read fun r v => { r with x := v }.setA v
  | las => .read fun r v => { r with x := v &&& r.sp, sp := v &&& r.sp }.setA (v &&& r.sp)
  | sta => .write (·.a)
  | stx => .write (·.x)
  | sty => .write (·.y)
  | sax => .write fun r => r.a &&& r.x
  | adc => .read Registers.adc
  | sbc => .read Registers.sbc
  | and => .read fun r v => r.setA (r.a &&& v)
  | ora => .read fun r v => r.setA (r.a ||| v)
  | eor => .read fun r v => r.setA (r.a ^^^ v)
  | bit => .read Registers.bit
  | anc => .read fun r v => (r.setA (r.a &&& v)).setCarry (Byte.has (r.a &&& v) 0x80)
  | alr => .read fun r v =>
    let (w, r) := r.lsr (r.a &&& v)
    { r with a := w }
  | arr => .read fun r v =>
    let (w, r) := r.ror (r.a &&& v)
    { r with
      a := w
      p.carry := Byte.has w 0x40
      p.overflow := Byte.has w 0x40 != Byte.has w 0x20 }
  | cmp => .read fun r v => r.compare r.a v
  | cpx => .read fun r v => r.compare r.x v
  | cpy => .read fun r v => r.compare r.y v
  | sbx => .read fun r v => { r.compare (r.a &&& r.x) v with x := (r.a &&& r.x) - v }
  | asl => .update Registers.asl
  | lsr => .update Registers.lsr
  | rol => .update Registers.rol
  | ror => .update Registers.ror
  | inc => .update Registers.inc
  | dec => .update Registers.dec
  | slo => .andThen Registers.asl fun r v => r.setA (r.a ||| v)
  | rla => .andThen Registers.rol fun r v => r.setA (r.a &&& v)
  | sre => .andThen Registers.lsr fun r v => r.setA (r.a ^^^ v)
  | rra => .andThen Registers.ror Registers.adc
  | dcp => .andThen (fun r v => (v - 1, r)) fun r v => r.compare r.a v
  | isc => .andThen (fun r v => (v + 1, r)) Registers.sbc
  | inx => .inside fun r => r.setX (r.x + 1)
  | iny => .inside fun r => r.setY (r.y + 1)
  | dex => .inside fun r => r.setX (r.x - 1)
  | dey => .inside fun r => r.setY (r.y - 1)
  | tax => .inside fun r => r.setX r.a
  | tay => .inside fun r => r.setY r.a
  | txa => .inside fun r => r.setA r.x
  | tya => .inside fun r => r.setA r.y
  | tsx => .inside fun r => r.setX r.sp
  | txs => .inside fun r => { r with sp := r.x }
  | clc => .inside fun r => { r with p.carry := false }
  | sec => .inside fun r => { r with p.carry := true }
  | cli => .inside fun r => { r with p.irqDisable := false }
  | sei => .inside fun r => { r with p.irqDisable := true }
  | cld => .inside fun r => { r with p.decimal := false }
  | sed => .inside fun r => { r with p.decimal := true }
  | clv => .inside fun r => { r with p.overflow := false }
  | pha => .push (·.a)
  | php => .push fun r => r.p.pushed true
  | pla => .pull setA
  | plp => .pull fun r v => { r with p := .restored v }
  | bpl => .branch fun p => !p.negative
  | bmi => .branch (·.negative)
  | bvc => .branch fun p => !p.overflow
  | bvs => .branch (·.overflow)
  | bcc => .branch fun p => !p.carry
  | bcs => .branch (·.carry)
  | bne => .branch fun p => !p.zero
  | beq => .branch (·.zero)
  | jmp => .jump
  | jsr => .call
  | rts => .ret
  | rti => .retInterrupt
  | brk => .brk
  | nop | ane | lxa | sha | shx | shy | tas | jam => .inside id

def load (r : Registers) (b : Bus) : Operand → UInt8 × Bus
  | .memory a => b.read a
  | .accumulator => (r.a, b)
  | .none => (0, b)

def store (r : Registers) (b : Bus) (v : UInt8) : Operand → Registers × Bus
  | .memory a => (r, b.write a v)
  | .accumulator => ({ r with a := v }, b)
  | .none => (r, b)

/-- What a taken branch costs: one cycle, or two onto another page. -/
def branchCost (source target : UInt16) : Nat :=
  if Byte.high source = Byte.high target then 1 else 2

/-- Carries an effect out, `r.pc` being past the instruction already. The number is of cycles
beyond the base cost. -/
def Effect.run (e : Effect) (o : Operand) (r : Registers) (b : Bus) : Nat × Registers × Bus :=
  match e with
  | .read f =>
    let (v, b) := load r b o
    (0, f r v, b)
  | .write f => (0, store r b (f r) o)
  | .update f =>
    let (v, b) := load r b o
    let (w, r) := f r v
    (0, store r b w o)
  | .inside f => (0, f r, b)
  | .push f => (0, r.push b (f r))
  | .pull f =>
    let (v, r, b) := r.pull b
    (0, f r v, b)
  | .branch taken =>
    match o with
    | .memory a => if taken r.p then (branchCost r.pc a, { r with pc := a }, b) else (0, r, b)
    | _ => (0, r, b)
  | .jump =>
    match o with
    | .memory a => (0, { r with pc := a }, b)
    | _ => (0, r, b)
  | .call =>
    match o with
    | .memory a =>
      let (r, b) := r.pushWord b (r.pc - 1)
      (0, { r with pc := a }, b)
    | _ => (0, r, b)
  | .ret =>
    let (pc, r, b) := r.pullWord b
    (0, { r with pc := pc + 1 }, b)
  | .retInterrupt =>
    let (v, r, b) := r.pull b
    let (pc, r, b) := { r with p := .restored v }.pullWord b
    (0, { r with pc }, b)
  | .brk => (0, r.interrupt b (r.pc + 1) irqVector true)

end Famicom.Cpu
