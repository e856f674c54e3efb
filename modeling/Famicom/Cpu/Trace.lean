import Famicom.Cpu
import Famicom.Text

/-! Lines of an instruction log. They are taken without disturbing what they show. -/
namespace Famicom.Cpu

structure Trace where
  /-- The bytes of the instruction. -/
  bytes : List UInt8
  mnemonic : Mnemonic
  documented : Bool
  operand : String
  registers : Registers
  scanline : Nat
  dot : Nat
  cycles : Nat
deriving DecidableEq

namespace Trace

def byteText (v : UInt8) : String := Text.hex 2 v.toNat

def wordText (a : UInt16) : String := Text.hex 4 a.toNat

def registersText (r : Registers) : String :=
  "A:" ++ byteText r.a ++ " X:" ++ byteText r.x ++ " Y:" ++ byteText r.y
    ++ " P:" ++ byteText r.p.toByte ++ " SP:" ++ byteText r.sp

def peekZeroPage (b : Bus) (v : UInt8) : UInt16 :=
  Byte.word (b.peek v.toUInt16) (b.peek (v + 1).toUInt16)

def operandText (mode : Mode) (m : Mnemonic) (r : Registers) (b : Bus) (lo hi : UInt8) :
    String :=
  let word := Byte.word lo hi
  let value (a : UInt16) := " = " ++ byteText (b.peek a)
  match mode with
  | .imp => ""
  | .acc => "A"
  | .imm => "#$" ++ byteText lo
  | .zp => "$" ++ byteText lo ++ value lo.toUInt16
  | .zpx =>
    let a := lo + r.x
    "$" ++ byteText lo ++ ",X @ " ++ byteText a ++ value a.toUInt16
  | .zpy =>
    let a := lo + r.y
    "$" ++ byteText lo ++ ",Y @ " ++ byteText a ++ value a.toUInt16
  | .abs =>
    match m with
    | .jmp | .jsr => "$" ++ wordText word
    | _ => "$" ++ wordText word ++ value word
  | .abx =>
    let a := word + r.x.toUInt16
    "$" ++ wordText word ++ ",X @ " ++ wordText a ++ value a
  | .aby =>
    let a := word + r.y.toUInt16
    "$" ++ wordText word ++ ",Y @ " ++ wordText a ++ value a
  | .ind =>
    let a := Byte.word (b.peek word) (b.peek (wrappedNext word))
    "($" ++ wordText word ++ ") = " ++ wordText a
  | .izx =>
    let pointer := lo + r.x
    let a := peekZeroPage b pointer
    "($" ++ byteText lo ++ ",X) @ " ++ byteText pointer ++ " = " ++ wordText a ++ value a
  | .izy =>
    let base := peekZeroPage b lo
    let a := base + r.y.toUInt16
    "($" ++ byteText lo ++ "),Y = " ++ wordText base ++ " @ " ++ wordText a ++ value a
  | .rel => "$" ++ wordText (branchTarget r.pc lo)

def capture (r : Registers) (b : Bus) (cycles : Nat) : Trace :=
  let byte (i : Nat) := b.peek (r.pc + i.toUInt16)
  let o := Opcode.decode (byte 0)
  {
    bytes := (List.range o.length).map byte
    mnemonic := o.mnemonic
    documented := o.documented
    operand := operandText o.mode o.mnemonic r b (byte 1) (byte 2)
    registers := r
    scanline := b.ppu.scanline
    dot := b.ppu.dot
    cycles }

def disassembly (t : Trace) : String :=
  if t.operand.isEmpty then t.mnemonic.name else t.mnemonic.name ++ " " ++ t.operand

def text (t : Trace) : String :=
  let r := t.registers
  let bytes := String.intercalate " " (t.bytes.map byteText)
  let marker := if t.documented then " " else "*"
  wordText r.pc ++ "  " ++ Text.alignLeft 8 bytes ++ " " ++ marker
    ++ Text.alignLeft 32 t.disassembly
    ++ registersText r
    ++ " PPU:" ++ Text.alignRight 3 (toString t.scanline)
    ++ "," ++ Text.alignRight 3 (toString t.dot)
    ++ " CYC:" ++ toString t.cycles

end Trace

def trace? (c : Cpu) (b : Bus) : Option Trace :=
  if 1 < c.remaining then none
  else
    let c := c.poll b
    match c.due? b with
    | some (.instruction _) => some (Trace.capture c.registers b c.cycles)
    | _ => none

end Famicom.Cpu
