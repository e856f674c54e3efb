import Famicom.Byte

/-! The instruction set: a mnemonic, an addressing mode and a base cost for each opcode. -/
namespace Famicom.Cpu

/-- Addressing modes: implied, accumulator, immediate, zero page (and with X or Y), absolute (and
with X or Y), indirect, indexed indirect, indirect indexed, relative. -/
inductive Mode where
  | imp | acc | imm | zp | zpx | zpy | abs | abx | aby | ind | izx | izy | rel
deriving DecidableEq

namespace Mode

def length : Mode → Nat
  | imp | acc => 1
  | imm | zp | zpx | zpy | izx | izy | rel => 2
  | abs | abx | aby | ind => 3

end Mode

inductive Mnemonic where
  | adc | and | asl | bcc | bcs | beq | bit | bmi | bne | bpl | brk | bvc | bvs | clc
  | cld | cli | clv | cmp | cpx | cpy | dec | dex | dey | eor | inc | inx | iny | jmp
  | jsr | lda | ldx | ldy | lsr | nop | ora | pha | php | pla | plp | rol | ror | rti
  | rts | sbc | sec | sed | sei | sta | stx | sty | tax | tay | tsx | txa | txs | tya
  -- Undocumented, but dependable.
  | slo | rla | sre | rra | sax | lax | dcp | isc | anc | alr | arr | sbx | las
  -- Undocumented and unstable, or locking up.
  | ane | lxa | sha | shx | shy | tas | jam
deriving DecidableEq

namespace Mnemonic

def name : Mnemonic → String
  | adc => "ADC" | and => "AND" | asl => "ASL" | bcc => "BCC" | bcs => "BCS"
  | beq => "BEQ" | bit => "BIT" | bmi => "BMI" | bne => "BNE" | bpl => "BPL"
  | brk => "BRK" | bvc => "BVC" | bvs => "BVS" | clc => "CLC" | cld => "CLD"
  | cli => "CLI" | clv => "CLV" | cmp => "CMP" | cpx => "CPX" | cpy => "CPY"
  | dec => "DEC" | dex => "DEX" | dey => "DEY" | eor => "EOR" | inc => "INC"
  | inx => "INX" | iny => "INY" | jmp => "JMP" | jsr => "JSR" | lda => "LDA"
  | ldx => "LDX" | ldy => "LDY" | lsr => "LSR" | nop => "NOP" | ora => "ORA"
  | pha => "PHA" | php => "PHP" | pla => "PLA" | plp => "PLP" | rol => "ROL"
  | ror => "ROR" | rti => "RTI" | rts => "RTS" | sbc => "SBC" | sec => "SEC"
  | sed => "SED" | sei => "SEI" | sta => "STA" | stx => "STX" | sty => "STY"
  | tax => "TAX" | tay => "TAY" | tsx => "TSX" | txa => "TXA" | txs => "TXS"
  | tya => "TYA" | slo => "SLO" | rla => "RLA" | sre => "SRE" | rra => "RRA"
  | sax => "SAX" | lax => "LAX" | dcp => "DCP" | isc => "ISB" | anc => "ANC"
  | alr => "ALR" | arr => "ARR" | sbx => "SBX" | las => "LAS" | ane => "ANE"
  | lxa => "LXA" | sha => "SHA" | shx => "SHX" | shy => "SHY" | tas => "TAS"
  | jam => "JAM"

def inert : Mnemonic → Bool
  | ane | lxa | sha | shx | shy | tas | jam => true
  | _ => false

end Mnemonic

structure Opcode where
  mnemonic : Mnemonic
  mode : Mode
  cycles : Nat
  documented : Bool
deriving DecidableEq

namespace Opcode

def length (o : Opcode) : Nat := o.mode.length

/-- Indexed reads wait when the index carries into the high byte. Stores and updates, which cost
more to begin with, never do. -/
def pagePenalty (o : Opcode) : Nat :=
  match o.mode with
  | .abx | .aby => if o.cycles = 4 then 1 else 0
  | .izy => if o.cycles = 5 then 1 else 0
  | _ => 0

def doc (m : Mnemonic) (mode : Mode) (cycles : Nat) : Opcode := ⟨m, mode, cycles, true⟩

def und (m : Mnemonic) (mode : Mode) (cycles : Nat) : Opcode := ⟨m, mode, cycles, false⟩

/-- The matrix: a row for each high digit, a column for each low one. -/
def table : Vector (Vector Opcode 16) 16 := #v[
  #v[doc .brk .imp 7, doc .ora .izx 6, und .jam .imp 2, und .slo .izx 8,
    und .nop .zp 3, doc .ora .zp 3, doc .asl .zp 5, und .slo .zp 5,
    doc .php .imp 3, doc .ora .imm 2, doc .asl .acc 2, und .anc .imm 2,
    und .nop .abs 4, doc .ora .abs 4, doc .asl .abs 6, und .slo .abs 6],
  #v[doc .bpl .rel 2, doc .ora .izy 5, und .jam .imp 2, und .slo .izy 8,
    und .nop .zpx 4, doc .ora .zpx 4, doc .asl .zpx 6, und .slo .zpx 6,
    doc .clc .imp 2, doc .ora .aby 4, und .nop .imp 2, und .slo .aby 7,
    und .nop .abx 4, doc .ora .abx 4, doc .asl .abx 7, und .slo .abx 7],
  #v[doc .jsr .abs 6, doc .and .izx 6, und .jam .imp 2, und .rla .izx 8,
    doc .bit .zp 3, doc .and .zp 3, doc .rol .zp 5, und .rla .zp 5,
    doc .plp .imp 4, doc .and .imm 2, doc .rol .acc 2, und .anc .imm 2,
    doc .bit .abs 4, doc .and .abs 4, doc .rol .abs 6, und .rla .abs 6],
  #v[doc .bmi .rel 2, doc .and .izy 5, und .jam .imp 2, und .rla .izy 8,
    und .nop .zpx 4, doc .and .zpx 4, doc .rol .zpx 6, und .rla .zpx 6,
    doc .sec .imp 2, doc .and .aby 4, und .nop .imp 2, und .rla .aby 7,
    und .nop .abx 4, doc .and .abx 4, doc .rol .abx 7, und .rla .abx 7],
  #v[doc .rti .imp 6, doc .eor .izx 6, und .jam .imp 2, und .sre .izx 8,
    und .nop .zp 3, doc .eor .zp 3, doc .lsr .zp 5, und .sre .zp 5,
    doc .pha .imp 3, doc .eor .imm 2, doc .lsr .acc 2, und .alr .imm 2,
    doc .jmp .abs 3, doc .eor .abs 4, doc .lsr .abs 6, und .sre .abs 6],
  #v[doc .bvc .rel 2, doc .eor .izy 5, und .jam .imp 2, und .sre .izy 8,
    und .nop .zpx 4, doc .eor .zpx 4, doc .lsr .zpx 6, und .sre .zpx 6,
    doc .cli .imp 2, doc .eor .aby 4, und .nop .imp 2, und .sre .aby 7,
    und .nop .abx 4, doc .eor .abx 4, doc .lsr .abx 7, und .sre .abx 7],
  #v[doc .rts .imp 6, doc .adc .izx 6, und .jam .imp 2, und .rra .izx 8,
    und .nop .zp 3, doc .adc .zp 3, doc .ror .zp 5, und .rra .zp 5,
    doc .pla .imp 4, doc .adc .imm 2, doc .ror .acc 2, und .arr .imm 2,
    doc .jmp .ind 5, doc .adc .abs 4, doc .ror .abs 6, und .rra .abs 6],
  #v[doc .bvs .rel 2, doc .adc .izy 5, und .jam .imp 2, und .rra .izy 8,
    und .nop .zpx 4, doc .adc .zpx 4, doc .ror .zpx 6, und .rra .zpx 6,
    doc .sei .imp 2, doc .adc .aby 4, und .nop .imp 2, und .rra .aby 7,
    und .nop .abx 4, doc .adc .abx 4, doc .ror .abx 7, und .rra .abx 7],
  #v[und .nop .imm 2, doc .sta .izx 6, und .nop .imm 2, und .sax .izx 6,
    doc .sty .zp 3, doc .sta .zp 3, doc .stx .zp 3, und .sax .zp 3,
    doc .dey .imp 2, und .nop .imm 2, doc .txa .imp 2, und .ane .imm 2,
    doc .sty .abs 4, doc .sta .abs 4, doc .stx .abs 4, und .sax .abs 4],
  #v[doc .bcc .rel 2, doc .sta .izy 6, und .jam .imp 2, und .sha .izy 6,
    doc .sty .zpx 4, doc .sta .zpx 4, doc .stx .zpy 4, und .sax .zpy 4,
    doc .tya .imp 2, doc .sta .aby 5, doc .txs .imp 2, und .tas .aby 5,
    und .shy .abx 5, doc .sta .abx 5, und .shx .aby 5, und .sha .aby 5],
  #v[doc .ldy .imm 2, doc .lda .izx 6, doc .ldx .imm 2, und .lax .izx 6,
    doc .ldy .zp 3, doc .lda .zp 3, doc .ldx .zp 3, und .lax .zp 3,
    doc .tay .imp 2, doc .lda .imm 2, doc .tax .imp 2, und .lxa .imm 2,
    doc .ldy .abs 4, doc .lda .abs 4, doc .ldx .abs 4, und .lax .abs 4],
  #v[doc .bcs .rel 2, doc .lda .izy 5, und .jam .imp 2, und .lax .izy 5,
    doc .ldy .zpx 4, doc .lda .zpx 4, doc .ldx .zpy 4, und .lax .zpy 4,
    doc .clv .imp 2, doc .lda .aby 4, doc .tsx .imp 2, und .las .aby 4,
    doc .ldy .abx 4, doc .lda .abx 4, doc .ldx .aby 4, und .lax .aby 4],
  #v[doc .cpy .imm 2, doc .cmp .izx 6, und .nop .imm 2, und .dcp .izx 8,
    doc .cpy .zp 3, doc .cmp .zp 3, doc .dec .zp 5, und .dcp .zp 5,
    doc .iny .imp 2, doc .cmp .imm 2, doc .dex .imp 2, und .sbx .imm 2,
    doc .cpy .abs 4, doc .cmp .abs 4, doc .dec .abs 6, und .dcp .abs 6],
  #v[doc .bne .rel 2, doc .cmp .izy 5, und .jam .imp 2, und .dcp .izy 8,
    und .nop .zpx 4, doc .cmp .zpx 4, doc .dec .zpx 6, und .dcp .zpx 6,
    doc .cld .imp 2, doc .cmp .aby 4, und .nop .imp 2, und .dcp .aby 7,
    und .nop .abx 4, doc .cmp .abx 4, doc .dec .abx 7, und .dcp .abx 7],
  #v[doc .cpx .imm 2, doc .sbc .izx 6, und .nop .imm 2, und .isc .izx 8,
    doc .cpx .zp 3, doc .sbc .zp 3, doc .inc .zp 5, und .isc .zp 5,
    doc .inx .imp 2, doc .sbc .imm 2, doc .nop .imp 2, und .sbc .imm 2,
    doc .cpx .abs 4, doc .sbc .abs 4, doc .inc .abs 6, und .isc .abs 6],
  #v[doc .beq .rel 2, doc .sbc .izy 5, und .jam .imp 2, und .isc .izy 8,
    und .nop .zpx 4, doc .sbc .zpx 4, doc .inc .zpx 6, und .isc .zpx 6,
    doc .sed .imp 2, doc .sbc .aby 4, und .nop .imp 2, und .isc .aby 7,
    und .nop .abx 4, doc .sbc .abx 4, doc .inc .abx 7, und .isc .abx 7]]

def decode (b : UInt8) : Opcode := Byte.select table[b.toNat / 16 % 16] b

end Opcode
end Famicom.Cpu
