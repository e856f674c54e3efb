import Famicom.Proofs.Bus.Reads
import Famicom.Proofs.Cpu.Costs
import Famicom.Proofs.Cpu.Stack

/-! What an instruction cannot change. Whatever is on the bus, the registers it leaves come from
those it found and from what it reads, and internal RAM changes only where it writes. So each flag,
the stack pointer, the program counter and every byte of RAM are changed only by the instructions
that are there to change them. -/
namespace Famicom

/-! Internal RAM. -/

namespace Bus

theorem ram_write (b : Bus) (a : UInt16) (v : UInt8) (i : Nat) : Ram.read (b.write a v).ram i =
    if a < 0x2000 ∧ a.toNat % 0x800 = i % 0x800 then v else Ram.read b.ram i := by
  by_cases ha : a < 0x2000
  · simp only [write, ha, if_true, true_and, Ram.read_write]
  · simp only [write, ha, if_false, false_and]
    split_ifs
    · rw [writePpu_rest]
    all_goals rfl

theorem Wrote.ram {b b' : Bus} {ws : List (UInt16 × UInt8)} (h : Wrote b ws b') {i : Nat}
    (hi : ∀ w ∈ ws, w.1 < 0x2000 → w.1.toNat % 0x800 ≠ i % 0x800) :
    Ram.read b'.ram i = Ram.read b.ram i := by
  induction h with
  | refl => rfl
  | read _ a ih => rw [(peek_shows_read _ a).2.ram_eq, ih hi]
  | write _ a v ih =>
    have hother : ¬(a < 0x2000 ∧ a.toNat % 0x800 = i % 0x800) := by
      intro ⟨ha, hplace⟩
      exact hi (a, v) (by simp) ha hplace
    rw [ram_write, if_neg hother]
    apply ih
    intro w hw
    exact hi w (List.mem_append_left _ hw)

end Bus

namespace Cpu
open Bus

/-! What the instructions are there to change. -/

namespace Mnemonic

def setsMask : Mnemonic → Bool
  | cli | sei | plp | rti | brk => true
  | _ => false

def setsDecimal : Mnemonic → Bool
  | cld | sed | plp | rti => true
  | _ => false

def setsOverflow : Mnemonic → Bool
  | adc | sbc | rra | isc | arr | bit | clv | plp | rti => true
  | _ => false

def movesPointer : Mnemonic → Bool
  | pha | php | pla | plp | txs | las | jsr | rts | rti | brk => true
  | _ => false

/-- Stores, jumps and the like, which leave the data registers and the status alone. -/
def passive : Mnemonic → Bool
  | sta | stx | sty | sax | nop | bpl | bmi | bvc | bvs | bcc | bcs | bne | beq => true
  | jmp | jsr | rts | txs | pha | php => true
  | m => m.inert

/-- Whether the next instruction is not the one that follows. -/
def jumps (m : Mnemonic) (p : Status) : Bool :=
  match m with
  | jmp | jsr | rts | rti | brk => true
  | bpl => !p.negative
  | bmi => p.negative
  | bvc => !p.overflow
  | bvs => p.overflow
  | bcc => !p.carry
  | bcs => p.carry
  | bne => !p.zero
  | beq => p.zero
  | _ => false

def writesOperand : Mnemonic → Bool
  | sta | stx | sty | sax => true
  | asl | lsr | rol | ror | inc | dec => true
  | slo | rla | sre | rra | dcp | isc => true
  | _ => false

def pushes : Mnemonic → Nat
  | pha | php => 1
  | jsr => 2
  | brk => 3
  | _ => 0

def Reaches (m : Mnemonic) (o : Operand) (sp : UInt8) (a : UInt16) : Prop :=
  m.writesOperand = true ∧ o = .memory a ∨ ∃ n < m.pushes, a = Byte.word (below sp n) 0x01

end Mnemonic

/-! The registers that an instruction leaves. -/

def Operand.target (o : Operand) (pc : UInt16) : UInt16 :=
  match o with
  | .memory a => a
  | .accumulator | .none => pc

/-- The registers after an effect, `v` being the byte that it reads and `pc` the program counter
that it finds in memory. -/
def Effect.after (e : Effect) (o : Operand) (r : Registers) (v : UInt8) (pc : UInt16) :
    Registers :=
  match e with
  | .read f => f r v
  | .write f => { r with a := if o = .accumulator then f r else r.a }
  | .update f => { (f r v).2 with a := if o = .accumulator then (f r v).1 else (f r v).2.a }
  | .inside f => f r
  | .push _ => { r with sp := r.sp - 1 }
  | .pull f => f { r with sp := r.sp + 1 } v
  | .branch taken => { r with pc := if taken r.p then o.target r.pc else r.pc }
  | .jump => { r with pc := o.target r.pc }
  | .call =>
    match o with
    | .memory a => { r with sp := r.sp - 1 - 1, pc := a }
    | .accumulator | .none => r
  | .ret => { r with sp := r.sp + 1 + 1, pc }
  | .retInterrupt => { r with sp := r.sp + 1 + 1 + 1, p := .restored v, pc }
  | .brk => { r with sp := r.sp - 1 - 1 - 1, p.irqDisable := true, pc }

seal Bus.read Bus.write

theorem store_registers (r : Registers) (b : Bus) (v : UInt8) (o : Operand) :
    (store r b v o).1 = { r with a := if o = .accumulator then v else r.a } := by
  cases o <;> rfl

/-- Of the whole bus, a byte and a word are all that matters to the registers. -/
theorem run_registers (e : Effect) (o : Operand) (r : Registers) (b : Bus) :
    ∃ v pc, (e.run o r b).2.1 = e.after o r v pc := by
  cases e with
  | read f => exact ⟨(load r b o).1, 0, rfl⟩
  | write f => exact ⟨0, 0, store_registers r b (f r) o⟩
  | update f => exact ⟨(load r b o).1, 0, store_registers _ _ _ o⟩
  | inside f | push f => exact ⟨0, 0, rfl⟩
  | pull f => exact ⟨(r.pull b).1, 0, rfl⟩
  | branch taken =>
    refine ⟨0, 0, ?_⟩
    cases o with
    | memory a =>
      simp only [Effect.run, Effect.after, Operand.target]
      split_ifs <;> rfl
    | accumulator | none => simp only [Effect.run, Effect.after, Operand.target, ite_self]
  | jump | call =>
    refine ⟨0, 0, ?_⟩
    cases o <;> rfl
  | ret => exact ⟨0, (r.pullWord b).1 + 1, rfl⟩
  | retInterrupt => exact ⟨(r.pull b).1, (({ (r.pull b).2.1 with
      p := .restored (r.pull b).1 } : Registers).pullWord (r.pull b).2.2).1, rfl⟩
  | brk => exact ⟨0, (r.interrupt b (r.pc + 1) irqVector true).1.pc, rfl⟩

namespace Mnemonic
variable {m : Mnemonic} {r : Registers}

theorem mask_after (h : m.setsMask = false) (o : Operand) (v : UInt8) (pc : UInt16) :
    (m.effect.after o r v pc).p.irqDisable = r.p.irqDisable := by
  cases m
  case jsr => cases o <;> rfl
  all_goals first | rfl | cases h

theorem decimal_after (h : m.setsDecimal = false) (o : Operand) (v : UInt8) (pc : UInt16) :
    (m.effect.after o r v pc).p.decimal = r.p.decimal := by
  cases m
  case jsr => cases o <;> rfl
  all_goals first | rfl | cases h

theorem overflow_after (h : m.setsOverflow = false) (o : Operand) (v : UInt8) (pc : UInt16) :
    (m.effect.after o r v pc).p.overflow = r.p.overflow := by
  cases m
  case jsr => cases o <;> rfl
  all_goals first | rfl | cases h

theorem pointer_after (h : m.movesPointer = false) (o : Operand) (v : UInt8) (pc : UInt16) :
    (m.effect.after o r v pc).sp = r.sp := by
  cases m <;> first | rfl | cases h

theorem pc_after (h : m.jumps r.p = false) (o : Operand) (v : UInt8) (pc : UInt16) :
    (m.effect.after o r v pc).pc = r.pc := by
  cases m
  case bpl | bmi | bvc | bvs | bcc | bcs | bne | beq => exact if_neg (ne_true_of_eq_false h)
  all_goals first | rfl | cases h

theorem passive_after (h : m.passive = true) {o : Operand}
    (ho : m.writesOperand = true → o ≠ .accumulator) (v : UInt8) (pc : UInt16) :
    ∃ sp' pc', m.effect.after o r v pc = { r with sp := sp', pc := pc' } := by
  cases m
  case sta | stx | sty | sax =>
    refine ⟨r.sp, r.pc, ?_⟩
    simp only [effect, Effect.after, if_neg (ho rfl)]
  case jsr => cases o <;> exact ⟨_, _, rfl⟩
  all_goals first | exact ⟨_, _, rfl⟩ | cases h

end Mnemonic

/-! The places that an instruction writes to. -/

theorem mem_stored {v : UInt8} {o : Operand} {w : UInt16 × UInt8} (h : w ∈ stored v o) :
    o = .memory w.1 := by
  cases o with
  | memory a => rw [List.mem_singleton.mp h]
  | accumulator | none => exact absurd h List.not_mem_nil

theorem mem_saved {r : Registers} {back : UInt16} {software : Bool} {w : UInt16 × UInt8}
    (h : w ∈ r.saved back software) : ∃ n < 3, w.1 = Byte.word (below r.sp n) 0x01 := by
  simp only [Registers.saved, Registers.pushedWord, List.cons_append, List.nil_append,
    List.mem_cons, List.not_mem_nil, or_false] at h
  obtain rfl | rfl | rfl := h
  · exact ⟨0, by decide, by rw [below_zero]; rfl⟩
  · exact ⟨1, by decide, rfl⟩
  · exact ⟨2, by decide, by rw [below_succ]; rfl⟩

theorem mem_pushedWord {r : Registers} {v : UInt16} {w : UInt16 × UInt8}
    (h : w ∈ r.pushedWord v) : ∃ n < 2, w.1 = Byte.word (below r.sp n) 0x01 := by
  simp only [Registers.pushedWord, List.mem_cons, List.not_mem_nil, or_false] at h
  obtain rfl | rfl := h
  · exact ⟨0, by decide, by rw [below_zero]; rfl⟩
  · exact ⟨1, by decide, rfl⟩

theorem Mnemonic.reaches {m : Mnemonic} {o : Operand} {r : Registers} {b : Bus}
    {w : UInt16 × UInt8} (h : w ∈ m.effect.writes o r b) : m.Reaches o r.sp w.1 := by
  cases m
  case sta | stx | sty | sax | asl | lsr | rol | ror | inc | dec | slo | rla | sre | rra | dcp
    | isc => exact .inl ⟨rfl, mem_stored h⟩
  case pha | php =>
    refine .inr ⟨0, by decide, ?_⟩
    rw [List.mem_singleton.mp h, below_zero]
    rfl
  case jsr =>
    cases o with
    | memory a => exact .inr (mem_pushedWord h)
    | accumulator | none => exact absurd h List.not_mem_nil
  case brk => exact .inr (mem_saved h)
  all_goals exact absurd h List.not_mem_nil

/-! One instruction. -/

def advanced (c : Cpu) (b : Bus) : Registers :=
  { c.registers with
    pc := c.registers.pc + (Opcode.decode (b.peek c.registers.pc)).length.toUInt16 }

def operand (c : Cpu) (b : Bus) : Operand :=
  (locate (Opcode.decode (b.peek c.registers.pc)).mode c.registers
    (b.read c.registers.pc).2).1.operand

theorem operand_ne_accumulator {c : Cpu} {b : Bus}
    (hm : (Opcode.decode (b.peek c.registers.pc)).mnemonic.passive = true)
    (hw : (Opcode.decode (b.peek c.registers.pc)).mnemonic.writesOperand = true) :
    c.operand b ≠ .accumulator := by
  have hmode : (Opcode.decode (b.peek c.registers.pc)).mode ≠ .acc := by
    revert hm hw
    apply Opcode.decode_all (P := fun o => o.mnemonic.passive = true →
      o.mnemonic.writesOperand = true → o.mode ≠ .acc)
    decide +kernel
  unfold operand
  revert hmode
  cases (Opcode.decode (b.peek c.registers.pc)).mode with
  | acc => exact fun h => absurd rfl h
  | _ => exact fun _ h => by cases h

theorem execute_registers (c : Cpu) (b : Bus) : ∃ v pc, (c.execute b).1.registers =
    (Opcode.decode (b.peek c.registers.pc)).mnemonic.effect.after (c.operand b) (c.advanced b) v
      pc := by
  unfold operand advanced
  rw [← b.read_fst]
  exact run_registers _ _ _ _

theorem writes_reach {c : Cpu} {b : Bus} {w : UInt16 × UInt8} (h : w ∈ c.writes b) :
    (Opcode.decode (b.peek c.registers.pc)).mnemonic.Reaches (c.operand b) c.registers.sp w.1 := by
  unfold operand
  rw [← b.read_fst]
  have hreach := Mnemonic.reaches h
  exact hreach

/-- An instruction with this operand has changed, of the registers and of internal RAM, only what it
is there to change. -/
structure Confined (o : Opcode) (operand : Operand) (r : Registers) (b : Bus) (r' : Registers)
    (b' : Bus) : Prop where
  mask : o.mnemonic.setsMask = false → r'.p.irqDisable = r.p.irqDisable
  decimal : o.mnemonic.setsDecimal = false → r'.p.decimal = r.p.decimal
  overflow : o.mnemonic.setsOverflow = false → r'.p.overflow = r.p.overflow
  pointer : o.mnemonic.movesPointer = false → r'.sp = r.sp
  passive : o.mnemonic.passive = true → r'.a = r.a ∧ r'.x = r.x ∧ r'.y = r.y ∧ r'.p = r.p
  next : o.mnemonic.jumps r.p = false → r'.pc = r.pc + o.length.toUInt16
  ram : ∀ i < 0x800, Ram.read b'.ram i ≠ Ram.read b.ram i →
    ∃ a, o.mnemonic.Reaches operand r.sp a ∧ a < 0x2000 ∧ a.toNat % 0x800 = i

theorem execute_confined (c : Cpu) (b : Bus) :
    Confined (Opcode.decode (b.peek c.registers.pc)) (c.operand b) c.registers b
      (c.execute b).1.registers (c.execute b).2 := by
  obtain ⟨v, pc, hregisters⟩ := execute_registers c b
  rw [hregisters]
  constructor
  · intro h
    exact Mnemonic.mask_after h _ _ _
  · intro h
    exact Mnemonic.decimal_after h _ _ _
  · intro h
    exact Mnemonic.overflow_after h _ _ _
  · intro h
    exact Mnemonic.pointer_after h _ _ _
  · intro h
    obtain ⟨sp', pc', hafter⟩ := Mnemonic.passive_after h (operand_ne_accumulator h) v pc
    rw [hafter]
    exact ⟨rfl, rfl, rfl, rfl⟩
  · intro h
    exact Mnemonic.pc_after (r := c.advanced b) h _ _ _
  · intro i hi hchanged
    by_contra hnone
    push Not at hnone
    apply hchanged
    apply (c.execute_wrote b).ram
    intro w hw hlow
    rw [Nat.mod_eq_of_lt hi]
    exact hnone w.1 (writes_reach hw) hlow

/-- Whenever an instruction is dispatched, it changes only what it is there to change. -/
theorem dispatch_confined {c : Cpu} {b : Bus} {opcode : UInt8}
    (h : (c.clock b).1 = some (.instruction opcode)) :
    opcode = b.peek c.registers.pc ∧
      Confined (Opcode.decode opcode) (c.operand b) c.registers b (c.clock b).2.1.registers
        (c.clock b).2.2 := by
  obtain ⟨hclock, hnext⟩ := c.clock_work b h
  obtain ⟨-, hopcode⟩ := opcode_of_next hnext.symm
  rw [hclock]
  exact ⟨hopcode, hopcode ▸ execute_confined (c.poll b) b⟩

def increment : Bus := { ram := ((Ram.zeros _).write 0 0xE6).write 1 0x10 }

/-- An increment leaves every other byte of internal RAM alone. -/
theorem dispatch_confined_increment :
    (clock {} increment).1 = some (.instruction 0xE6) ∧
      ∀ i < 0x800, i ≠ 0x10 →
        Ram.read (clock {} increment).2.2.ram i = Ram.read increment.ram i := by
  have hdispatch : (clock {} increment).1 = some (.instruction 0xE6) := by decide +kernel
  have hoperand : operand {} increment = .memory 0x10 := by decide +kernel
  obtain ⟨-, hconfined⟩ := dispatch_confined hdispatch
  refine ⟨hdispatch, fun i hi hother => ?_⟩
  by_contra hchanged
  obtain ⟨a, ⟨-, ha⟩ | ⟨n, hn, -⟩, -, hplace⟩ := hconfined.ram i hi hchanged
  · rw [hoperand] at ha
    obtain rfl := Operand.memory.inj ha
    exact hother hplace.symm
  · exact absurd hn (Nat.not_lt_zero n)

end Cpu
end Famicom
