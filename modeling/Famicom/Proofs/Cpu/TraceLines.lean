import Famicom.Cpu.Trace
import Famicom.Proofs.Cpu.Costs
import Famicom.Proofs.Cpu.Fetch
import Famicom.Proofs.Text

/-! The lines of an instruction log. A line is taken by peeking, before the instruction is carried
out; it shows the bytes that are then fetched, and the address that they are then found to mean. -/
namespace Famicom.Cpu
open Bus

namespace Mnemonic

/-- Jumps and branches are shown with where they lead, others with the value they find there too. -/
def leads (m : Mnemonic) : Bool := m == jmp || m == jsr || m.condition?.isSome

end Mnemonic

namespace Mode

/-- The modes that lead to an address outside the instruction. -/
def addressed : Mode → Bool
  | imp | acc | imm => false
  | _ => true

end Mode

def Opcode.leading (o : Opcode) : Bool :=
  match o.mode with
  | .ind | .rel => true
  | .abs => o.mnemonic == .jmp || o.mnemonic == .jsr
  | _ => false

theorem Opcode.leads_decode (byte : UInt8) :
    (decode byte).mnemonic.leads = (decode byte).leading := by
  apply decode_all (P := fun o => o.mnemonic.leads = o.leading)
  decide +kernel

namespace Trace

/-- The address that a line leads to: the last in the operand, before the value that is there. -/
def address? (t : Trace) : Option UInt16 :=
  let text := t.operand.toList
  let text := if t.mnemonic.leads then text else text.rdrop 5
  (Text.number? 16 (Text.numeral text)).map (·.toUInt16)

/-- The text ends with an address, or goes on from there with a value. -/
def Shows (text : String) (a : UInt16) (valued : Bool) : Prop :=
  ∃ (front tail : List Char) (c : Char) (w : Nat),
    text.toList = front ++ c :: Text.digits 16 w a.toNat ++ tail ∧
      tail.length = (if valued then 5 else 0) ∧ Text.value? c = none ∧ a.toNat < 16 ^ w

namespace Shows

variable {front : String} {c : Char}

theorem getLast?_append (s : String) {t : String} (h : t.toList.getLast? = some c) :
    (s ++ t).toList.getLast? = some c := by
  simp [h]

theorem digits {w : Nat} {a : UInt16} (hfront : front.toList.getLast? = some c)
    (hc : Text.value? c = none) (ha : a.toNat < 16 ^ w) :
    Shows (front ++ Text.hex w a.toNat) a false := by
  obtain ⟨start, hstart⟩ := List.getLast?_eq_some_iff.mp hfront
  exact ⟨start, [], c, w, by simp [Text.hex, hstart], rfl, hc, ha⟩

theorem word (hfront : front.toList.getLast? = some c) (hc : Text.value? c = none)
    (a : UInt16) : Shows (front ++ wordText a) a false :=
  digits hfront hc a.toNat_lt

theorem byte (hfront : front.toList.getLast? = some c) (hc : Text.value? c = none) (v : UInt8) :
    Shows (front ++ byteText v) v.toUInt16 false := by
  have hv : v.toUInt16.toNat < 16 ^ 2 := by simpa using v.toNat_lt
  simpa [byteText] using digits hfront hc hv

theorem value {text : String} {a : UInt16} (h : Shows text a false) (v : UInt8) :
    Shows (text ++ (" = " ++ byteText v)) a true := by
  obtain ⟨start, tail, d, w, htext, htail, hd, ha⟩ := h
  obtain rfl := List.length_eq_zero_iff.mp htail
  refine ⟨start, " = ".toList ++ (byteText v).toList, d, w, ?_, ?_, hd, ha⟩
  · simp [htext]
  · simp [byteText, Text.hex]

theorem address? {t : Trace} {a : UInt16} (h : Shows t.operand a (!t.mnemonic.leads)) :
    t.address? = some a := by
  obtain ⟨start, tail, d, w, htext, htail, hd, ha⟩ := h
  have hshown : (if t.mnemonic.leads then t.operand.toList else t.operand.toList.rdrop 5) =
      start ++ d :: Text.digits 16 w a.toNat := by
    rw [htext]
    cases hleads : t.mnemonic.leads with
    | true =>
      rw [hleads] at htail
      rw [List.length_eq_zero_iff.mp htail, List.append_nil, if_pos rfl]
    | false =>
      rw [hleads] at htail
      have hfive : tail.length = 5 := htail
      rw [if_neg Bool.false_ne_true, ← hfive, List.rdrop_append_length]
  rw [Trace.address?, hshown, Text.numeral_append (by decide) (by decide) start hd,
    Text.number?_digits (by decide) ha, Option.map_some]
  simp

end Shows

def target (mode : Mode) (r : Registers) (b : Bus) (lo hi : UInt8) : UInt16 :=
  let word := Byte.word lo hi
  match mode with
  | .imp | .acc | .imm => r.pc + 1
  | .zp => lo.toUInt16
  | .zpx => (lo + r.x).toUInt16
  | .zpy => (lo + r.y).toUInt16
  | .abs => word
  | .abx => word + r.x.toUInt16
  | .aby => word + r.y.toUInt16
  | .ind => Byte.word (b.peek word) (b.peek (wrappedNext word))
  | .izx => peekZeroPage b (lo + r.x)
  | .izy => peekZeroPage b lo + r.y.toUInt16
  | .rel => branchTarget r.pc lo

theorem shows_operandText (o : Opcode) (h : o.mode.addressed = true) (r : Registers) (b : Bus)
    (lo hi : UInt8) :
    Shows (operandText o.mode o.mnemonic r b lo hi) (target o.mode r b lo hi) (!o.leading) := by
  obtain ⟨m, mode, _, _⟩ := o
  cases mode with
  | imp | acc | imm => cases h
  | zp => exact (Shows.byte rfl rfl _).value _
  | zpx | zpy => exact (Shows.byte (Shows.getLast?_append _ rfl) rfl _).value _
  | abs =>
    have hword : Shows ("$" ++ wordText (Byte.word lo hi)) (Byte.word lo hi) false :=
      Shows.word rfl rfl _
    cases m
    case jmp | jsr => exact hword
    all_goals exact hword.value _
  | abx | aby | izx | izy => exact (Shows.word (Shows.getLast?_append _ rfl) rfl _).value _
  | ind => exact Shows.word (Shows.getLast?_append _ rfl) rfl _
  | rel => exact Shows.word rfl rfl _

end Trace

/-! What the execution finds. -/

seal Bus.read Bus.write Bus.peek

section Found
variable {b : Bus}

theorem read_twice {a a' : UInt16} (h : b.Driven a) (h' : b.Driven a') (v : UInt8) :
    ({ b with openBus := v }.read a).1 = b.peek a ∧
      (({ b with openBus := v }.read a).2.read a').1 = b.peek a' := by
  have hpeek := peek_driven h v
  have hfirst : { b with openBus := v }.Driven a := h
  rw [read_driven hfirst, hpeek]
  refine ⟨rfl, ?_⟩
  rw [read_fst]
  exact peek_driven h' (b.peek a)

theorem driven_zeroPage (v : UInt8) : b.Driven v.toUInt16 := by
  left
  have := v.toNat_lt
  rw [UInt16.lt_iff_toNat_lt, UInt8.toNat_toUInt16]
  change _ < 0x2000
  omega

theorem readZeroPage_eq (v w : UInt8) :
    (readZeroPage { b with openBus := w } v).1 = Trace.peekZeroPage b v := by
  obtain ⟨hlo, hhi⟩ := read_twice (driven_zeroPage (b := b) v) (driven_zeroPage (v + 1)) w
  simp only [readZeroPage, Trace.peekZeroPage, hlo, hhi]

theorem readWrapped_eq {a : UInt16} (h : b.Driven a) (h' : b.Driven (wrappedNext a)) (w : UInt8) :
    (readWrapped { b with openBus := w } a).1 =
      Byte.word (b.peek a) (b.peek (wrappedNext a)) := by
  obtain ⟨hlo, hhi⟩ := read_twice h h' w
  simp only [readWrapped, hlo, hhi]

theorem aim_target {mode : Mode} (h : mode.addressed = true) (r : Registers) {lo hi : UInt8}
    (hpointer : mode = .ind →
      b.Driven (Byte.word lo hi) ∧ b.Driven (wrappedNext (Byte.word lo hi))) (v : UInt8) :
    (aim mode r lo hi { b with openBus := v }).1.operand =
      .memory (Trace.target mode r b lo hi) := by
  cases mode with
  | imp | acc | imm => cases h
  | zp | zpx | zpy | abs | abx | aby | rel => rfl
  | ind =>
    obtain ⟨hlo, hhi⟩ := hpointer rfl
    simp only [aim, Located.memory, readWrapped_eq hlo hhi, Trace.target]
  | izx => simp only [aim, Located.memory, readZeroPage_eq, Trace.target]
  | izy => simp only [aim, Located.indexed, readZeroPage_eq, Trace.target]

theorem aim_congr {mode : Mode} (r : Registers) {lo lo' hi hi' : UInt8}
    (hlo : 1 < mode.length → lo = lo') (hhi : 2 < mode.length → hi = hi') :
    aim mode r lo hi b = aim mode r lo' hi' b := by
  cases mode <;> simp_all [Mode.length, aim]

end Found

/-- Nothing notices that the instruction is read, nor the pointer that an indirect jump goes
through. -/
structure Legible (r : Registers) (b : Bus) : Prop where
  bytes : ∀ i < (Opcode.decode (b.peek r.pc)).length, b.Driven (r.pc + i.toUInt16)
  pointer : (Opcode.decode (b.peek r.pc)).mode = .ind →
    b.Driven (Byte.word (b.peek (r.pc + 1)) (b.peek (r.pc + 2))) ∧
    b.Driven (wrappedNext (Byte.word (b.peek (r.pc + 1)) (b.peek (r.pc + 2))))

namespace Legible
variable {r : Registers} {b : Bus}

theorem fetched (h : Legible r b) (cycles : Nat) : (Trace.capture r b cycles).bytes =
    (b.fetch r.pc (Opcode.decode (b.peek r.pc)).length).1 := by
  simpa [Trace.capture] using (fetch_driven h.bytes).1.symm

theorem byte (h : Legible r b) {i : Nat} (hi : i < (Opcode.decode (b.peek r.pc)).mode.length) :
    (b.fetch r.pc (Opcode.decode (b.peek r.pc)).mode.length).1.getD i 0 =
      b.peek (r.pc + i.toUInt16) := by
  have hbytes := (fetch_driven h.bytes).1
  rw [Opcode.length] at hbytes
  simp [hbytes, hi]

/-- The operand is found where peeks show it to be. -/
theorem located (h : Legible r b)
    (haddressed : (Opcode.decode (b.peek r.pc)).mode.addressed = true) :
    (locate (Opcode.decode (b.peek r.pc)).mode r (b.read r.pc).2).1.operand =
      .memory (Trace.target (Opcode.decode (b.peek r.pc)).mode r b (b.peek (r.pc + 1))
        (b.peek (r.pc + 2))) := by
  have hwhole : (Opcode.decode (b.peek r.pc)).mode.fetched =
      (Opcode.decode (b.peek r.pc)).mode.length := by
    cases hmode : (Opcode.decode (b.peek r.pc)).mode with
    | imm => simp [hmode, Mode.addressed] at haddressed
    | _ => rfl
  obtain ⟨v, hbus⟩ := (fetch_driven h.bytes).2
  rw [Opcode.length] at hbus
  rw [locate_eq, hwhole, hbus, aim_congr r h.byte h.byte]
  exact aim_target haddressed r h.pointer v

end Legible

/-- A line describes the instruction that is then carried out: it has the bytes that are fetched,
and what they are decoded to, and the address that it shows is the one where the operand is found. -/
theorem trace_describes {c : Cpu} {b : Bus} (h : Legible c.registers b) (cycles : Nat) :
    let t := Trace.capture c.registers b cycles
    let o := Opcode.decode (b.read c.registers.pc).1
    t.bytes = (b.fetch c.registers.pc o.length).1 ∧ t.bytes.length = o.length ∧
    t.mnemonic = o.mnemonic ∧ t.documented = o.documented ∧
    c.execute b = c.carryOut t.bytes (b.fetch c.registers.pc o.mode.fetched).2 ∧
    (o.mode = .imm →
      (load c.registers (b.read c.registers.pc).2 (.memory (c.registers.pc + 1))).1 =
        t.bytes.getD 1 0) ∧
    (o.mode.addressed = true → ∃ a,
      (locate o.mode c.registers (b.read c.registers.pc).2).1.operand = .memory a ∧
        t.address? = some a) := by
  have hexecute : c.execute b = _ := c.execute_eq b
  rw [← h.fetched cycles] at hexecute
  rw [read_fst]
  refine ⟨h.fetched cycles, ?_, ?_, ?_, hexecute, ?_, ?_⟩
  · rw [h.fetched cycles, length_fetch]
  · simp [Trace.capture]
  · simp [Trace.capture]
  · intro himm
    rw [h.fetched cycles, Opcode.length, himm]
    rfl
  · intro haddressed
    refine ⟨_, h.located haddressed, ?_⟩
    have hshows := Trace.shows_operandText _ haddressed c.registers b
      (b.peek (c.registers.pc + 1)) (b.peek (c.registers.pc + 2))
    rw [← Opcode.leads_decode] at hshows
    apply Trace.Shows.address?
    simpa [Trace.capture] using hshows

/-- An indirect jump through a pointer at the end of a page. -/
def wrappedJump : Bus :=
  { ram := ((((Ram.zeros _).write 0 0x6C).write 1 0xFF).write 2 0x02).write 0x200 0xA9 }

theorem legible_wrappedJump : Legible {} wrappedJump := by
  have hopcode : wrappedJump.peek 0 = 0x6C := by decide +kernel
  have hpointer : Byte.word (wrappedJump.peek (0 + 1)) (wrappedJump.peek (0 + 2)) = 0x02FF := by
    decide +kernel
  constructor
  · rw [hopcode]
    intro i hi
    have hi' : i < 3 := hi
    interval_cases i <;> exact .inl (by decide)
  · intro _
    rw [hpointer]
    exact ⟨.inl (by decide), .inl (by decide)⟩

/-- The line shows the target that wraps to the start of the page. -/
theorem trace_describes_wrappedJump :
    Legible {} wrappedJump ∧
    (Trace.capture {} wrappedJump 7).bytes = (wrappedJump.fetch 0 3).1 ∧
    (Trace.capture {} wrappedJump 7).mnemonic = .jmp ∧
    (Trace.capture {} wrappedJump 7).address? = some 0xA900 := by
  have hopcode : (wrappedJump.read 0).1 = 0x6C := by decide +kernel
  have htarget : (locate .ind {} (wrappedJump.read 0).2).1.operand = .memory 0xA900 := by
    decide +kernel
  have h := trace_describes (c := {}) legible_wrappedJump 7
  dsimp only at h
  rw [hopcode] at h
  obtain ⟨hbytes, -, hmnemonic, -, -, -, haddress⟩ := h
  obtain ⟨a, hlocated, hshown⟩ := haddress rfl
  obtain rfl := Operand.memory.inj (hlocated.symm.trans htarget)
  exact ⟨legible_wrappedJump, hbytes, hmnemonic, hshown⟩

end Famicom.Cpu
