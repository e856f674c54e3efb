import Famicom.Cpu
import Famicom.Proofs.Bus

/-! What the processor writes. An instruction only reads while it finds its operand, and then writes
what its effect says, at most one byte outside the stack. -/
namespace Famicom.Cpu
open Bus

abbrev Writes := List (UInt16 × UInt8)

/-! What each effect writes. -/

def stored (v : UInt8) : Operand → Writes
  | .memory a => [(a, v)]
  | .accumulator | .none => []

namespace Registers

def pushedWord (r : Registers) (v : UInt16) : Writes :=
  [(r.stackAddress, Byte.high v), ({ r with sp := r.sp - 1 }.stackAddress, Byte.low v)]

def saved (r : Registers) (back : UInt16) (software : Bool) : Writes :=
  r.pushedWord back ++ [({ r with sp := r.sp - 1 - 1 }.stackAddress, r.p.pushed software)]

end Registers

def Effect.writes (e : Effect) (o : Operand) (r : Registers) (b : Bus) : Writes :=
  match e with
  | .write f => stored (f r) o
  | .update f => stored (f r (load r b o).1).1 o
  | .push f => [(r.stackAddress, f r)]
  | .call =>
    match o with
    | .memory _ => r.pushedWord (r.pc - 1)
    | _ => []
  | .brk => r.saved (r.pc + 1) true
  | .read _ | .inside _ | .pull _ | .branch _ | .jump | .ret | .retInterrupt => []

def writes (c : Cpu) (b : Bus) : Writes :=
  let (byte, b) := b.read c.registers.pc
  let o := Opcode.decode byte
  let (located, b) := locate o.mode c.registers b
  let r := { c.registers with pc := c.registers.pc + o.length.toUInt16 }
  o.mnemonic.effect.writes located.operand r b

/-! These are the writes, in this order. -/

-- What is behind an address makes no difference from here on.
seal Bus.read Bus.write

theorem readWord_wrote (b : Bus) (a : UInt16) : Wrote b [] (b.readWord a).2 :=
  (Wrote.refl.read a).read (a + 1)

theorem locate_wrote (mode : Mode) (r : Registers) (b : Bus) :
    Wrote b [] (locate mode r b).2 := by
  cases mode with
  | imp | acc | imm => exact .refl
  | zp | zpx | zpy | rel => exact Wrote.refl.read _
  | abs | abx | aby => exact readWord_wrote b _
  | ind => exact ((readWord_wrote b _).read _).read _
  | izx | izy => exact ((Wrote.refl.read _).read _).read _

theorem load_wrote (r : Registers) (b : Bus) (o : Operand) : Wrote b [] (load r b o).2 := by
  cases o with
  | memory a => exact Wrote.refl.read a
  | accumulator | none => exact .refl

theorem store_wrote (r : Registers) (b : Bus) (v : UInt8) (o : Operand) :
    Wrote b (stored v o) (store r b v o).2 := by
  cases o with
  | memory a => exact Wrote.refl.write a v
  | accumulator | none => exact .refl

theorem pull_wrote (r : Registers) (b : Bus) : Wrote b [] (r.pull b).2.2 := Wrote.refl.read _

theorem pullWord_wrote (r : Registers) (b : Bus) : Wrote b [] (r.pullWord b).2.2 :=
  (Wrote.refl.read _).read _

theorem pushWord_wrote (r : Registers) (b : Bus) (v : UInt16) :
    Wrote b (r.pushedWord v) (r.pushWord b v).2 :=
  (Wrote.refl.write _ _).write _ _

theorem interrupt_wrote (r : Registers) (b : Bus) (back vector : UInt16) (software : Bool) :
    Wrote b (r.saved back software) (r.interrupt b back vector software).2 :=
  ((pushWord_wrote r b back).write _ _).trans (readWord_wrote _ vector)

theorem Effect.run_wrote (e : Effect) (o : Operand) (r : Registers) (b : Bus) :
    Wrote b (e.writes o r b) (e.run o r b).2.2 := by
  cases e with
  | read f => exact load_wrote r b o
  | write f => exact store_wrote r b (f r) o
  | update f => exact (load_wrote r b o).trans (store_wrote _ _ _ o)
  | inside f => exact .refl
  | push f => exact Wrote.refl.write _ _
  | pull f => exact pull_wrote r b
  | branch taken =>
    cases o with
    | memory a =>
      simp only [Effect.run]
      split_ifs <;> exact .refl
    | accumulator | none => exact .refl
  | jump => cases o <;> exact .refl
  | call =>
    cases o with
    | memory a => exact pushWord_wrote r b _
    | accumulator | none => exact .refl
  | ret => exact pullWord_wrote r b
  | retInterrupt => exact (pull_wrote r b).trans (pullWord_wrote _ _)
  | brk =>
    rw [Effect.run, Effect.writes]
    exact interrupt_wrote r b (r.pc + 1) irqVector true

theorem execute_wrote (c : Cpu) (b : Bus) : Wrote b (c.writes b) (c.execute b).2 := by
  unfold writes execute
  dsimp only
  have hfetch : Wrote b [] (b.read c.registers.pc).2 := Wrote.refl.read _
  generalize b.read c.registers.pc = fetched at hfetch ⊢
  have hlocate := locate_wrote (Opcode.decode fetched.1).mode c.registers fetched.2
  generalize locate (Opcode.decode fetched.1).mode c.registers fetched.2 = located at hlocate ⊢
  exact hfetch.trans (hlocate.trans (Effect.run_wrote _ _ _ _))

/-! The page of a sprite transfer is not asked for by way of the stack. -/

theorem stackAddress_ne (r : Registers) : r.stackAddress ≠ 0x4014 := by
  intro h
  have hpage : Byte.high r.stackAddress = 0x40 := by rw [h]; rfl
  rw [Registers.stackAddress, Byte.high_word] at hpage
  exact absurd hpage (by decide)

theorem Effect.writes_cases (e : Effect) (o : Operand) (r : Registers) (b : Bus) :
    (∃ w, e.writes o r b = [w]) ∨ ∀ w ∈ e.writes o r b, w.1 ≠ 0x4014 := by
  cases e with
  | write f | update f =>
    cases o with
    | memory a => exact .inl ⟨_, rfl⟩
    | accumulator | none => exact .inr (fun _ hw => absurd hw List.not_mem_nil)
  | push f => exact .inl ⟨_, rfl⟩
  | call =>
    cases o with
    | memory a =>
      refine .inr ?_
      simp [Effect.writes, Registers.pushedWord, stackAddress_ne]
    | accumulator | none => exact .inr (fun _ hw => absurd hw List.not_mem_nil)
  | brk =>
    refine .inr ?_
    simp [Effect.writes, Registers.saved, Registers.pushedWord, stackAddress_ne]
  | read f | inside f | pull f | branch taken | jump | ret | retInterrupt =>
    exact .inr (fun _ hw => absurd hw List.not_mem_nil)

theorem writes_cases (c : Cpu) (b : Bus) :
    (∃ w, c.writes b = [w]) ∨ ∀ w ∈ c.writes b, w.1 ≠ 0x4014 :=
  Effect.writes_cases _ _ _ _

/-- A page that an instruction asks for is the one that is then waited for. -/
theorem execute_page {c : Cpu} {b : Bus} {page : UInt8} (h : (0x4014, page) ∈ c.writes b) :
    (c.execute b).2.oamPage = some page := by
  rw [(c.execute_wrote b).oamPage]
  obtain ⟨w, hw⟩ | hnone := c.writes_cases b
  · rw [hw, List.mem_singleton] at h
    rw [hw, ← h]
    rfl
  · exact absurd rfl (hnone _ h)

end Famicom.Cpu
