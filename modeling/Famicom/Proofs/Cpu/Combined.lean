import Famicom.Cpu.Effect
import Famicom.Proofs.Bus.Reads

/-! The undocumented instructions that do the work of two. On a byte of internal RAM each leaves the
processor and the whole bus as its two documented parts would leave them, one after the other, even
if the second part finds the byte under another of its addresses. -/
namespace Famicom

/-! One byte of internal RAM. -/

/-- Both addresses select the same byte of internal RAM. -/
structure Mirrors (a a' : UInt16) : Prop where
  low : a < 0x2000
  low' : a' < 0x2000
  same : a.toNat % 0x800 = a'.toNat % 0x800

namespace Bus
variable {a a' : UInt16}

theorem read_ram (b : Bus) (ha : a < 0x2000) :
    b.read a = (Ram.read b.ram a.toNat, { b with openBus := Ram.read b.ram a.toNat }) := by
  rw [read, readDevice, if_pos ha]

/-- What was written is read back, and is on the bus already. -/
theorem read_written (h : Mirrors a a') (b : Bus) (v : UInt8) :
    (b.write a v).read a' = (v, b.write a v) := by
  have hwrite : b.write a v = { b with openBus := v, ram := Ram.write b.ram a.toNat v } := by
    rw [write, if_pos h.low]
  have hvalue : Ram.read (b.write a v).ram a'.toNat = v := by
    rw [hwrite, Ram.read_write, if_pos h.same]
  rw [read_ram _ h.low', hvalue, hwrite]

theorem read_again (h : Mirrors a a') (b : Bus) : (b.read a).2.read a' = b.read a := by
  have hvalue : Ram.read b.ram a'.toNat = Ram.read b.ram a.toNat := by
    simp only [Ram.read, h.same]
  rw [read_ram b h.low, read_ram _ h.low', hvalue]

end Bus

namespace Cpu

/-- Two instructions one after the other, each on its operand. -/
def inTurn (m m' : Mnemonic) (o o' : Operand) (r : Registers) (b : Bus) : Registers × Bus :=
  let (_, r, b) := m.effect.run o r b
  (m'.effect.run o' r b).2

/-! What the second part does not see of the first. -/

namespace Registers
variable (r : Registers) (v w : UInt8)

theorem compare_test (m : UInt8) : (r.test w).compare v m = r.compare v m := rfl

theorem sbc_test : (r.test w).sbc v = r.sbc v := rfl

end Registers

section Pairs
variable {a a' : UInt16} {m m' m'' : Mnemonic} {f : Registers → UInt8 → UInt8 × Registers}
  {g : Registers → UInt8 → Registers}

/-- An update that goes on into a read, told by an update and a read: the two updates may differ in
what the read sets anyway. -/
theorem run_andThen (h : Mirrors a a') {f' : Registers → UInt8 → UInt8 × Registers}
    (hm : m.effect = .andThen f' g) (hm' : m'.effect = .update f) (hm'' : m''.effect = .read g)
    (hvalue : ∀ r v, (f' r v).1 = (f r v).1)
    (hread : ∀ r v, g (f' r v).2 (f r v).1 = g (f r v).2 (f r v).1) (r : Registers) (b : Bus) :
    (m.effect.run (.memory a) r b).2 = inTurn m' m'' (.memory a) (.memory a') r b := by
  rw [hm, inTurn, hm', hm'']
  simp only [Effect.andThen, Effect.run, load, store, Bus.read_written h, hvalue, hread]

end Pairs

/-- Each combination does what its two parts do. -/
theorem combined_eq_pairs {a a' : UInt16} (h : Mirrors a a') (r : Registers) (b : Bus) :
    let run (m : Mnemonic) (r : Registers) := (m.effect.run (.memory a) r b).2
    let pair (m m' : Mnemonic) := inTurn m m' (.memory a) (.memory a') r b
    run .slo r = pair .asl .ora ∧ run .rla r = pair .rol .and ∧ run .sre r = pair .lsr .eor ∧
    run .rra r = pair .ror .adc ∧ run .dcp r = pair .dec .cmp ∧ run .isc r = pair .inc .sbc ∧
    run .lax r = pair .lda .ldx ∧
    run .alr r = inTurn .and .lsr (.memory a) .accumulator r b ∧
    (let compared := run .cmp { r with a := r.a &&& r.x }
     run .sbx r = ({ r with p := compared.1.p, x := (r.a &&& r.x) - (b.read a).1 }, compared.2)) ∧
    run .sax r = (r, b.write a (r.a &&& r.x)) := by
  intro run pair
  refine ⟨?_, ?_, ?_, ?_, ?_, ?_, ?_, ?_, ?_, ?_⟩
  · exact run_andThen h rfl rfl rfl (fun _ _ => rfl) (fun _ _ => rfl) r b
  · exact run_andThen h rfl rfl rfl (fun _ _ => rfl) (fun _ _ => rfl) r b
  · exact run_andThen h rfl rfl rfl (fun _ _ => rfl) (fun _ _ => rfl) r b
  · exact run_andThen h rfl rfl rfl (fun _ _ => rfl) (fun _ _ => rfl) r b
  · exact run_andThen h rfl rfl rfl (fun _ _ => rfl) (fun r v => (r.compare_test r.a _ _).symm) r b
  · exact run_andThen h rfl rfl rfl (fun _ _ => rfl) (fun r v => (r.sbc_test _ _).symm) r b
  · simp only [run, pair, inTurn, Mnemonic.effect, Effect.run, load, Bus.read_again h]
    rfl
  · rfl
  · rfl
  · rfl

/-- A byte that a shift pushes a bit out of. -/
def shifting : Bus := { ram := (Ram.zeros _).write 0x10 0x81 }

/-- What is shifted at one address of a byte is found at another, its bit pushed out. -/
theorem combined_eq_pairs_shifting :
    Mirrors 0x0010 0x1810 ∧
      (inTurn .asl .ora (.memory 0x0010) (.memory 0x1810) { a := 4 } shifting).1 =
        { a := 6, p := { carry := true } } := by
  have hmirrors : Mirrors 0x0010 0x1810 := ⟨by decide, by decide, by decide⟩
  obtain ⟨hslo, -⟩ := combined_eq_pairs hmirrors { a := 4 } shifting
  refine ⟨hmirrors, (congrArg Prod.fst hslo).symm.trans ?_⟩
  decide +kernel

end Cpu
end Famicom
