import Famicom.Cpu.Trace
import Famicom.Proofs.Text

/-! The columns of an instruction log. A text is padded to the width of its column and never cut, so
that the columns after it keep their places only if every text fits. The widest operand has 26
characters, and an instruction with it 30 of the 32 that there are. -/
namespace Famicom.Cpu

theorem Opcode.length_le (o : Opcode) : o.length ≤ 3 := by
  rw [Opcode.length]
  cases o.mode <;> decide

namespace Trace

/-- The text is no wider than its column. It has no colon either, which would pass for the end of a
column's name. -/
structure Fits (w : Nat) (s : String) : Prop where
  length_le : s.length ≤ w
  colon : ':' ∉ s.toList

namespace Fits
variable {s t : String} {v w : Nat}

theorem mono (h : Fits v s) (hle : v ≤ w) : Fits w s := ⟨h.length_le.trans hle, h.colon⟩

theorem append (hs : Fits v s) (ht : Fits w t) : Fits (v + w) (s ++ t) := by
  constructor
  · rw [String.length_append]
    exact Nat.add_le_add hs.length_le ht.length_le
  · simp [hs.colon, ht.colon]

theorem colon_alignLeft (h : Fits w s) : ':' ∉ (Text.alignLeft w s).toList := by
  simp [Text.alignLeft, List.rightpad, h.colon]

theorem length_alignLeft (h : Fits w s) : (Text.alignLeft w s).length = w := by
  rw [Text.length_alignLeft, Nat.max_eq_left h.length_le]

end Fits

/-! The texts. -/

@[simp] theorem length_byteText (v : UInt8) : (byteText v).length = 2 := Text.length_hex ..

@[simp] theorem length_wordText (a : UInt16) : (wordText a).length = 4 := Text.length_hex ..

@[simp] theorem colon_byteText (v : UInt8) : ':' ∉ (byteText v).toList := by
  rw [byteText, Text.hex, String.toList_ofList]
  exact Text.not_mem_digits (by decide) (by decide) rfl

@[simp] theorem colon_wordText (a : UInt16) : ':' ∉ (wordText a).toList := by
  rw [wordText, Text.hex, String.toList_ofList]
  exact Text.not_mem_digits (by decide) (by decide) rfl

theorem fits_name (m : Mnemonic) : Fits 3 m.name := by
  cases m <;> exact ⟨by simp [Mnemonic.name, ← String.length_toList], by simp [Mnemonic.name]⟩

theorem fits_operandText (mode : Mode) (m : Mnemonic) (r : Registers) (b : Bus) (lo hi : UInt8) :
    Fits 26 (operandText mode m r b lo hi) := by
  unfold operandText
  cases mode with
  | abs =>
    have hword : Fits 5 ("$" ++ wordText (Byte.word lo hi)) :=
      ⟨by simp only [String.length_append, length_wordText]; decide, by simp⟩
    have hvalue : Fits 5 (" = " ++ byteText (b.peek (Byte.word lo hi))) :=
      ⟨by simp only [String.length_append, length_byteText]; decide, by simp⟩
    dsimp only
    -- Jumps are shown without the value that is there.
    split
    · exact hword.mono (by decide)
    · exact hword.mono (by decide)
    · exact (hword.append hvalue).mono (by decide)
  | _ =>
    constructor
    · simp only [String.length_append, length_byteText, length_wordText]
      decide
    · simp

theorem fits_bytes (bytes : List UInt8) :
    Fits (3 * bytes.length - 1) (String.intercalate " " (bytes.map byteText)) := by
  induction bytes with
  | nil => exact ⟨by decide, by decide⟩
  | cons v rest ih =>
    cases rest with
    | nil => exact ⟨by simp, by simp⟩
    | cons w rest =>
      have hbyte : Fits 2 (byteText v) := ⟨(length_byteText v).le, colon_byteText v⟩
      have hspace : Fits 1 " " := ⟨by decide, by decide⟩
      rw [List.map_cons, List.map_cons, String.intercalate_cons_cons]
      apply ((hbyte.append hspace).append ih).mono
      simp only [List.length_cons]
      omega

theorem fits_disassembly {t : Trace} (h : Fits 26 t.operand) : Fits 30 t.disassembly := by
  have hspace : Fits 1 " " := ⟨by decide, by decide⟩
  unfold disassembly
  split
  · exact (fits_name t.mnemonic).mono (by decide)
  · exact ((fits_name t.mnemonic).append hspace).append h

/-! The line. -/

def front (t : Trace) : String :=
  wordText t.registers.pc ++ "  "
    ++ Text.alignLeft 8 (String.intercalate " " (t.bytes.map byteText))
    ++ " " ++ (if t.documented then " " else "*") ++ Text.alignLeft 32 t.disassembly

def back (t : Trace) : String :=
  " PPU:" ++ Text.alignRight 3 (toString t.scanline)
    ++ "," ++ Text.alignRight 3 (toString t.dot) ++ " CYC:" ++ toString t.cycles

theorem text_eq (t : Trace) : t.text = t.front ++ registersText t.registers ++ t.back := by
  unfold text front back
  simp only [String.append_assoc]

theorem length_registersText (r : Registers) : (registersText r).length = 25 := by
  unfold registersText
  simp only [String.length_append, length_byteText]
  decide

section Line
variable {t : Trace}

theorem front_aligned (hbytes : t.bytes.length ≤ 3) (hoperand : Fits 26 t.operand) :
    t.front.length = 48 ∧ ':' ∉ t.front.toList := by
  have hcode : Fits 8 (String.intercalate " " (t.bytes.map byteText)) :=
    (fits_bytes t.bytes).mono (by omega)
  have hmarker : (if t.documented then " " else "*").length = 1 ∧
      ':' ∉ (if t.documented then " " else "*").toList := by
    split <;> exact ⟨by decide, by decide⟩
  have hdisassembly : Fits 32 t.disassembly := (fits_disassembly hoperand).mono (by decide)
  constructor
  · simp only [front, String.length_append, length_wordText, hcode.length_alignLeft, hmarker.1,
      hdisassembly.length_alignLeft]
    decide
  · simp [front, hcode.colon_alignLeft, hmarker.2, hdisassembly.colon_alignLeft]

/-- A place in the frame takes three digits at the most. -/
theorem length_placeText {n : Nat} (h : n < 1000) :
    (Text.alignRight 3 (toString n)).length = 3 := by
  have hle : (toString n).length ≤ 3 := by
    rw [Nat.toString_eq_repr, Nat.length_repr_le_iff (by decide)]
    exact h
  rw [Text.length_alignRight, Nat.max_eq_left hle]

theorem length_back (hline : t.scanline < 1000) (hdot : t.dot < 1000) :
    t.back.length = 17 + (Nat.log 10 t.cycles + 1) := by
  simp only [back, String.length_append, length_placeText hline, length_placeText hdot,
    Text.length_toString]
  rfl

end Line

/-- The columns of a line never shift. Whatever the instruction and the machine, 48 characters stand
before the registers, whose first name has the first colon of the line, and the line has 90
characters beside the digits of the cycle count. -/
theorem columns_aligned (r : Registers) {b : Bus} (hline : b.ppu.scanline ≤ 261)
    (hdot : b.ppu.dot ≤ 340) (cycles : Nat) :
    let text := (capture r b cycles).text
    (∃ front back : String, text = front ++ registersText r ++ back ∧
      front.length = 48 ∧ ':' ∉ front.toList) ∧
    text.length = 90 + (Nat.log 10 cycles + 1) := by
  intro text
  set t := capture r b cycles
  have hbytes : t.bytes.length ≤ 3 := by
    simpa [t, capture] using Opcode.length_le _
  have hoperand : Fits 26 t.operand := fits_operandText ..
  have htext : text = t.front ++ registersText r ++ t.back := t.text_eq
  obtain ⟨hfront, hcolon⟩ := front_aligned hbytes hoperand
  have hback : t.back.length = 17 + (Nat.log 10 cycles + 1) :=
    length_back (Nat.lt_of_le_of_lt hline (by decide)) (Nat.lt_of_le_of_lt hdot (by decide))
  refine ⟨⟨t.front, t.back, htext, hfront, hcolon⟩, ?_⟩
  rw [htext, String.length_append, String.length_append, hfront, length_registersText, hback]
  omega

/-- An undocumented instruction through a pointer, at the last dot of a frame. -/
def widest : Bus :=
  { ram := (Ram.zeros _).write 0 0xF3, ppu := { scanline := 261, dot := 340 } }

/-- The widest operand, late places and a count of twenty digits leave the columns as they are. -/
theorem columns_aligned_widest :
    let t := capture {} widest (2 ^ 64 - 1)
    widest.ppu.scanline ≤ 261 ∧ widest.ppu.dot ≤ 340 ∧
      t.operand = "($00),Y = 00F3 @ 00F3 = 00" ∧
      (∃ front back : String, t.text = front ++ registersText {} ++ back ∧
        front.length = 48 ∧ ':' ∉ front.toList) ∧
      t.text.length = 110 := by
  intro t
  have hline : widest.ppu.scanline ≤ 261 := by decide
  have hdot : widest.ppu.dot ≤ 340 := by decide
  have hoperand : t.operand = "($00),Y = 00F3 @ 00F3 = 00" := by decide +kernel
  have hdigits : Nat.log 10 (2 ^ 64 - 1) = 19 := by decide
  obtain ⟨hregisters, hlength⟩ := columns_aligned {} hline hdot (2 ^ 64 - 1)
  rw [hdigits] at hlength
  exact ⟨hline, hdot, hoperand, hregisters, hlength⟩

end Trace
end Famicom.Cpu
