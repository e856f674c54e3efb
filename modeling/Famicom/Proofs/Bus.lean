import Famicom.Bus
import Famicom.Proofs.Controller
import Famicom.Proofs.Ppu.Reach

/-! What goes on over the processor's bus, as reads and writes one after another. A read returns
what a peek shows. Of the picture unit an access reaches only the registers, and the page of a
sprite transfer is the last one written to its register. -/
namespace Famicom

/-! The picture unit. -/

namespace Ppu

/-- Changes from outside: registers are read and written, and sprite memory is filled. -/
inductive Accessed (p : Ppu) : Ppu → Prop
  | refl : Accessed p p
  | read {q : Ppu} (h : Accessed p q) (r : Fin 8) (data : UInt8) : Accessed p (q.read r data).2
  | write {q : Ppu} (h : Accessed p q) (r : Fin 8) (v : UInt8) : Accessed p (q.write r v)
  | writeOam {q : Ppu} (h : Accessed p q) (v : UInt8) : Accessed p (q.writeOam v)

namespace Accessed
variable {p q s : Ppu}

theorem trans (h : Accessed p q) (h' : Accessed q s) : Accessed p s := by
  induction h' with
  | refl => exact h
  | read _ r data ih => exact ih.read r data
  | write _ r v ih => exact ih.write r v
  | writeOam _ v ih => exact ih.writeOam v

theorem place (h : Accessed p q) :
    q.frame = p.frame ∧ q.scanline = p.scanline ∧ q.dot = p.dot := by
  induction h with
  | refl => exact ⟨rfl, rfl, rfl⟩
  | read _ r data ih =>
    rw [read_eq]
    exact ih
  | write _ r v ih =>
    rw [write_eq]
    exact ih
  | writeOam _ v ih => exact ih

theorem reachable (h : Accessed p q) (hp : p.Reachable) : q.Reachable := by
  induction h with
  | refl => exact hp
  | read _ r data ih => exact ih.read r data
  | write _ r v ih => exact ih.write r v
  | writeOam _ v ih => exact ih.writeOam v

end Accessed
end Ppu

namespace Bus

theorem clockPpu_eq (b : Bus) : ∃ picture data,
    b.clockPpu = { b with picture, ppu := b.ppu.clock data } := by
  unfold clockPpu
  cases b.ppu.fetch? with
  | none => exact ⟨_, _, rfl⟩
  | some a => exact ⟨_, _, rfl⟩

/-! One access. -/

theorem readPpu_fst (b : Bus) (r : Nat) : (b.readPpu r).1 = b.ppu.peek r := by
  unfold readPpu Ppu.readFetch?
  match r with
  | 7 =>
    simp only [if_true, Ppu.read, Ppu.readData, Ppu.peek]
  | 0 | 1 | 2 | 3 | 4 | 5 | 6 | _ + 8 => rfl

theorem read_fst (b : Bus) (a : UInt16) : (b.read a).1 = b.peek a := by
  simp only [read, readDevice, peek]
  split_ifs
  · rfl
  · exact b.readPpu_fst _
  · rfl
  · exact Controller.read_fst _
  · exact Controller.read_fst _
  · rfl
  · cases b.picture.cartridge <;> rfl

theorem readPpu_rest (b : Bus) (r : Nat) : (b.readPpu r).2 =
    { b with picture := (b.readPpu r).2.picture, ppu := (b.readPpu r).2.ppu } := by
  unfold readPpu
  cases b.ppu.readFetch? r <;> rfl

theorem oamPage_read (b : Bus) (a : UInt16) : (b.read a).2.oamPage = b.oamPage := by
  simp only [read, readDevice]
  split_ifs
  · rfl
  · rw [readPpu_rest]
  · rfl
  · rfl
  · rfl
  · rfl
  · cases b.picture.cartridge <;> rfl

theorem ppu_readPpu (b : Bus) (r : Fin 8) : Ppu.Accessed b.ppu (b.readPpu r).2.ppu := by
  unfold readPpu
  cases b.ppu.readFetch? r
  · exact Ppu.Accessed.refl.read r 0
  · exact Ppu.Accessed.refl.read r _

theorem ppu_read (b : Bus) (a : UInt16) : Ppu.Accessed b.ppu (b.read a).2.ppu := by
  simp only [read, readDevice]
  split_ifs
  · exact .refl
  · exact b.ppu_readPpu ⟨a.toNat % 8, Nat.mod_lt _ (by decide)⟩
  · exact .refl
  · exact .refl
  · exact .refl
  · exact .refl
  · cases b.picture.cartridge <;> exact .refl

/-! The cartridge, from `$4020` up. -/

theorem above_devices {a : UInt16} (ha : 0x4020 ≤ a) :
    ¬a < 0x2000 ∧ ¬a < 0x4000 ∧ ¬a < 0x4020 :=
  ⟨UInt16.not_lt.mpr (UInt16.le_trans (by decide) ha),
    UInt16.not_lt.mpr (UInt16.le_trans (by decide) ha), UInt16.not_lt.mpr ha⟩

theorem peek_cartridge (b : Bus) {a : UInt16} (ha : 0x4020 ≤ a) :
    b.peek a = (b.cartridge.bind (·.cpuRead a)).getD b.openBus := by
  obtain ⟨hram, hppu, hio⟩ := above_devices ha
  rw [peek, if_neg hram, if_neg hppu, if_neg hio, cartridge]
  cases b.picture.cartridge <;> rfl

theorem read_cartridge (b : Bus) {a : UInt16} (ha : 0x4020 ≤ a) :
    (b.read a).2 = { b with openBus := (b.read a).1 } := by
  obtain ⟨hram, hppu, hio⟩ := above_devices ha
  rw [read, readDevice, if_neg hram, if_neg hppu, if_neg hio]
  cases b.picture.cartridge <;> rfl

theorem writePpu_rest (b : Bus) (r : Nat) (v : UInt8) : b.writePpu r v =
    { b with picture := (b.writePpu r v).picture, ppu := b.ppu.write r v } := by
  unfold writePpu
  cases b.ppu.writeTarget? r <;> rfl

theorem oamPage_write (b : Bus) (a : UInt16) (v : UInt8) :
    (b.write a v).oamPage = if a = 0x4014 then some v else b.oamPage := by
  by_cases ha : a = 0x4014
  · subst ha
    rfl
  · simp only [write, ha, if_false]
    split_ifs
    · rfl
    · rw [writePpu_rest]
    all_goals rfl

theorem ppu_write (b : Bus) (a : UInt16) (v : UInt8) : Ppu.Accessed b.ppu (b.write a v).ppu := by
  simp only [write]
  split_ifs
  · exact .refl
  · rw [writePpu_rest]
    exact Ppu.Accessed.refl.write ⟨a.toNat % 8, Nat.mod_lt _ (by decide)⟩ v
  all_goals exact .refl

/-! Accesses one after another. -/

/-- Reads and these writes lead from one state to the other. -/
inductive Wrote (b : Bus) : List (UInt16 × UInt8) → Bus → Prop
  | refl : Wrote b [] b
  | read {ws : List (UInt16 × UInt8)} {b' : Bus} (h : Wrote b ws b') (a : UInt16) :
    Wrote b ws (b'.read a).2
  | write {ws : List (UInt16 × UInt8)} {b' : Bus} (h : Wrote b ws b') (a : UInt16) (v : UInt8) :
    Wrote b (ws ++ [(a, v)]) (b'.write a v)

namespace Wrote
variable {b b' b'' : Bus} {ws ws' : List (UInt16 × UInt8)}

theorem trans (h : Wrote b ws b') (h' : Wrote b' ws' b'') : Wrote b (ws ++ ws') b'' := by
  induction h' with
  | refl =>
    rw [List.append_nil]
    exact h
  | read _ a ih => exact ih.read a
  | write _ a v ih =>
    rw [← List.append_assoc]
    exact ih.write a v

theorem ppu (h : Wrote b ws b') : Ppu.Accessed b.ppu b'.ppu := by
  induction h with
  | refl => exact .refl
  | read _ a ih => exact ih.trans (ppu_read _ a)
  | write _ a v ih => exact ih.trans (ppu_write _ a v)

theorem oamPage (h : Wrote b ws b') : b'.oamPage =
    ws.foldl (fun page w => if w.1 = 0x4014 then some w.2 else page) b.oamPage := by
  induction h with
  | refl => rfl
  | read _ a ih => rw [oamPage_read, ih]
  | write _ a v ih => rw [oamPage_write, List.foldl_append, ih, List.foldl_cons, List.foldl_nil]

end Wrote

/-! Transfers. -/

theorem ppu_copyOam (b : Bus) (a : UInt16) (n : Nat) :
    Ppu.Accessed b.ppu (b.copyOam a n).ppu := by
  induction n generalizing b a with
  | zero => exact .refl
  | succ n ih =>
    rw [copyOam]
    exact ((b.ppu_read a).writeOam (b.read a).1).trans
      (ih { (b.read a).2 with ppu := (b.read a).2.ppu.writeOam (b.read a).1 } (a + 1))

end Bus
end Famicom
