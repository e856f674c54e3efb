import Famicom.Cpu
import Famicom.Proofs.Bus
import Famicom.Proofs.Bytes

/-! The stack. It lies in one page of 256 bytes, in which the pointer goes round, so that bytes are
told by how far above the pointer they are. Pushing them and pulling them back leaves the bytes
above as they were while the page has room for all of them. -/
namespace Famicom

namespace Bus
open Cpu

def stack (b : Bus) (sp : UInt8) : UInt8 := Ram.read b.ram (Byte.word sp 0x01).toNat

theorem stackAddress_toNat (sp : UInt8) : (Byte.word sp 0x01).toNat = 0x100 + sp.toNat :=
  Byte.toNat_word sp 0x01

theorem stackAddress_lt (sp : UInt8) : Byte.word sp 0x01 < 0x2000 := by
  have := sp.toNat_lt
  rw [UInt16.lt_iff_toNat_lt, stackAddress_toNat]
  change _ < 0x2000
  omega

theorem read_stack (b : Bus) (sp : UInt8) :
    b.read (Byte.word sp 0x01) = (b.stack sp, { b with openBus := b.stack sp }) := by
  rw [read, readDevice, if_pos (stackAddress_lt sp)]
  rfl

theorem write_stack (b : Bus) (sp v : UInt8) : b.write (Byte.word sp 0x01) v =
    { b with openBus := v, ram := Ram.write b.ram (Byte.word sp 0x01).toNat v } := by
  rw [write, if_pos (stackAddress_lt sp)]

theorem stack_write (b : Bus) (sp v i : UInt8) :
    (b.write (Byte.word sp 0x01) v).stack i = if i = sp then v else b.stack i := by
  have hi := i.toNat_lt
  have hsp := sp.toNat_lt
  have hsame : (Byte.word sp 0x01).toNat % 0x800 = (Byte.word i 0x01).toNat % 0x800 ↔ i = sp := by
    rw [stackAddress_toNat, stackAddress_toNat, ← UInt8.toNat_inj]
    omega
  rw [write_stack, stack, Ram.read_write]
  simp only [hsame]
  rfl

/-- A state of the bus that differs in the stack, and in the value left on the bus. -/
structure StackOnly (b b' : Bus) : Prop where
  rest : b' = { b with ram := b'.ram, openBus := b'.openBus }
  ram_eq : ∀ a < 0x800, a / 0x100 ≠ 1 → Ram.read b'.ram a = Ram.read b.ram a

namespace StackOnly
variable {b b' b'' : Bus}

theorem refl (b : Bus) : StackOnly b b := ⟨rfl, fun _ _ _ => rfl⟩

theorem trans (h : StackOnly b b') (h' : StackOnly b' b'') : StackOnly b b'' := by
  constructor
  · rw [h'.rest, h.rest]
  · intro a ha hpage
    rw [h'.ram_eq a ha hpage, h.ram_eq a ha hpage]

theorem leave (h : StackOnly b b') (v : UInt8) : StackOnly b { b' with openBus := v } := by
  constructor
  · rw [h.rest]
  · exact h.ram_eq

theorem write (b : Bus) (sp v : UInt8) : StackOnly b (b.write (Byte.word sp 0x01) v) := by
  rw [write_stack]
  refine ⟨rfl, fun a ha hpage => ?_⟩
  have hsp := sp.toNat_lt
  rw [Ram.read_write, if_neg]
  rw [stackAddress_toNat]
  omega

end StackOnly
end Bus

namespace Cpu

/-! Places in the page. -/

def above (sp : UInt8) (n : Nat) : UInt8 := sp + UInt8.ofNat n

def below (sp : UInt8) (n : Nat) : UInt8 := sp - UInt8.ofNat n

theorem toNat_above (sp : UInt8) (n : Nat) : (above sp n).toNat = (sp.toNat + n) % 256 := by
  rw [above, UInt8.toNat_add, UInt8.toNat_ofNat']
  omega

theorem toNat_below (sp : UInt8) (n : Nat) :
    (below sp n).toNat = (sp.toNat + (256 - n % 256)) % 256 := by
  rw [below, UInt8.toNat_sub, UInt8.toNat_ofNat']
  omega

theorem above_below (sp : UInt8) (n i : Nat) : above (below sp n) (n + i) = above sp i := by
  rw [← UInt8.toNat_inj, toNat_above, toNat_above, toNat_below]
  omega

theorem above_above (sp : UInt8) (n i : Nat) : above (above sp n) i = above sp (n + i) := by
  rw [← UInt8.toNat_inj, toNat_above, toNat_above, toNat_above]
  omega

theorem above_zero (sp : UInt8) : above sp 0 = sp := UInt8.add_zero sp

theorem below_zero (sp : UInt8) : below sp 0 = sp := UInt8.sub_zero sp

theorem below_succ (sp : UInt8) (n : Nat) : below sp (n + 1) = below sp n - 1 := by
  rw [← UInt8.toNat_inj, UInt8.toNat_sub, toNat_below, toNat_below]
  change _ = (2 ^ 8 - 1 + _) % 2 ^ 8
  omega

theorem above_ne {sp : UInt8} {n : Nat} (h : 0 < n) (hn : n < 256) : above sp n ≠ sp := by
  have := sp.toNat_lt
  rw [ne_eq, ← UInt8.toNat_inj, toNat_above]
  omega

abbrev Page := UInt8 → UInt8

/-- The bytes above the pointer, from the last pushed on. -/
def Page.Holds (m : Page) (sp : UInt8) : List UInt8 → Prop
  | [] => True
  | v :: vs => m (above sp 1) = v ∧ Holds m (above sp 1) vs

def Page.Agree (n : Nat) (sp : UInt8) (m m' : Page) : Prop :=
  ∀ i, 0 < i → i ≤ n → m' (above sp i) = m (above sp i)

namespace Page
variable {m m' m'' : Page} {sp : UInt8} {n k : Nat}

theorem Agree.refl (n : Nat) (sp : UInt8) (m : Page) : Agree n sp m m := fun _ _ _ => rfl

theorem Agree.trans (h : Agree n sp m m') (h' : Agree n sp m' m'') : Agree n sp m m'' := by
  intro i hi hn
  rw [h' i hi hn, h i hi hn]

theorem Agree.mono (h : Agree n sp m m') (hk : k ≤ n) : Agree k sp m m' :=
  fun i hi hik => h i hi (hik.trans hk)

theorem Agree.rise {i : Nat} (h : Agree n (below sp i) m m') : Agree (n - i) sp m m' := by
  intro j hj hn
  have hplace := h (i + j) (by omega) (by omega)
  rwa [above_below] at hplace

theorem Holds.agree {vs : List UInt8} (h : m.Holds sp vs) (ha : Agree n sp m m')
    (hn : vs.length ≤ n) : m'.Holds sp vs := by
  induction vs generalizing sp n with
  | nil => exact trivial
  | cons v vs ih =>
    rw [List.length_cons] at hn
    obtain ⟨hv, hvs⟩ := h
    constructor
    · rw [← hv]
      exact ha 1 Nat.one_pos (by omega)
    · apply ih hvs (n := n - 1)
      · intro i hi hin
        rw [above_above]
        exact ha (1 + i) (by omega) (by omega)
      · omega

end Page

/-! Pushing several bytes, the last of the list first. -/

namespace Registers
open Bus

def pushAll (r : Registers) (b : Bus) : List UInt8 → Registers × Bus
  | [] => (r, b)
  | v :: vs =>
    let (r, b) := pushAll r b vs
    r.push b v

variable (r : Registers) (b : Bus)

theorem pushAll_fst (vs : List UInt8) :
    (r.pushAll b vs).1 = { r with sp := below r.sp vs.length } := by
  induction vs with
  | nil =>
    rw [List.length_nil, below_zero]
    rfl
  | cons v vs ih =>
    rw [List.length_cons, below_succ]
    simp only [pushAll, push, ih]

theorem pushAll_snd (v : UInt8) (vs : List UInt8) : (r.pushAll b (v :: vs)).2 =
    (r.pushAll b vs).2.write (Byte.word (below r.sp vs.length) 0x01) v := by
  simp only [pushAll, push, stackAddress, pushAll_fst]

theorem stackOnly_pushAll (vs : List UInt8) : StackOnly b (r.pushAll b vs).2 := by
  induction vs with
  | nil => exact .refl b
  | cons v vs ih =>
    rw [pushAll_snd]
    exact ih.trans (.write _ _ v)

theorem agree_pushAll (vs : List UInt8) :
    Page.Agree (256 - vs.length) r.sp b.stack (r.pushAll b vs).2.stack := by
  induction vs with
  | nil => exact .refl _ _ _
  | cons v vs ih =>
    intro i hi hn
    rw [List.length_cons] at hn
    -- The bytes before `v` took `vs.length` places, and there was room for one more.
    have hother : above r.sp i ≠ below r.sp vs.length := by
      rw [← above_below r.sp vs.length i]
      exact above_ne (by omega) (by omega)
    rw [pushAll_snd, stack_write, if_neg hother]
    exact ih i hi (by omega)

theorem holds_pushAll {vs : List UInt8} (h : vs.length ≤ 256) :
    Page.Holds (r.pushAll b vs).2.stack (below r.sp vs.length) vs := by
  induction vs with
  | nil => exact trivial
  | cons v vs ih =>
    rw [List.length_cons] at h ⊢
    have hnext : above (below r.sp (vs.length + 1)) 1 = below r.sp vs.length := by
      rw [below_succ]
      exact UInt8.sub_add_cancel _ 1
    rw [pushAll_snd]
    constructor
    · rw [hnext, stack_write, if_pos rfl]
    · rw [hnext]
      apply (ih (by omega)).agree (n := 255)
      · intro i hi hn
        rw [stack_write, if_neg (above_ne hi (by omega))]
      · omega

section Pull
variable {r b} {vs : List UInt8}

theorem pull_held {v : UInt8} (h : Page.Holds b.stack r.sp (v :: vs)) :
    r.pull b = (v, { r with sp := above r.sp 1 }, { b with openBus := v }) := by
  have hv : b.stack (r.sp + 1) = v := h.1
  rw [pull]
  simp only [stackAddress, read_stack, hv]
  rfl

theorem pullWord_held {w : UInt16}
    (h : Page.Holds b.stack r.sp (Byte.low w :: Byte.high w :: vs)) :
    r.pullWord b = (w, { r with sp := above r.sp 2 }, { b with openBus := Byte.high w }) := by
  have hhigh : Page.Holds { b with openBus := Byte.low w }.stack
      { r with sp := above r.sp 1 }.sp (Byte.high w :: vs) := h.2
  rw [pullWord, pull_held h]
  dsimp only
  rw [pull_held hhigh, above_above]
  simp only [Byte.word_low_high]

end Pull

theorem stackOnly_pull : StackOnly b (r.pull b).2.2 := by
  simp only [pull, stackAddress, read_stack]
  exact (StackOnly.refl b).leave _

theorem stackOnly_pullWord : StackOnly b (r.pullWord b).2.2 :=
  (r.stackOnly_pull b).trans (stackOnly_pull _ _)

end Registers
end Cpu
end Famicom
