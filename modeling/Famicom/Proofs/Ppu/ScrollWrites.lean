import Famicom.Proofs.Ppu.Status
import Famicom.Proofs.Scroll

/-! Setting the scroll position. The scroll register and the address register take two writes each
and share a toggle, and both write to parts of one position. Once the toggle is clear, a program that
writes all the parts gets the position it asks for, whatever was there before. -/
namespace Famicom.Ppu

/-- A write to one of the two registers that take two. -/
def Event.isDouble : Event → Bool
  | write 5 _ | write 6 _ => true
  | _ => false

def Event.readsStatus : Event → Bool
  | read 2 _ => true
  | _ => false

def writes (p : Ppu) (ws : List (Fin 8 × UInt8)) : Ppu := ws.foldl (fun p w => p.write w.1 w.2) p

/-! The toggle. -/

theorem toggle_advanceTarget (p : Ppu) : p.advanceTarget.toggle = p.toggle := by
  rw [advanceTarget_eq]

theorem toggle_writeData (p : Ppu) (v : UInt8) : (p.writeData v).toggle = p.toggle := by
  unfold writeData
  split_ifs <;> exact toggle_advanceTarget _

theorem toggle_write (p : Ppu) (r : Fin 8) (v : UInt8) :
    (p.write r v).toggle = (p.toggle ^^ (Event.write r v).isDouble) := by
  match r with
  | 0 | 1 | 2 | 3 | 4 => exact (Bool.xor_false p.toggle).symm
  | 5 =>
    simp only [write, writeScroll]
    cases p.toggle <;> rfl
  | 6 =>
    simp only [write, writeAddress]
    cases p.toggle <;> rfl
  | 7 => exact (toggle_writeData _ v).trans (Bool.xor_false p.toggle).symm

theorem toggle_read (p : Ppu) {r : Fin 8} {data : UInt8}
    (hr : (Event.read r data).readsStatus = false) : (p.read r data).2.toggle = p.toggle := by
  match r with
  | 2 => nomatch hr
  | 7 => exact toggle_advanceTarget _
  | 0 | 1 | 3 | 4 | 5 | 6 => rfl

/-- Writes of halves turn the toggle over, and only a read of the status clears it. -/
theorem toggle_after {e : Event} (he : e.readsStatus = false) (p : Ppu) :
    (p.after e).toggle = (p.toggle ^^ e.isDouble) := by
  cases e with
  | clock data =>
    rw [after, clock_eq, compose_eq]
    exact (Bool.xor_false p.toggle).symm
  | read r data =>
    rw [after, toggle_read p he]
    exact (Bool.xor_false p.toggle).symm
  | write r v => exact toggle_write p r v
  | writeOam v => exact (Bool.xor_false p.toggle).symm

theorem toggle_foldl {es : List Event} (hes : ∀ e ∈ es, e.readsStatus = false) (p : Ppu) :
    (es.foldl after p).toggle = (p.toggle ^^ (es.countP Event.isDouble % 2 == 1)) := by
  induction es generalizing p with
  | nil => exact (Bool.xor_false p.toggle).symm
  | cons e es ih =>
    obtain ⟨he, hrest⟩ := List.forall_mem_cons.mp hes
    have hcount := Nat.mod_two_eq_zero_or_one (es.countP Event.isDouble)
    rw [List.foldl_cons, ih hrest, toggle_after he, List.countP_cons]
    cases e.isDouble
    · simp
    · obtain h | h := hcount <;> simp [Nat.add_mod, h]

/-! The position. -/

namespace Scroll

def placed (x y : UInt8) (n : Nat) : Scroll :=
  ⟨y.toNat % 8 * 0x1000 + n * 0x400 + y.toNat / 8 * 32 + x.toNat / 8⟩

/-- The low byte of a position, as a program works it out. -/
theorem toNat_lowByte (x y : UInt8) :
    ((y &&& 0xF8) <<< 2 ||| x >>> 3).toNat = y.toNat / 8 % 8 * 32 + x.toNat / 8 := by
  have hhigh : ((y &&& 0xF8) <<< 2).toNat = (y.toNat / 8 % 8) <<< 5 := by
    have hall : ∀ n < 256, ((UInt8.ofNat n &&& 0xF8) <<< 2).toNat = (n / 8 % 8) <<< 5 := by
      decide +kernel
    simpa using hall y.toNat y.toNat_lt
  have hlow : (x >>> 3).toNat = x.toNat / 8 := by
    simp [UInt8.toNat_shiftRight, Nat.shiftRight_eq_div_pow]
  have hx := x.toNat_lt
  rw [UInt8.toNat_or, hhigh, hlow, ← Nat.shiftLeft_add_eq_or_of_lt (by omega), Nat.shiftLeft_eq]

theorem set_all (t : Scroll) (x y : UInt8) {n : Nat} (hn : n < 4) :
    ((((t.setHigh (UInt8.ofNat (4 * n))).setFineY y.toNat).setCoarseY (y.toNat / 8)).setCoarseX
      (x.toNat / 8)).setLow ((y &&& 0xF8) <<< 2 ||| x >>> 3) = placed x y n := by
  have hx := x.toNat_lt
  have hy := y.toNat_lt
  have htable : (UInt8.ofNat (4 * n)).toNat = 4 * n := by
    rw [UInt8.toNat_ofNat']
    omega
  set t₁ := t.setHigh (UInt8.ofNat (4 * n))
  have h₁ : t₁.raw = n * 0x400 + t.raw % 256 := by
    simp only [t₁, setHigh, htable]
    omega
  set t₂ := t₁.setFineY y.toNat
  have h₂ : t₂.raw = y.toNat % 8 * 0x1000 + n * 0x400 + t.raw % 256 := by
    simp only [t₂, setFineY, fineY, h₁]
    omega
  set t₃ := t₂.setCoarseY (y.toNat / 8)
  have h₃ : t₃.raw = y.toNat % 8 * 0x1000 + n * 0x400 + y.toNat / 8 * 32 + t.raw % 32 := by
    simp only [t₃, setCoarseY, coarseY, h₂]
    omega
  set t₄ := t₃.setCoarseX (x.toNat / 8)
  have h₄ : t₄.raw = y.toNat % 8 * 0x1000 + n * 0x400 + y.toNat / 8 * 32 + x.toNat / 8 := by
    simp only [t₄, setCoarseX, coarseX, h₃]
    omega
  apply congrArg mk
  rw [h₄, toNat_lowByte]
  omega

/-- The fifteen bits of an address, of which the highest cannot be written. -/
def address (hi lo : UInt8) : Scroll := ⟨(hi &&& 0x3F).toNat <<< 8 ||| lo.toNat⟩

theorem set_address (t : Scroll) (hi lo : UInt8) : (t.setHigh hi).setLow lo = address hi lo := by
  have hlo := lo.toNat_lt
  have hmask : (hi &&& 0x3F).toNat = hi.toNat % 64 := by
    rw [UInt8.toNat_and]
    exact Nat.and_two_pow_sub_one_eq_mod _ 6
  apply congrArg mk
  rw [← Nat.shiftLeft_add_eq_or_of_lt hlo, hmask, Nat.shiftLeft_eq]
  simp only [setHigh]
  omega

theorem fields_placed (x y : UInt8) {n : Nat} (hn : n < 4) :
    (placed x y n).Fields (x.toNat / 8) (y.toNat / 8) (n % 2) (n / 2) (y.toNat % 8) := by
  have hx := x.toNat_lt
  have hy := y.toNat_lt
  refine fields_of (q := 0) (by omega) (by omega) (by omega) (by omega) (by omega) ?_
  simp only [placed]
  omega

end Scroll

/-! What each half of a register sets. -/

section Halves
variable {p : Ppu}

theorem write_high (h : p.toggle = false) (v : UInt8) :
    p.write 6 v = { p with latch := v, t := p.t.setHigh v, toggle := true } := by
  simp [write, writeAddress, h]

theorem write_low (h : p.toggle = true) (v : UInt8) :
    p.write 6 v =
      { p with latch := v, t := p.t.setLow v, v := p.t.setLow v, toggle := false } := by
  simp [write, writeAddress, h]

theorem write_column (h : p.toggle = false) (v : UInt8) :
    p.write 5 v =
      { p with
        latch := v, fineX := v &&& 7, t := p.t.setCoarseX (v.toNat / 8), toggle := true } := by
  simp [write, writeScroll, h]

theorem write_row (h : p.toggle = true) (v : UInt8) :
    p.write 5 v =
      { p with
        latch := v, t := (p.t.setFineY v.toNat).setCoarseY (v.toNat / 8), toggle := false } := by
  simp [write, writeScroll, h]

end Halves

section Writes
variable {p : Ppu} (htoggle : p.toggle = false)
include htoggle

theorem writes_address (hi lo : UInt8) :
    p.writes [(6, hi), (6, lo)] =
      { p with latch := lo, t := .address hi lo, v := .address hi lo, toggle := false } := by
  change (p.write 6 hi).write 6 lo = _
  rw [write_high htoggle, write_low rfl]
  dsimp only
  rw [Scroll.set_address]

theorem writes_position (x y : UInt8) (n : Fin 4) :
    p.writes [(6, UInt8.ofNat (4 * n)), (5, y), (5, x), (6, (y &&& 0xF8) <<< 2 ||| x >>> 3)] =
      { p with
        latch := (y &&& 0xF8) <<< 2 ||| x >>> 3, fineX := x &&& 7,
        t := .placed x y n, v := .placed x y n, toggle := false } := by
  change (((p.write 6 (UInt8.ofNat (4 * n))).write 5 y).write 5 x).write 6 _ = _
  simp only [write_high htoggle, write_row, write_column, write_low]
  rw [Scroll.set_all p.t x y n.isLt]

end Writes

theorem toggle_cleared (p : Ppu) (data : UInt8) {es : List Event}
    (hes : ∀ e ∈ es, e.readsStatus = false) (hpairs : Even (es.countP Event.isDouble)) :
    (es.foldl after (p.read 2 data).2).toggle = false := by
  rw [toggle_foldl hes, Nat.even_iff.mp hpairs]
  rfl

/-- A position that is written leaves no trace of an earlier state `p`. Let the status be read, and
then let any registers be accessed and any dots pass, as long as the registers that take two writes
are written in pairs. Two writes of an address set the position to it, and where lines start too.
Writes of a nametable, a row, a column and the low byte of the position set both to just these. -/
theorem scroll_writes_forget (p : Ppu) (data : UInt8) {es : List Event}
    (hes : ∀ e ∈ es, e.readsStatus = false) (hpairs : Even (es.countP Event.isDouble)) :
    let q := es.foldl after (p.read 2 data).2
    (∀ hi lo : UInt8,
      let r := q.writes [(6, hi), (6, lo)]
      r.v = r.t ∧ r.t.raw = (hi &&& 0x3F).toNat <<< 8 ||| lo.toNat) ∧
    ∀ (x y : UInt8) (n : Fin 4),
      let r := q.writes
        [(6, UInt8.ofNat (4 * n)), (5, y), (5, x), (6, (y &&& 0xF8) <<< 2 ||| x >>> 3)]
      r.v = r.t ∧
      r.t.raw = y.toNat % 8 * 0x1000 + n * 0x400 + y.toNat / 8 * 32 + x.toNat / 8 ∧
      r.t.Fields (x.toNat / 8) (y.toNat / 8) (n % 2) (n / 2) (y.toNat % 8) ∧
      r.fineX = x &&& 7 ∧ r.toggle = false := by
  intro q
  have htoggle : q.toggle = false := p.toggle_cleared data hes hpairs
  refine ⟨?_, ?_⟩
  · intro hi lo r
    have hr : r = _ := writes_address htoggle hi lo
    rw [hr]
    exact ⟨rfl, rfl⟩
  · intro x y n r
    have hr : r = _ := writes_position htoggle x y n
    rw [hr]
    exact ⟨rfl, rfl, Scroll.fields_placed x y n.isLt, rfl, rfl⟩

/-- A split of the screen, after a pair of scroll writes around a change of the nametable. -/
theorem scroll_writes_forget_split :
    let es : List Event := [.write 5 0x7D, .write 0 0x03, .write 5 0x5E]
    let q := es.foldl after (({ toggle := true } : Ppu).read 2 0).2
    (∀ e ∈ es, e.readsStatus = false) ∧ Even (es.countP Event.isDouble) ∧
      (q.writes [(6, 0x23), (6, 0x45)]).t.raw = 0x2345 ∧
      (q.writes [(6, 0x08), (5, 0x9D), (5, 0x4B), (6, 0x69)]).t.raw = 0x5A69 ∧
      (q.writes [(6, 0x08), (5, 0x9D), (5, 0x4B), (6, 0x69)]).fineX = 3 := by
  intro es q
  have hes : ∀ e ∈ es, e.readsStatus = false := by decide
  have hpairs : Even (es.countP Event.isDouble) := by decide
  obtain ⟨haddress, hposition⟩ := scroll_writes_forget { toggle := true } 0 hes hpairs
  obtain ⟨-, hraw, -, hfineX, -⟩ := hposition 0x4B 0x9D 2
  exact ⟨hes, hpairs, (haddress 0x23 0x45).2, hraw, hfineX⟩

end Famicom.Ppu
