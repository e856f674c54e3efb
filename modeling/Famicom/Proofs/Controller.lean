import Famicom.Controller
import Famicom.Proofs.Bytes
import Famicom.Proofs.Latest
import Mathlib.Tactic.SplitIfs

/-! What comes out of a controller, told by what went into it. Under strobe a read shows the first
button as it is. Else the reads shift out, bit by bit, the buttons that were down at the last latch
point, however they have moved since; and after the eighth bit the line stays high. -/
namespace Famicom.Controller

inductive Event where
  | press (mask : UInt8)
  | button (mask : UInt8) (pressed : Bool)
  | strobe (v : UInt8)
  | read

def after (c : Controller) : Event → Controller
  | .press mask => c.setButtons mask
  | .button mask pressed => c.setButton mask pressed
  | .strobe v => c.writeStrobe v
  | .read => c.read.2

def history (es : Nat → Event) : Nat → Controller
  | 0 => {}
  | n + 1 => (history es n).after (es n)

/-! What is told by the events alone. -/

namespace Event

def moved (buttons : UInt8) : Event → UInt8
  | press mask => mask
  | button mask pressed => Byte.put buttons mask pressed
  | strobe _ | read => buttons

def level? : Event → Option Bool
  | strobe v => some (v.toNat.testBit 0)
  | press _ | button .. | read => none

def isRead : Event → Bool
  | read => true
  | press _ | button .. | strobe _ => false

/-- A latch point is a write that raises the strobe line or holds it high, and a read while it is
high. -/
def latches (strobed : Bool) : Event → Bool
  | strobe v => v.toNat.testBit 0
  | read => strobed
  | press _ | button .. => false

end Event

section Events
variable (es : Nat → Event)

/-- The buttons that are down before event `n`. -/
def down : Nat → UInt8
  | 0 => 0
  | n + 1 => (es n).moved (down n)

/-- The level of the strobe line before event `n`; it powers on low. -/
def strobed (n : Nat) : Bool := (latest (fun k => (es k).level?) n).getD false

def latches (n : Nat) : Bool := (es n).latches (strobed es n)

/-- The last latch point before event `n`. -/
def latchPoint? (n : Nat) : Option Nat := latest (fun k => if latches es k then some k else none) n

/-- The buttons that were down at the last latch point; before the first there are none. -/
def snapshot (n : Nat) : UInt8 := (latchPoint? es n).elim 0 (down es)

def reads (n : Nat) : Nat :=
  (latchPoint? es n).elim (Nat.count (fun k => (es k).isRead = true) n)
    fun i => countAfter (fun k => (es k).isRead = true) i n

/-! One event. -/

theorem strobed_succ (n : Nat) : strobed es (n + 1) = ((es n).level?).getD (strobed es n) :=
  getD_latest_succ _ n false

theorem latchPoint?_succ (n : Nat) :
    latchPoint? es (n + 1) = if latches es n then some n else latchPoint? es n := by
  rw [latchPoint?, latest_succ]
  split_ifs <;> rfl

theorem snapshot_succ (n : Nat) :
    snapshot es (n + 1) = if latches es n then down es n else snapshot es n := by
  rw [snapshot, latchPoint?_succ]
  split_ifs <;> rfl

theorem latchPoint?_lt {n i : Nat} (h : latchPoint? es n = some i) : i < n := by
  obtain ⟨k, hk, hlatch⟩ := exists_of_latest h
  split_ifs at hlatch
  cases hlatch
  exact hk

theorem reads_succ (n : Nat) : reads es (n + 1) =
    if latches es n then 0 else reads es n + if (es n).isRead then 1 else 0 := by
  rw [reads, latchPoint?_succ]
  split_ifs with hlatch hread
  · exact countAfter_start _ n
  all_goals
    rw [reads]
    cases hpoint : latchPoint? es n with
    | none => simp [Nat.count_succ, hread]
    | some i => simp [countAfter_succ _ (latchPoint?_lt es hpoint), hread]

end Events

/-! The controller. -/

theorem read_fst (c : Controller) : c.read.1 = c.peek := by
  unfold read peek
  split_ifs <;> rfl

theorem toNat_peek (c : Controller) : c.peek.toNat =
    if c.strobe then (c.buttons.toNat.testBit 0).toNat
    else if c.shifted.toNat < 8 then (c.latched.toNat.testBit c.shifted.toNat).toNat
    else 1 := by
  have hbit (v k : UInt8) (hk : k.toNat < 8) :
      (v >>> k &&& 1).toNat = (v.toNat.testBit k.toNat).toNat := by
    rw [UInt8.toNat_and, UInt8.toNat_shiftRight, Nat.mod_eq_of_lt hk, Nat.toNat_testBit,
      Nat.shiftRight_eq_div_pow]
    exact Nat.and_one_is_mod _
  have hshifted : c.shifted < 8 ↔ c.shifted.toNat < 8 := UInt8.lt_iff_toNat_lt
  unfold peek
  simp only [hshifted]
  split_ifs with hstrobe hmore
  · exact hbit c.buttons 0 (by decide)
  · exact hbit c.latched c.shifted hmore
  · rfl

section After
variable (c : Controller) (e : Event)

theorem buttons_after : (c.after e).buttons = e.moved c.buttons := by
  cases e with
  | press mask | button mask pressed => rfl
  | strobe v =>
    rw [after, writeStrobe]
    split_ifs <;> rfl
  | read =>
    rw [after, read]
    split_ifs <;> rfl

theorem strobe_after : (c.after e).strobe = (e.level?).getD c.strobe := by
  cases e with
  | press mask | button mask pressed => rfl
  | strobe v =>
    rw [Event.level?, ← Byte.has_one, after, writeStrobe]
    split_ifs <;> rfl
  | read =>
    rw [after, read]
    split_ifs <;> rfl

theorem latched_after :
    (c.after e).latched = if e.latches c.strobe then c.buttons else c.latched := by
  cases e with
  | press mask | button mask pressed => rfl
  | strobe v =>
    rw [Event.latches, ← Byte.has_one, after, writeStrobe]
    split_ifs <;> rfl
  | read =>
    rw [Event.latches, after, read]
    split_ifs <;> rfl

theorem shifted_after (h : c.shifted.toNat ≤ 8) : (c.after e).shifted.toNat =
    if e.latches c.strobe then 0 else min (c.shifted.toNat + if e.isRead then 1 else 0) 8 := by
  cases e with
  | press mask | button mask pressed => exact (Nat.min_eq_left h).symm
  | strobe v =>
    rw [Event.latches, ← Byte.has_one, Event.isRead, if_neg Bool.false_ne_true, Nat.add_zero,
      Nat.min_eq_left h, after, writeStrobe]
    split_ifs <;> rfl
  | read =>
    have hmore : c.shifted < 8 ↔ c.shifted.toNat < 8 := UInt8.lt_iff_toNat_lt
    rw [Event.latches, Event.isRead, if_pos rfl, after, read]
    simp only [hmore]
    split_ifs with hstrobe hless
    · rfl
    · have hadd : (c.shifted + 1).toNat = (c.shifted.toNat + 1) % 256 := UInt8.toNat_add _ _
      dsimp only
      omega
    · dsimp only
      omega

end After

/-- What a controller holds before event `n`. -/
structure Follows (es : Nat → Event) (n : Nat) (c : Controller) : Prop where
  buttons_eq : c.buttons = down es n
  strobe_eq : c.strobe = strobed es n
  latched_eq : c.latched = snapshot es n
  shifted_eq : c.shifted.toNat = min (reads es n) 8

theorem Follows.after {es : Nat → Event} {n : Nat} {c : Controller} (h : Follows es n c) :
    Follows es (n + 1) (c.after (es n)) := by
  obtain ⟨hbuttons, hstrobe, hlatched, hshifted⟩ := h
  constructor
  · rw [buttons_after, hbuttons, down]
  · rw [strobe_after, hstrobe, strobed_succ]
  · rw [latched_after, hbuttons, hstrobe, hlatched, snapshot_succ, latches]
  · rw [shifted_after c (es n) (by omega), hstrobe, hshifted, reads_succ, latches]
    split_ifs <;> omega

theorem follows_history (es : Nat → Event) (n : Nat) : Follows es n (history es n) := by
  induction n with
  | zero => exact ⟨rfl, rfl, rfl, rfl⟩
  | succ n ih => exact ih.after

/-- A peek shows what a read returns. That is the first button as it is while the strobe line is
high. Else it is a bit of the buttons at the last latch point, the next one with each read since,
and high when all eight are out. -/
theorem snapshot_shifted_out (es : Nat → Event) (n : Nat) :
    (history es n).peek = (history es n).read.1 ∧
    (history es n).read.1.toNat =
      if strobed es n then ((down es n).toNat.testBit 0).toNat
      else if reads es n < 8 then ((snapshot es n).toNat.testBit (reads es n)).toNat
      else 1 := by
  obtain ⟨hbuttons, hstrobe, hlatched, hshifted⟩ := follows_history es n
  have hout (bit : Nat → Nat) : (if min (reads es n) 8 < 8 then bit (min (reads es n) 8) else 1) =
      if reads es n < 8 then bit (reads es n) else 1 := by
    by_cases hmore : reads es n < 8
    · rw [Nat.min_eq_left (Nat.le_of_lt hmore)]
    · rw [if_neg hmore, if_neg (by omega)]
  refine ⟨(read_fst _).symm, ?_⟩
  rw [read_fst, toNat_peek, hbuttons, hstrobe, hlatched, hshifted]
  rw [hout fun k => ((snapshot es n).toNat.testBit k).toNat]

end Famicom.Controller
