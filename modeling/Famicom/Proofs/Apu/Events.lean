import Famicom.Apu
import Mathlib.Data.List.Induction
import Mathlib.Tactic.SplitIfs

/-! What reaches the sound unit, one event after another, and what of it reaches the delta
channel. -/
namespace Famicom.Apu

inductive Event where
  | write (a : UInt16) (v : UInt8)
  | clock
  | readStatus
  | deliver (v : UInt8)
  | takeSample

def Event.isWrite : Event → Bool
  | write .. => true
  | clock | readStatus | deliver _ | takeSample => false

def after (s : Apu) : Event → Apu
  | .write a v => s.write a v
  | .clock => s.clock
  | .readStatus => s.readStatus.2
  | .deliver v => s.deliver v
  | .takeSample => s.takeSample

def run (s : Apu) (es : List Event) : Apu := es.foldl after s

theorem run_append (s : Apu) (es fs : List Event) : s.run (es ++ fs) = (s.run es).run fs :=
  List.foldl_append

theorem run_snoc (s : Apu) (es : List Event) (e : Event) : s.run (es ++ [e]) = (s.run es).after e :=
  List.foldl_append

def before (es : Nat → Event) (n : Nat) : List Event := (List.range n).map es

theorem before_succ (es : Nat → Event) (n : Nat) : before es (n + 1) = before es n ++ [es n] := by
  rw [before, List.range_succ, List.map_append]
  rfl

def history (es : Nat → Event) (n : Nat) : Apu := run {} (before es n)

theorem history_succ (es : Nat → Event) (n : Nat) :
    history es (n + 1) = (history es n).after (es n) := by
  rw [history, before_succ, run_snoc]
  rfl

/-! The registers as they were last written. -/

def Event.written? (a : UInt16) : Event → Option UInt8
  | write a' v => if a' = a then some v else none
  | clock | readStatus | deliver _ | takeSample => none

theorem Event.written?_of_ne {e : Event} {a b : UInt16} {v : UInt8} (h : e.written? a = some v)
    (hne : a ≠ b) : e.written? b = none := by
  cases e with
  | write a' w =>
    rw [written?] at h ⊢
    split_ifs at h with ha
    rw [ha, if_neg hne]
  | clock | readStatus | deliver _ | takeSample => rfl

/-- The last value written to register `a`, which powers on as if that had been zero. -/
def register (es : List Event) (a : UInt16) : UInt8 :=
  (es.filterMap (·.written? a)).getLast?.getD 0

theorem register_snoc (es : List Event) (e : Event) (a : UInt16) :
    register (es ++ [e]) a = (e.written? a).getD (register es a) := by
  rw [register, List.filterMap_append]
  cases h : e.written? a with
  | none => simp [h, register]
  | some v => simp [h]

theorem register_before_zero (es : Nat → Event) (a : UInt16) : register (before es 0) a = 0 := rfl

theorem register_before_succ (es : Nat → Event) (n : Nat) (a : UInt16) :
    register (before es (n + 1)) a = ((es n).written? a).getD (register (before es n) a) := by
  rw [before_succ, register_snoc]

/-! The delta channel's part of an event. -/

theorem write_dmc (s : Apu) (a : UInt16) (v : UInt8) : (s.write a v).dmc =
    if a = 0x4010 then s.dmc.write 0 v
    else if a = 0x4011 then s.dmc.write 1 v
    else if a = 0x4012 then s.dmc.write 2 v
    else if a = 0x4013 then s.dmc.write 3 v
    else if a = 0x4015 then s.dmc.setEnabled (Byte.has v 0x10)
    else s.dmc := by
  by_cases h0 : a = 0x4010
  · subst h0
    rfl
  by_cases h1 : a = 0x4011
  · subst h1
    rfl
  by_cases h2 : a = 0x4012
  · subst h2
    rfl
  by_cases h3 : a = 0x4013
  · subst h3
    rfl
  by_cases h5 : a = 0x4015
  · subst h5
    rfl
  rw [if_neg h0, if_neg h1, if_neg h2, if_neg h3, if_neg h5]
  have hrange : ¬(¬a < 0x4010 ∧ a < 0x4014) := by
    rw [← UInt16.toNat_inj] at h0 h1 h2 h3
    simp only [UInt16.lt_iff_toNat_lt]
    simp at h0 h1 h2 h3 ⊢
    omega
  unfold write
  split_ifs <;> first | rfl | exact absurd ⟨‹_›, ‹_›⟩ hrange

theorem clock_dmc (s : Apu) : s.clock.dmc = s.dmc.clockTimer := by
  have hframe (t : Apu) (frame : FrameClock) : (t.clockFrame frame).dmc = t.dmc := by
    unfold clockFrame
    split_ifs <;> rfl
  have htimers (t : Apu) : t.clockTimers.dmc = t.dmc.clockTimer := by
    unfold clockTimers
    dsimp only
    split_ifs <;> rfl
  rw [clock, htimers, hframe]

end Famicom.Apu
