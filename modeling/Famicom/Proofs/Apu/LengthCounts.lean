import Famicom.Proofs.Apu.Events
import Famicom.Proofs.Apu.FrameCycle
import Famicom.Proofs.Latest

/-! Length counters count half frames. What a counter holds is told by the registers and by the
half-frame clocks of the sequencer alone: it starts from the last load that was not cleared since,
and has gone down by one with each half frame that found the channel not halted, down to zero. -/
namespace Famicom.Apu

inductive Channel where
  | pulse1
  | pulse2
  | triangle
  | noise

namespace Channel

def control : Channel → UInt16
  | pulse1 => 0x4000
  | pulse2 => 0x4004
  | triangle => 0x4008
  | noise => 0x400C

def load (c : Channel) : UInt16 := c.control + 3

def haltBit : Channel → UInt8
  | triangle => 0x80
  | pulse1 | pulse2 | noise => 0x20

def statusBit : Channel → UInt8
  | pulse1 => 0x01
  | pulse2 => 0x02
  | triangle => 0x04
  | noise => 0x08

def length (s : Apu) : Channel → LengthCounter
  | pulse1 => s.pulse1.length
  | pulse2 => s.pulse2.length
  | triangle => s.triangle.length
  | noise => s.noise.length

variable (c : Channel)

theorem control_ne_load : c.control ≠ c.load := by
  cases c <;> decide

theorem control_ne_enable : c.control ≠ 0x4015 := by
  cases c <;> decide

theorem load_ne_enable : c.load ≠ 0x4015 := by
  cases c <;> decide

/-! One event. -/

theorem length_write_other {s : Apu} {a : UInt16} (v : UInt8) (hcontrol : a ≠ c.control)
    (hload : a ≠ c.load) (henable : a ≠ 0x4015) : c.length (s.write a v) = c.length s := by
  by_cases hsecond : a = c.control + 1
  · subst hsecond
    cases c <;> rfl
  by_cases hthird : a = c.control + 2
  · subst hthird
    cases c <;> rfl
  have hrange : ¬(¬a < c.control ∧ a < c.control + 4) := by
    rw [ne_eq, ← UInt16.toNat_inj] at hcontrol hload
    rw [← UInt16.toNat_inj] at hsecond hthird
    simp only [UInt16.lt_iff_toNat_lt]
    rw [load] at hload
    cases c <;> simp [control] at hcontrol hload hsecond hthird ⊢ <;> omega
  unfold write
  split_ifs <;> cases c <;> first | rfl | exact absurd ⟨‹_›, ‹_›⟩ hrange

theorem length_write (s : Apu) (a : UInt16) (v : UInt8) : c.length (s.write a v) =
    if a = c.control then (c.length s).setHalt (Byte.has v c.haltBit)
    else if a = c.load then (c.length s).load (v.toNat / 8)
    else if a = 0x4015 then (c.length s).setEnabled (Byte.has v c.statusBit)
    else c.length s := by
  split_ifs with hcontrol hload henable
  · subst hcontrol
    cases c <;> rfl
  · subst hload
    cases c <;> rfl
  · subst henable
    cases c <;> rfl
  · exact c.length_write_other v hcontrol hload henable

theorem length_clockTimers (s : Apu) : c.length s.clockTimers = c.length s := by
  have hpulse (p : Pulse) : p.clockTimer.length = p.length := by
    unfold Pulse.clockTimer
    split_ifs <;> rfl
  have htriangle (t : Triangle) : t.clockTimer.length = t.length := by
    unfold Triangle.clockTimer
    split_ifs <;> rfl
  have hnoise (n : Noise) : n.clockTimer.length = n.length := by
    unfold Noise.clockTimer
    split_ifs <;> rfl
  unfold clockTimers
  cases c <;> dsimp only [length] <;> split_ifs <;> simp only [hpulse, htriangle, hnoise]

theorem length_clockQuarter (s : Apu) : c.length s.clockQuarter = c.length s := by
  cases c <;> rfl

theorem length_clockHalf (s : Apu) : c.length s.clockHalf = (c.length s).clock := by
  cases c <;> rfl

theorem length_clockFrame (s : Apu) (frame : FrameClock) : c.length (s.clockFrame frame) =
    if frame.half then (c.length s).clock else c.length s := by
  unfold clockFrame
  dsimp only
  split_ifs
  · rw [length_clockHalf, length_clockQuarter]
  · exact c.length_clockHalf s
  · exact c.length_clockQuarter s
  · rfl

theorem length_clock (s : Apu) : c.length s.clock =
    if s.sequencer.clock.1.half then (c.length s).clock else c.length s := by
  have hsequencer (sequencer : Sequencer) : c.length { s with sequencer } = c.length s := by
    cases c <;> rfl
  rw [clock, length_clockTimers, length_clockFrame, hsequencer]

end Channel

def halves (s : Apu) : Event → Bool
  | .clock => s.sequencer.clock.1.half
  | .write .. | .readStatus | .deliver _ | .takeSample => false

namespace Channel

/-- The length that a write to the fourth register selects, by its top five bits. -/
def loaded (v : UInt8) : Nat :=
  have : v.toNat / 8 < 32 := by
    have := v.toNat_lt
    omega
  LengthCounter.table[v.toNat / 8]

theorem value_load (l : LengthCounter) (v : UInt8) :
    (l.load (v.toNat / 8)).value = if l.enabled then loaded v else l.value := by
  have hindex : v.toNat / 8 % 32 = v.toNat / 8 := by
    have := v.toNat_lt
    omega
  simp only [LengthCounter.load, hindex]
  split_ifs <;> rfl

/-- What is written to the fourth register counts while the channel is enabled. -/
def loads? (c : Channel) (enabled : Bool) (e : Event) : Option UInt8 :=
  if enabled then e.written? c.load else none

def clears (c : Channel) (e : Event) : Bool :=
  (e.written? 0x4015).any fun v => !Byte.has v c.statusBit

section After
variable (c : Channel) (s : Apu) (e : Event)

theorem halt_after : (c.length (s.after e)).halt =
    ((e.written? c.control).map (Byte.has · c.haltBit)).getD (c.length s).halt := by
  cases e with
  | write a v =>
    rw [after, length_write, Event.written?]
    split_ifs
    · rfl
    · rw [LengthCounter.load]
      split_ifs <;> rfl
    · rfl
    · rfl
  | clock =>
    rw [after, length_clock, LengthCounter.clock]
    split_ifs <;> rfl
  | readStatus | deliver _ | takeSample => cases c <;> rfl

theorem enabled_after : (c.length (s.after e)).enabled =
    ((e.written? 0x4015).map (Byte.has · c.statusBit)).getD (c.length s).enabled := by
  cases e with
  | write a v =>
    rw [after, length_write, Event.written?]
    split_ifs with hcontrol henable hload henable henable
    · exact absurd (hcontrol.symm.trans henable) c.control_ne_enable
    · rfl
    · exact absurd (hload.symm.trans henable) c.load_ne_enable
    · rw [LengthCounter.load]
      split_ifs <;> rfl
    · rfl
    · rfl
  | clock =>
    rw [after, length_clock, LengthCounter.clock]
    split_ifs <;> rfl
  | readStatus | deliver _ | takeSample => cases c <;> rfl

theorem value_after : (c.length (s.after e)).value =
    ((c.loads? (c.length s).enabled e).map loaded).getD
      (if c.clears e then 0
      else (c.length s).value - if s.halves e && !(c.length s).halt then 1 else 0) := by
  cases e with
  | write a v =>
    rw [after, length_write]
    by_cases hcontrol : a = c.control
    · subst hcontrol
      simp [Event.written?, loads?, clears, halves, control_ne_load, control_ne_enable,
        LengthCounter.setHalt]
    by_cases hload : a = c.load
    · subst hload
      cases henabled : (c.length s).enabled <;>
        simp [Event.written?, loads?, clears, halves, hcontrol, load_ne_enable, henabled,
          value_load]
    by_cases henable : a = 0x4015
    · subst henable
      cases hbit : Byte.has v c.statusBit <;>
        simp [Event.written?, loads?, clears, halves, hcontrol, hload, hbit,
          LengthCounter.setEnabled]
    · simp [Event.written?, loads?, clears, halves, hcontrol, hload, henable]
  | clock =>
    rw [after, length_clock, LengthCounter.clock, halves]
    cases s.sequencer.clock.1.half <;> cases (c.length s).halt <;>
      simp [Event.written?, loads?, clears]
  | readStatus | deliver _ | takeSample =>
    cases (c.length s).enabled <;> cases c <;> rfl

end After

/-! A run. -/

section Run
variable (es : Nat → Event) (c : Channel) (n : Nat)

def enabled : Bool := Byte.has (register (before es n) 0x4015) c.statusBit

def halted : Bool := Byte.has (register (before es n) c.control) c.haltBit

/-- Whether event `n` clocks a half frame that the counter counts. -/
def counts : Bool := (history es n).halves (es n) && !c.halted es n

/-- The load by event `i` and its value, if it was not cleared before event `n`. -/
def effective? (i : Nat) : Option (Nat × UInt8) :=
  if ∀ k < n, i < k → c.clears (es k) = false then
    (c.loads? (c.enabled es i) (es i)).map (Prod.mk i)
  else none

def lastLoad? : Option (Nat × UInt8) := latest (c.effective? es n) n

theorem halt_history : (c.length (history es n)).halt = c.halted es n := by
  induction n with
  | zero =>
    rw [halted, register_before_zero]
    cases c <;> rfl
  | succ n ih =>
    rw [history_succ, halt_after, ih, halted, halted, register_before_succ]
    cases (es n).written? c.control <;> rfl

theorem enabled_history : (c.length (history es n)).enabled = c.enabled es n := by
  induction n with
  | zero =>
    rw [enabled, register_before_zero]
    cases c <;> rfl
  | succ n ih =>
    rw [history_succ, enabled_after, ih, enabled, enabled, register_before_succ]
    cases (es n).written? 0x4015 <;> rfl

theorem lastLoad?_lt {n i : Nat} {v : UInt8} (h : c.lastLoad? es n = some (i, v)) : i < n := by
  obtain ⟨k, hk, hload⟩ := exists_of_latest h
  rw [effective?] at hload
  split_ifs at hload
  obtain ⟨w, -, hw⟩ := Option.map_eq_some_iff.mp hload
  cases hw
  exact hk

theorem lastLoad?_succ : c.lastLoad? es (n + 1) =
    ((c.loads? (c.enabled es n) (es n)).map (Prod.mk n)).or
      (if c.clears (es n) then none else c.lastLoad? es n) := by
  have hnew : c.effective? es (n + 1) n = (c.loads? (c.enabled es n) (es n)).map (Prod.mk n) :=
    if_pos fun k hk hlt => absurd hlt (by omega)
  rw [lastLoad?, latest_succ, hnew]
  congr 1
  split_ifs with hclears
  · refine latest_eq_none fun i hi => if_neg fun hkept => ?_
    rw [hkept n (Nat.lt_succ_self n) hi] at hclears
    cases hclears
  · refine latest_congr fun i hi => ?_
    have hkept : (∀ k < n + 1, i < k → c.clears (es k) = false) ↔
        ∀ k < n, i < k → c.clears (es k) = false := by
      rw [Nat.forall_lt_succ_right]
      exact and_iff_left fun _ => Bool.eq_false_iff.mpr hclears
    rw [effective?, effective?]
    simp only [hkept]

theorem lastLoad?_disabled {n : Nat} (h : c.enabled es n = false) : c.lastLoad? es n = none := by
  induction n with
  | zero => rfl
  | succ n ih =>
    rw [enabled, register_before_succ] at h
    rw [lastLoad?_succ]
    cases hwrite : (es n).written? 0x4015 with
    | none =>
      rw [hwrite, Option.getD_none] at h
      have hbefore : c.enabled es n = false := h
      rw [hbefore, ih hbefore, ite_self]
      rfl
    | some v =>
      rw [hwrite, Option.getD_some] at h
      have hload : (es n).written? c.load = none :=
        Event.written?_of_ne hwrite c.load_ne_enable.symm
      rw [loads?, clears, hload, hwrite, ite_self, Option.any_some, h]
      rfl

/-- The counter starts at what the last effective load gave it, and goes down with every half frame
that is counted. -/
theorem value_history : (c.length (history es n)).value =
    (c.lastLoad? es n).elim 0 fun load =>
      loaded load.2 - countAfter (fun k => c.counts es k = true) load.1 n := by
  induction n with
  | zero => cases c <;> rfl
  | succ n ih =>
    rw [history_succ, value_after, enabled_history, halt_history, ih, lastLoad?_succ, ← counts]
    cases c.loads? (c.enabled es n) (es n) with
    | some v => simp [countAfter_start]
    | none =>
      cases c.clears (es n) with
      | true => rfl
      | false =>
        cases hload : c.lastLoad? es n with
        | none => simp
        | some load =>
          have hlt : load.1 < n := c.lastLoad?_lt es hload
          simp [countAfter_succ _ hlt, Nat.sub_sub]

end Run

theorem has_status (s : Apu) (c : Channel) :
    Byte.has s.status c.statusBit = decide (0 < (c.length s).value) := by
  have hbits : ∀ p q t n d f i : Bool,
      let v : UInt8 := (if p then 0x01 else 0) ||| (if q then 0x02 else 0) |||
        (if t then 0x04 else 0) ||| (if n then 0x08 else 0) ||| (if d then 0x10 else 0) |||
        (if f then 0x40 else 0) ||| (if i then 0x80 else 0)
      Byte.has v 0x01 = p ∧ Byte.has v 0x02 = q ∧ Byte.has v 0x04 = t ∧ Byte.has v 0x08 = n := by
    decide
  have hactive (l : LengthCounter) : l.active = decide (0 < l.value) := by
    rw [LengthCounter.active, Bool.eq_iff_iff, bne_iff_ne, decide_eq_true_eq, Nat.pos_iff_ne_zero]
  obtain ⟨hpulse1, hpulse2, htriangle, hnoise⟩ := hbits s.pulse1.length.active
    s.pulse2.length.active s.triangle.length.active s.noise.length.active s.dmc.active
    s.sequencer.irq s.dmc.irq
  rw [← hactive]
  cases c
  · exact hpulse1
  · exact hpulse2
  · exact htriangle
  · exact hnoise

/-- A length counter holds what the last load that is still in effect gave it, less the half frames
since then that found the channel not halted, and nothing without such a load. The status shows
whether it is positive; it never is while the channel is disabled. -/
theorem counts_half_frames (es : Nat → Event) (c : Channel) (n : Nat) :
    (c.length (history es n)).value = ((c.lastLoad? es n).elim 0 fun load =>
      loaded load.2 - countAfter (fun k => c.counts es k = true) load.1 n) ∧
    (Byte.has (history es n).status c.statusBit = true ↔ 0 < (c.length (history es n)).value) ∧
    (c.enabled es n = false → Byte.has (history es n).status c.statusBit = false) := by
  refine ⟨c.value_history es n, ?_, ?_⟩
  · rw [has_status, decide_eq_true_eq]
  · intro hdisabled
    rw [has_status, value_history, c.lastLoad?_disabled es hdisabled]
    rfl

/-- A pulse channel that is loaded with ten, and clocked at once by a change into five steps. -/
theorem counts_half_frames_once :
    let es : Nat → Event
      | 0 => .write 0x4015 0x01
      | 1 => .write 0x4003 0x00
      | 2 => .write 0x4017 0x80
      | _ => .clock
    (pulse1.length (history es 6)).value = 9 ∧ Byte.has (history es 6).status 0x01 = true ∧
      Byte.has (history es 6).status 0x02 = false := by
  intro es
  obtain ⟨hvalue, hstatus, -⟩ := counts_half_frames es pulse1 6
  obtain ⟨-, -, hdisabled⟩ := counts_half_frames es pulse2 6
  have hnine : (pulse1.length (history es 6)).value = 9 := hvalue.trans (by decide)
  exact ⟨hnine, hstatus.mpr (by rw [hnine]; decide), hdisabled (by decide)⟩

end Channel

end Famicom.Apu
