import Famicom.Proofs.Apu.Events
import Famicom.Proofs.Apu.FrameCycle
import Famicom.Proofs.Apu.SampleBytes

/-! The bounds on the fields of the sound unit. A register may be written between any two cycles and
a table looked up with any of its entries, so each field is bounded by what may be written to it, or
by what a table has to offer, and not by what else is in the channel; only a sweep looks at its
target before it takes it for a period. -/
namespace Famicom.Apu

/-! The units that the channels share. -/

namespace Envelope

structure Bounded (e : Envelope) : Prop where
  volume_le : e.volume ≤ 15
  divider_le : e.divider ≤ 15
  decay_le : e.decay ≤ 15

namespace Bounded
variable {e : Envelope}

theorem write (h : e.Bounded) (v : UInt8) : (e.write v).Bounded :=
  ⟨Nat.le_of_lt_succ (Nat.mod_lt _ (by decide)), h.divider_le, h.decay_le⟩

theorem restart (h : e.Bounded) : e.restart.Bounded := ⟨h.volume_le, h.divider_le, h.decay_le⟩

theorem clock (h : e.Bounded) : e.clock.Bounded := by
  have hdecay : (if e.decay ≠ 0 then e.decay - 1 else if e.loop then 15 else 0) ≤ 15 := by
    have := h.decay_le
    split_ifs <;> omega
  unfold Envelope.clock
  generalize (if e.decay ≠ 0 then e.decay - 1 else if e.loop then 15 else 0) = decay at hdecay ⊢
  dsimp only
  split_ifs
  · exact ⟨h.volume_le, h.volume_le, Nat.le_refl _⟩
  · exact ⟨h.volume_le, Nat.le_trans (Nat.sub_le _ _) h.divider_le, h.decay_le⟩
  · exact ⟨h.volume_le, h.volume_le, hdecay⟩

theorem output_le (h : e.Bounded) : e.output ≤ 15 := by
  unfold output
  split_ifs
  · exact h.volume_le
  · exact h.decay_le

end Bounded
end Envelope

namespace LengthCounter
variable {l : LengthCounter}

theorem table_le : ∀ i : Fin 32, table[i] ≤ 254 := by decide

theorem setEnabled_le (h : l.value ≤ 254) (on : Bool) : (l.setEnabled on).value ≤ 254 := by
  cases on
  · exact Nat.zero_le _
  · exact h

theorem load_le (h : l.value ≤ 254) (index : Nat) : (l.load index).value ≤ 254 := by
  unfold load
  split_ifs
  · exact table_le ⟨index % 32, Nat.mod_lt _ (by decide)⟩
  · exact h

theorem clock_le (h : l.value ≤ 254) : l.clock.value ≤ 254 := by
  unfold clock
  split_ifs
  · exact h
  · exact Nat.le_trans (Nat.sub_le _ _) h

end LengthCounter

theorem period_low_le {period : Nat} (h : period ≤ 0x7FF) (v : UInt8) :
    period / 256 * 256 + v.toNat ≤ 0x7FF := by
  have := v.toNat_lt
  omega

theorem period_high_le (period : Nat) (v : UInt8) :
    period % 256 + v.toNat % 8 * 256 ≤ 0x7FF := by
  omega

/-! The pulse channels. -/

namespace Sweep

structure Bounded (s : Sweep) : Prop where
  period_le : s.period ≤ 7
  shift_le : s.shift ≤ 7
  divider_le : s.divider ≤ 7

namespace Bounded
variable {s : Sweep}

theorem write (h : s.Bounded) (v : UInt8) : (s.write v).Bounded :=
  ⟨Nat.le_of_lt_succ (Nat.mod_lt _ (by decide)), Nat.le_of_lt_succ (Nat.mod_lt _ (by decide)),
    h.divider_le⟩

theorem clock (h : s.Bounded) : s.clock.Bounded := by
  unfold Sweep.clock
  split_ifs
  · exact ⟨h.period_le, h.shift_le, h.period_le⟩
  · exact ⟨h.period_le, h.shift_le, Nat.le_trans (Nat.sub_le _ _) h.divider_le⟩

end Bounded
end Sweep

namespace Pulse

structure Bounded (p : Pulse) : Prop where
  duty_le : p.duty ≤ 3
  step_le : p.step ≤ 7
  period_le : p.period ≤ 0x7FF
  timer_le : p.timer ≤ 0x7FF
  length_le : p.length.value ≤ 254
  envelope : p.envelope.Bounded
  sweep : p.sweep.Bounded

namespace Bounded
variable {p : Pulse}

theorem write (h : p.Bounded) (register : UInt16) (v : UInt8) : (p.write register v).Bounded := by
  unfold Pulse.write
  split
  · have hduty : v.toNat / 64 ≤ 3 := by
      have := v.toNat_lt
      omega
    exact { h with duty_le := hduty, envelope := h.envelope.write v }
  · exact { h with sweep := h.sweep.write v }
  · exact { h with period_le := period_low_le h.period_le v }
  · exact { h with
      period_le := period_high_le p.period v
      length_le := LengthCounter.load_le h.length_le _
      envelope := h.envelope.restart
      step_le := Nat.zero_le _ }

theorem setEnabled (h : p.Bounded) (on : Bool) :
    { p with length := p.length.setEnabled on }.Bounded :=
  { h with length_le := LengthCounter.setEnabled_le h.length_le on }

theorem clockTimer (h : p.Bounded) : p.clockTimer.Bounded := by
  unfold Pulse.clockTimer
  split_ifs
  · exact { h with
      timer_le := h.period_le, step_le := Nat.le_of_lt_succ (Nat.mod_lt _ (by decide)) }
  · exact { h with timer_le := Nat.le_trans (Nat.sub_le _ _) h.timer_le }

theorem clockQuarter (h : p.Bounded) : p.clockQuarter.Bounded :=
  { h with envelope := h.envelope.clock }

/-- A sweep that is not muted has a target within the range of periods. -/
theorem clockHalf (h : p.Bounded) : p.clockHalf.Bounded := by
  have hperiod : p.clockHalf.period ≤ 0x7FF := by
    unfold Pulse.clockHalf
    dsimp only
    split_ifs with hsweeps
    · simp only [muted, Bool.and_eq_true, Bool.not_eq_true', Bool.or_eq_false_iff,
        decide_eq_false_iff_not, not_lt] at hsweeps
      exact hsweeps.2.2
    · exact h.period_le
  exact { h with
    period_le := hperiod
    length_le := LengthCounter.clock_le h.length_le
    sweep := h.sweep.clock }

theorem output_le (h : p.Bounded) : p.output ≤ 15 := by
  unfold output
  split_ifs
  · exact h.envelope.output_le
  · exact Nat.zero_le _

end Bounded
end Pulse

/-! The triangle channel. -/

namespace Triangle

structure Bounded (t : Triangle) : Prop where
  linearPeriod_le : t.linearPeriod ≤ 127
  linear_le : t.linear ≤ 127
  period_le : t.period ≤ 0x7FF
  timer_le : t.timer ≤ 0x7FF
  step_le : t.step ≤ 31
  length_le : t.length.value ≤ 254

namespace Bounded
variable {t : Triangle}

theorem write (h : t.Bounded) (register : UInt16) (v : UInt8) : (t.write register v).Bounded := by
  unfold Triangle.write
  split
  · exact { h with linearPeriod_le := Nat.le_of_lt_succ (Nat.mod_lt _ (by decide)) }
  · exact h
  · exact { h with period_le := period_low_le h.period_le v }
  · exact { h with
      period_le := period_high_le t.period v
      length_le := LengthCounter.load_le h.length_le _ }

theorem setEnabled (h : t.Bounded) (on : Bool) :
    { t with length := t.length.setEnabled on }.Bounded :=
  { h with length_le := LengthCounter.setEnabled_le h.length_le on }

theorem clockTimer (h : t.Bounded) : t.clockTimer.Bounded := by
  have hstep : (if t.running then (t.step + 1) % 32 else t.step) ≤ 31 := by
    split_ifs
    · exact Nat.le_of_lt_succ (Nat.mod_lt _ (by decide))
    · exact h.step_le
  unfold Triangle.clockTimer
  generalize (if t.running then (t.step + 1) % 32 else t.step) = step at hstep ⊢
  split_ifs
  · exact { h with timer_le := h.period_le, step_le := hstep }
  · exact { h with timer_le := Nat.le_trans (Nat.sub_le _ _) h.timer_le }

theorem clockQuarter (h : t.Bounded) : t.clockQuarter.Bounded := by
  have hlinear : t.clockQuarter.linear ≤ 127 := by
    simp only [Triangle.clockQuarter]
    split_ifs
    · exact h.linearPeriod_le
    · exact Nat.le_trans (Nat.sub_le _ _) h.linear_le
  exact { h with linear_le := hlinear }

theorem clockHalf (h : t.Bounded) : t.clockHalf.Bounded :=
  { h with length_le := LengthCounter.clock_le h.length_le }

theorem output_le (h : t.Bounded) : t.output ≤ 15 := by
  have := h.step_le
  unfold output
  split_ifs <;> omega

end Bounded
end Triangle

/-! The noise channel. -/

namespace Noise

structure Bounded (n : Noise) : Prop where
  period_ge : 4 ≤ n.period
  period_le : n.period ≤ 4068
  timer_le : n.timer ≤ 4067
  shift_ge : 1 ≤ n.shift.toNat
  shift_le : n.shift.toNat ≤ 0x7FFF
  length_le : n.length.value ≤ 254
  envelope : n.envelope.Bounded

theorem periods_bounds : ∀ i : Fin 16, 4 ≤ periods[i] ∧ periods[i] ≤ 4068 := by decide

theorem toNat_feed (short : Bool) {s : UInt16} (h : s.toNat ≤ 0x7FFF) :
    ∃ bit ≤ 1, (feed short s).toNat = s.toNat / 2 + bit * 2 ^ 14 ∧ (s = 1 → bit = 1) := by
  unfold feed
  generalize htap : (if short then s >>> 6 else s >>> 1) = tap
  refine ⟨(s ^^^ tap).toNat % 2, by omega, ?_, ?_⟩
  · have hbit : ((s ^^^ tap) &&& 1).toNat = (s ^^^ tap).toNat % 2 := by
      rw [UInt16.toNat_and]
      exact Nat.and_one_is_mod _
    have hhigh : ((s ^^^ tap).toNat % 2) * 2 ^ 14 < 2 ^ 16 := by omega
    have hlow : s.toNat / 2 < 2 ^ 14 := by omega
    calc (s >>> 1 ||| ((s ^^^ tap) &&& 1) <<< (14 : UInt16)).toNat
        = s.toNat >>> 1 ||| ((s ^^^ tap) &&& 1).toNat <<< 14 % 2 ^ 16 := by
          rw [UInt16.toNat_or, UInt16.toNat_shiftLeft, UInt16.toNat_shiftRight]
          rfl
      _ = s.toNat / 2 ||| ((s ^^^ tap).toNat % 2) <<< 14 := by
          rw [hbit, Nat.shiftLeft_eq, Nat.mod_eq_of_lt hhigh, Nat.shiftRight_eq_div_pow,
            Nat.pow_one]
      _ = s.toNat / 2 + ((s ^^^ tap).toNat % 2) * 2 ^ 14 := by
          rw [Nat.or_comm, ← Nat.shiftLeft_add_eq_or_of_lt hlow, Nat.shiftLeft_eq, Nat.add_comm]
  · rintro rfl
    subst htap
    cases short <;> rfl

/-- A register with no other bit than the lowest feeds that one back, so it is never emptied. -/
theorem feed_bounds (short : Bool) {s : UInt16} (hge : 1 ≤ s.toNat) (hle : s.toNat ≤ 0x7FFF) :
    1 ≤ (feed short s).toNat ∧ (feed short s).toNat ≤ 0x7FFF := by
  obtain ⟨bit, hbit, hfeed, hone⟩ := toNat_feed short hle
  rw [hfeed]
  refine ⟨?_, by omega⟩
  by_cases hs : s.toNat = 1
  · rw [hone (UInt16.toNat_inj.mp hs)]
    omega
  · omega

namespace Bounded
variable {n : Noise}

theorem write (h : n.Bounded) (register : UInt16) (v : UInt8) : (n.write register v).Bounded := by
  unfold Noise.write
  split
  · exact { h with envelope := h.envelope.write v }
  · exact h
  · have hperiod := periods_bounds ⟨v.toNat % 16, Nat.mod_lt _ (by decide)⟩
    exact { h with period_ge := hperiod.1, period_le := hperiod.2 }
  · exact { h with
      length_le := LengthCounter.load_le h.length_le _
      envelope := h.envelope.restart }

theorem setEnabled (h : n.Bounded) (on : Bool) :
    { n with length := n.length.setEnabled on }.Bounded :=
  { h with length_le := LengthCounter.setEnabled_le h.length_le on }

theorem clockTimer (h : n.Bounded) : n.clockTimer.Bounded := by
  have hfeed := feed_bounds n.short h.shift_ge h.shift_le
  unfold Noise.clockTimer
  split_ifs
  · exact { h with
      timer_le := Nat.sub_le_sub_right h.period_le 1, shift_ge := hfeed.1, shift_le := hfeed.2 }
  · exact { h with timer_le := Nat.le_trans (Nat.sub_le _ _) h.timer_le }

theorem clockQuarter (h : n.Bounded) : n.clockQuarter.Bounded :=
  { h with envelope := h.envelope.clock }

theorem clockHalf (h : n.Bounded) : n.clockHalf.Bounded :=
  { h with length_le := LengthCounter.clock_le h.length_le }

theorem output_le (h : n.Bounded) : n.output ≤ 15 := by
  unfold output
  split_ifs
  · exact h.envelope.output_le
  · exact Nat.zero_le _

end Bounded
end Noise

/-! The delta channel. -/

namespace Dmc

structure Bounded (d : Dmc) : Prop where
  period_ge : 54 ≤ d.period
  period_le : d.period ≤ 428
  timer_le : d.timer ≤ 427
  level_le : d.level ≤ 127
  sampleAddress_ge : 0xC000 ≤ d.sampleAddress.toNat
  sampleLength_le : d.sampleLength ≤ 0xFF1
  address_ge : 0x8000 ≤ d.address.toNat
  remaining_le : d.remaining ≤ 0xFF1
  bits_ge : 1 ≤ d.bits
  bits_le : d.bits ≤ 8

theorem periods_bounds : ∀ i : Fin 16, 54 ≤ periods[i] ∧ periods[i] ≤ 428 := by decide

theorem toNat_sampleAddress (v : UInt8) :
    (0xC000 ||| v.toUInt16 <<< (6 : UInt16) : UInt16).toNat = 0xC000 + 64 * v.toNat := by
  have hv := v.toNat_lt
  have hor := Nat.shiftLeft_add_eq_or_of_lt (show v.toNat * 64 < 2 ^ 14 by omega) 3
  simp [Nat.shiftLeft_eq]
  rw [Nat.mod_eq_of_lt (by omega)]
  simp at hor
  omega

theorem toNat_next (a : UInt16) : (if a = 0xFFFF then 0x8000 else a + 1 : UInt16).toNat =
    if a.toNat = 0xFFFF then 0x8000 else a.toNat + 1 := by
  have ha := a.toNat_lt
  have hiff : a = 0xFFFF ↔ a.toNat = 0xFFFF := UInt16.toNat_inj.symm
  simp only [hiff]
  split_ifs with hlast
  · rfl
  · rw [UInt16.toNat_add]
    simp
    omega

namespace Bounded
variable {d : Dmc}

theorem write (h : d.Bounded) (register : UInt16) (v : UInt8) : (d.write register v).Bounded := by
  unfold Dmc.write
  have hv := v.toNat_lt
  split
  · have hperiod := periods_bounds ⟨v.toNat % 16, Nat.mod_lt _ (by decide)⟩
    exact { h with period_ge := hperiod.1, period_le := hperiod.2 }
  · exact { h with level_le := Nat.le_of_lt_succ (Nat.mod_lt _ (by decide)) }
  · refine { h with sampleAddress_ge := ?_ }
    rw [toNat_sampleAddress]
    exact Nat.le_add_right _ _
  · have hlength : v.toNat * 16 + 1 ≤ 0xFF1 := by omega
    exact { h with sampleLength_le := hlength }

theorem restart (h : d.Bounded) : d.restart.Bounded :=
  { h with
    address_ge := Nat.le_trans (by decide) h.sampleAddress_ge
    remaining_le := h.sampleLength_le }

theorem setEnabled (h : d.Bounded) (on : Bool) : (d.setEnabled on).Bounded := by
  have hoff : { d with irq := false }.Bounded := { h with }
  unfold Dmc.setEnabled
  dsimp only
  split_ifs
  · exact { h with remaining_le := Nat.zero_le _ }
  · exact hoff.restart
  · exact hoff

theorem deliver (h : d.Bounded) (v : UInt8) : (d.deliver v).Bounded := by
  have hnext : 0x8000 ≤ (if d.address = 0xFFFF then 0x8000 else d.address + 1 : UInt16).toNat := by
    have := h.address_ge
    rw [toNat_next]
    split_ifs <;> omega
  unfold Dmc.deliver
  generalize (if d.address = 0xFFFF then 0x8000 else d.address + 1) = address at hnext ⊢
  have htaken : { d with
      buffer := v, bufferEmpty := false, address, remaining := d.remaining - 1 }.Bounded :=
    { h with address_ge := hnext, remaining_le := Nat.le_trans (Nat.sub_le _ _) h.remaining_le }
  dsimp only
  split_ifs
  · exact htaken
  · exact htaken.restart
  · exact { htaken with }
  · exact h

theorem clockTimer (h : d.Bounded) : d.clockTimer.Bounded := by
  have hlevel : (if d.silent then d.level else nudge d.level (Byte.has d.shift 1)) ≤ 127 := by
    split_ifs
    · exact h.level_le
    · exact nudge_le h.level_le _
  have htimer : d.period - 1 ≤ 427 := Nat.sub_le_sub_right h.period_le 1
  have hbits := h.bits_le
  unfold Dmc.clockTimer
  generalize (if d.silent then d.level else nudge d.level (Byte.has d.shift 1)) = level
    at hlevel ⊢
  dsimp only
  split_ifs with _ hmore
  · exact { h with timer_le := Nat.le_trans (Nat.sub_le _ _) h.timer_le }
  · exact { h with
      timer_le := htimer, level_le := hlevel
      bits_ge := Nat.pos_of_ne_zero hmore, bits_le := Nat.le_trans (Nat.sub_le _ _) hbits }
  all_goals exact { h with
      timer_le := htimer, level_le := hlevel
      bits_ge := Nat.succ_le_succ (Nat.zero_le 7), bits_le := Nat.le_refl 8 }

end Bounded
end Dmc

/-! The sequencer. -/

namespace Sequencer

structure Bounded (s : Sequencer) : Prop where
  counter_lt : s.counter < s.limit
  delay_le : s.delay ≤ 3

theorem delay_clock (s : Sequencer) : s.clock.2.delay = s.delay - 1 := by
  by_cases h : s.delay = 1
  · rw [clock_due h, h]
  · exact (clock_delayed h).1

namespace Bounded
variable {s : Sequencer}

theorem write (h : s.Bounded) (v : UInt8) : (s.write v).Bounded := ⟨h.counter_lt, Nat.le_refl _⟩

theorem acknowledge (h : s.Bounded) : { s with irq := false }.Bounded := { h with }

theorem clock (h : s.Bounded) : s.clock.2.Bounded := by
  refine ⟨counter_after h.counter_lt .clock, ?_⟩
  rw [delay_clock]
  exact Nat.le_trans (Nat.sub_le _ _) h.delay_le

end Bounded
end Sequencer

/-! The unit as a whole. -/

structure WellFormed (s : Apu) : Prop where
  pulse1 : s.pulse1.Bounded
  pulse2 : s.pulse2.Bounded
  triangle : s.triangle.Bounded
  noise : s.noise.Bounded
  dmc : s.dmc.Bounded
  sequencer : s.sequencer.Bounded

namespace WellFormed
variable {s : Apu}

theorem write (h : s.WellFormed) (a : UInt16) (v : UInt8) : (s.write a v).WellFormed := by
  unfold Apu.write
  split_ifs
  · exact h
  · exact { h with pulse1 := h.pulse1.write _ v }
  · exact { h with pulse2 := h.pulse2.write _ v }
  · exact { h with triangle := h.triangle.write _ v }
  · exact { h with noise := h.noise.write _ v }
  · exact { h with dmc := h.dmc.write _ v }
  · exact {
      pulse1 := h.pulse1.setEnabled _
      pulse2 := h.pulse2.setEnabled _
      triangle := h.triangle.setEnabled _
      noise := h.noise.setEnabled _
      dmc := h.dmc.setEnabled _
      sequencer := h.sequencer }
  · exact { h with sequencer := h.sequencer.write v }
  · exact h

theorem clockQuarter (h : s.WellFormed) : s.clockQuarter.WellFormed :=
  { h with
    pulse1 := h.pulse1.clockQuarter
    pulse2 := h.pulse2.clockQuarter
    triangle := h.triangle.clockQuarter
    noise := h.noise.clockQuarter }

theorem clockHalf (h : s.WellFormed) : s.clockHalf.WellFormed :=
  { h with
    pulse1 := h.pulse1.clockHalf
    pulse2 := h.pulse2.clockHalf
    triangle := h.triangle.clockHalf
    noise := h.noise.clockHalf }

theorem clockFrame (h : s.WellFormed) (frame : FrameClock) : (s.clockFrame frame).WellFormed := by
  unfold Apu.clockFrame
  dsimp only
  split_ifs
  · exact h.clockQuarter.clockHalf
  · exact h.clockHalf
  · exact h.clockQuarter
  · exact h

theorem clockTimers (h : s.WellFormed) : s.clockTimers.WellFormed := by
  have hothers : { s with
      triangle := s.triangle.clockTimer
      noise := s.noise.clockTimer
      dmc := s.dmc.clockTimer
      oddCycle := !s.oddCycle }.WellFormed :=
    { h with
      triangle := h.triangle.clockTimer
      noise := h.noise.clockTimer
      dmc := h.dmc.clockTimer }
  unfold Apu.clockTimers
  dsimp only
  split_ifs
  · exact { hothers with pulse1 := h.pulse1.clockTimer, pulse2 := h.pulse2.clockTimer }
  · exact hothers

theorem clock (h : s.WellFormed) : s.clock.WellFormed := by
  have hsequencer : { s with sequencer := s.sequencer.clock.2 }.WellFormed :=
    { h with sequencer := h.sequencer.clock }
  exact (hsequencer.clockFrame _).clockTimers

theorem after (h : s.WellFormed) (e : Event) : (s.after e).WellFormed := by
  cases e with
  | write a v => exact h.write a v
  | clock => exact h.clock
  | readStatus => exact { h with sequencer := h.sequencer.acknowledge }
  | deliver v => exact { h with dmc := h.dmc.deliver v }
  | takeSample => exact { h with }

end WellFormed

theorem wellFormed_init : ({} : Apu).WellFormed := by
  have henvelope : ({} : Envelope).Bounded := ⟨by decide, by decide, by decide⟩
  have hsweep : ({} : Sweep).Bounded := ⟨by decide, by decide, by decide⟩
  have hpulse (onesComplement : Bool) : ({ onesComplement } : Pulse).Bounded := by
    refine ⟨?_, ?_, ?_, ?_, ?_, henvelope, hsweep⟩ <;> exact Nat.zero_le _
  refine ⟨hpulse true, hpulse false, ?_, ?_, ?_, ?_⟩
  · constructor <;> decide
  · exact ⟨by decide, by decide, by decide, by decide, by decide, by decide, henvelope⟩
  · constructor <;> decide
  · constructor <;> decide

theorem wellFormed_run (es : List Event) : (run {} es).WellFormed := by
  induction es using List.reverseRecOn with
  | nil => exact wellFormed_init
  | append_singleton es e ih =>
    rw [run_snoc]
    exact ih.after e

end Famicom.Apu
