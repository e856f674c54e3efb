import Famicom.Proofs.Apu.WellFormed
import Famicom.Proofs.Strict

/-! The sound unit never faults. Each of its steps stands here a second time, with every sum and
difference held to the width of its word and every table looked up within its size; a difference
that stops at zero by design stays as it is. Within the bounds of the fields none of the checks
fails, and the second step is the first. -/
namespace Famicom

namespace Strict

/-- A shift by the width of the word or more is a fault. -/
def shr (bits a n : Nat) : Strict Nat :=
  if n < bits then .ok (a >>> n) else .error .overflow

theorem shr_ok {bits a n : Nat} (h : n < bits) : shr bits a n = .ok (a >>> n) := if_pos h

theorem pred_ok {a : Nat} (h : a ≠ 0) : sub a 1 = .ok (a - 1) := sub_ok (Nat.pos_of_ne_zero h)

end Strict

namespace Apu

/-- Each channel has four registers, and takes any other number for the last. -/
theorem register_cases (r : UInt16) : r = 0 ∨ r = 1 ∨ r = 2 ∨ r ≠ 0 ∧ r ≠ 1 ∧ r ≠ 2 := by
  tauto

/-! The units that the channels share. -/

namespace Envelope

def strictClock (e : Envelope) : Strict Envelope :=
  if e.start then pure { e with start := false, decay := 15, divider := e.volume }
  else if e.divider ≠ 0 then do
    let divider ← Strict.sub e.divider 1
    pure { e with divider }
  else do
    let decay ← (if e.decay ≠ 0 then Strict.sub e.decay 1 else pure (if e.loop then 15 else 0))
    pure { e with divider := e.volume, decay }

theorem strictClock_ok (e : Envelope) : e.strictClock = .ok e.clock := by
  unfold strictClock clock
  split_ifs with hstart hdivider hdecay
  · rfl
  · rw [Strict.pred_ok hdivider]
    rfl
  · rw [Strict.pred_ok hdecay]
    rfl
  · rfl
  · rfl

end Envelope

namespace LengthCounter

def strictLoad (l : LengthCounter) (index : Nat) : Strict LengthCounter :=
  if l.enabled then do
    let value ← Strict.get table (index % 32)
    pure { l with value }
  else pure l

def strictClock (l : LengthCounter) : Strict LengthCounter :=
  if !l.halt && l.value != 0 then do
    let value ← Strict.sub l.value 1
    pure { l with value }
  else pure l

theorem strictLoad_ok (l : LengthCounter) (index : Nat) :
    l.strictLoad index = .ok (l.load index) := by
  rw [strictLoad, Strict.get_ok _ (Nat.mod_lt _ (by decide)), load]
  split_ifs <;> rfl

theorem strictClock_ok (l : LengthCounter) : l.strictClock = .ok l.clock := by
  obtain ⟨enabled, halt, value⟩ := l
  cases halt with
  | true => rfl
  | false =>
    cases value with
    | zero => rfl
    | succ value =>
      simp only [strictClock, Strict.pred_ok (Nat.succ_ne_zero value)]
      rfl

end LengthCounter

/-! The pulse channels. -/

def Sweep.strictClock (s : Sweep) : Strict Sweep :=
  if s.divider = 0 || s.reload then pure { s with divider := s.period, reload := false }
  else do
    let divider ← Strict.sub s.divider 1
    pure { s with divider }

theorem Sweep.strictClock_ok (s : Sweep) : s.strictClock = .ok s.clock := by
  unfold Sweep.strictClock Sweep.clock
  split_ifs with h
  · rfl
  · simp only [Bool.or_eq_true, decide_eq_true_eq, not_or] at h
    rw [Strict.pred_ok h.1]
    rfl

namespace Pulse

def duties : Vector (Vector Bool 8) 4 := waveforms.map fun w => Vector.ofFn fun i => w.testBit i

def strictWrite (p : Pulse) (register : UInt16) (v : UInt8) : Strict Pulse :=
  match register with
  | 0 | 1 | 2 => pure (p.write register v)
  | _ => do
    let length ← p.length.strictLoad (v.toNat / 8)
    pure { p with
      period := p.period % 256 + v.toNat % 8 * 256
      length
      envelope := p.envelope.restart
      step := 0 }

def strictClockTimer (p : Pulse) : Strict Pulse :=
  if p.timer = 0 then do
    let step ← Strict.add 8 p.step 1
    pure { p with timer := p.period, step := step % 8 }
  else do
    let timer ← Strict.sub p.timer 1
    pure { p with timer }

def strictClockQuarter (p : Pulse) : Strict Pulse := do
  let envelope ← p.envelope.strictClock
  pure { p with envelope }

def strictTarget (p : Pulse) : Strict Nat := do
  let change ← Strict.shr 16 p.period p.sweep.shift
  if p.sweep.negate then do
    let change ← (if p.onesComplement then Strict.add 16 change 1 else pure change)
    pure (p.period - change)
  else Strict.add 16 p.period change

def strictMuted (p : Pulse) : Strict Bool :=
  if p.period < 8 then pure true
  else do
    let target ← p.strictTarget
    pure (0x07FF < target)

def strictClockHalf (p : Pulse) : Strict Pulse := do
  let length ← p.length.strictClock
  let period ← (if p.sweep.divider == 0 && p.sweep.enabled && p.sweep.shift != 0 then do
      let muted ← p.strictMuted
      if muted then pure p.period else p.strictTarget
    else pure p.period)
  let sweep ← p.sweep.strictClock
  pure { p with period, length, sweep }

def strictHigh (p : Pulse) : Strict Bool := do
  let steps ← Strict.get duties p.duty
  Strict.get steps p.step

def strictOutput (p : Pulse) : Strict Nat :=
  if !p.length.active then pure 0
  else do
    let muted ← p.strictMuted
    if muted then pure 0
    else do
      let high ← p.strictHigh
      pure (if high then p.envelope.output else 0)

section Bounded
variable {p : Pulse}

theorem strictWrite_ok (p : Pulse) (register : UInt16) (v : UInt8) :
    p.strictWrite register v = .ok (p.write register v) := by
  obtain rfl | rfl | rfl | ⟨h0, h1, h2⟩ := register_cases register
  · rfl
  · rfl
  · rfl
  · rw [strictWrite.eq_4 _ _ _ h0 h1 h2, write.eq_4 _ _ _ h0 h1 h2, LengthCounter.strictLoad_ok]
    rfl

theorem strictClockTimer_ok (h : p.Bounded) : p.strictClockTimer = .ok p.clockTimer := by
  have hstep := h.step_le
  unfold strictClockTimer clockTimer
  split_ifs with htimer
  · rw [Strict.add_ok (by omega)]
    rfl
  · rw [Strict.pred_ok htimer]
    rfl

theorem strictClockQuarter_ok (p : Pulse) : p.strictClockQuarter = .ok p.clockQuarter := by
  rw [strictClockQuarter, Envelope.strictClock_ok]
  rfl

theorem strictTarget_ok (h : p.Bounded) : p.strictTarget = .ok p.target := by
  have hshift := h.sweep.shift_le
  have hperiod := h.period_le
  have hchange : p.period >>> p.sweep.shift ≤ p.period := Nat.shiftRight_le _ _
  rw [strictTarget, Strict.shr_ok (by omega), Strict.ok_bind, Strict.add_ok (by omega),
    Strict.add_ok (by omega), target]
  split_ifs <;> rfl

theorem strictMuted_ok (h : p.Bounded) : p.strictMuted = .ok p.muted := by
  rw [strictMuted, strictTarget_ok h, muted]
  split_ifs with hperiod
  · rw [decide_eq_true hperiod]
    rfl
  · rw [decide_eq_false hperiod]
    rfl

theorem strictClockHalf_ok (h : p.Bounded) : p.strictClockHalf = .ok p.clockHalf := by
  rw [strictClockHalf, LengthCounter.strictClock_ok, strictMuted_ok h, strictTarget_ok h,
    Sweep.strictClock_ok, clockHalf]
  cases p.sweep.divider == 0 && p.sweep.enabled && p.sweep.shift != 0
  · rfl
  · cases p.muted <;> rfl

theorem strictHigh_ok (h : p.Bounded) : p.strictHigh = .ok p.high := by
  have hduty : p.duty < 4 := Nat.lt_succ_of_le h.duty_le
  have hstep : p.step < 8 := Nat.lt_succ_of_le h.step_le
  rw [strictHigh, Strict.get_ok _ hduty, Strict.ok_bind, Strict.get_ok _ hstep]
  simp only [duties, high, Vector.getElem_map, Vector.getElem_ofFn, Nat.mod_eq_of_lt hduty]

theorem strictOutput_ok (h : p.Bounded) : p.strictOutput = .ok p.output := by
  rw [strictOutput, strictMuted_ok h, strictHigh_ok h, output]
  cases p.length.active
  · rfl
  · cases p.muted
    · cases p.high <;> rfl
    · rfl

end Bounded
end Pulse

/-! The triangle channel. -/

namespace Triangle

def ramp : Vector Nat 32 := Vector.ofFn fun i => if i.val < 16 then 15 - i else i - 16

def strictWrite (t : Triangle) (register : UInt16) (v : UInt8) : Strict Triangle :=
  match register with
  | 0 | 1 | 2 => pure (t.write register v)
  | _ => do
    let length ← t.length.strictLoad (v.toNat / 8)
    pure { t with
      period := t.period % 256 + v.toNat % 8 * 256
      length
      linearReload := true }

def strictClockTimer (t : Triangle) : Strict Triangle :=
  if t.timer = 0 then
    if t.running then do
      let step ← Strict.add 8 t.step 1
      pure { t with timer := t.period, step := step % 32 }
    else pure { t with timer := t.period }
  else do
    let timer ← Strict.sub t.timer 1
    pure { t with timer }

def strictClockQuarter (t : Triangle) : Strict Triangle := do
  let linear ← (if t.linearReload then pure t.linearPeriod
    else if t.linear ≠ 0 then Strict.sub t.linear 1
    else pure t.linear)
  pure { t with linear, linearReload := t.linearReload && t.control }

def strictClockHalf (t : Triangle) : Strict Triangle := do
  let length ← t.length.strictClock
  pure { t with length }

def strictOutput (t : Triangle) : Strict Nat := Strict.get ramp t.step

section Bounded
variable {t : Triangle}

theorem strictWrite_ok (t : Triangle) (register : UInt16) (v : UInt8) :
    t.strictWrite register v = .ok (t.write register v) := by
  obtain rfl | rfl | rfl | ⟨h0, h1, h2⟩ := register_cases register
  · rfl
  · rfl
  · rfl
  · rw [strictWrite.eq_4 _ _ _ h0 h1 h2, write.eq_4 _ _ _ h0 h1 h2, LengthCounter.strictLoad_ok]
    rfl

theorem strictClockTimer_ok (h : t.Bounded) : t.strictClockTimer = .ok t.clockTimer := by
  have hstep := h.step_le
  unfold strictClockTimer clockTimer
  split_ifs with htimer hrunning
  · rw [Strict.add_ok (by omega)]
    rfl
  · rfl
  · rw [Strict.pred_ok htimer]
    rfl

theorem strictClockQuarter_ok (t : Triangle) : t.strictClockQuarter = .ok t.clockQuarter := by
  unfold strictClockQuarter clockQuarter
  split_ifs with hreload hlinear
  · rfl
  · rw [Strict.pred_ok hlinear]
    rfl
  · rw [not_not.mp hlinear]
    rfl

theorem strictClockHalf_ok (t : Triangle) : t.strictClockHalf = .ok t.clockHalf := by
  rw [strictClockHalf, LengthCounter.strictClock_ok]
  rfl

theorem strictOutput_ok (h : t.Bounded) : t.strictOutput = .ok t.output := by
  have hstep : t.step < 32 := Nat.lt_succ_of_le h.step_le
  rw [strictOutput, Strict.get_ok _ hstep, ramp, Vector.getElem_ofFn]
  rfl

end Bounded
end Triangle

/-! The noise channel. -/

namespace Noise

def strictWrite (n : Noise) (register : UInt16) (v : UInt8) : Strict Noise :=
  match register with
  | 0 | 1 => pure (n.write register v)
  | 2 => do
    let period ← Strict.get periods (v.toNat % 16)
    pure { n with short := Byte.has v 0x80, period }
  | _ => do
    let length ← n.length.strictLoad (v.toNat / 8)
    pure { n with length, envelope := n.envelope.restart }

def strictClockTimer (n : Noise) : Strict Noise :=
  if n.timer = 0 then do
    let timer ← Strict.sub n.period 1
    pure { n with timer, shift := feed n.short n.shift }
  else do
    let timer ← Strict.sub n.timer 1
    pure { n with timer }

def strictClockQuarter (n : Noise) : Strict Noise := do
  let envelope ← n.envelope.strictClock
  pure { n with envelope }

def strictClockHalf (n : Noise) : Strict Noise := do
  let length ← n.length.strictClock
  pure { n with length }

section Bounded
variable {n : Noise}

theorem strictWrite_ok (n : Noise) (register : UInt16) (v : UInt8) :
    n.strictWrite register v = .ok (n.write register v) := by
  obtain rfl | rfl | rfl | ⟨h0, h1, h2⟩ := register_cases register
  · rfl
  · rfl
  · rw [strictWrite, Strict.get_ok _ (Nat.mod_lt _ (by decide))]
    rfl
  · rw [strictWrite.eq_4 _ _ _ h0 h1 h2, write.eq_4 _ _ _ h0 h1 h2, LengthCounter.strictLoad_ok]
    rfl

theorem strictClockTimer_ok (h : n.Bounded) : n.strictClockTimer = .ok n.clockTimer := by
  have hperiod := h.period_ge
  unfold strictClockTimer clockTimer
  split_ifs with htimer
  · rw [Strict.sub_ok (by omega)]
    rfl
  · rw [Strict.pred_ok htimer]
    rfl

theorem strictClockQuarter_ok (n : Noise) : n.strictClockQuarter = .ok n.clockQuarter := by
  rw [strictClockQuarter, Envelope.strictClock_ok]
  rfl

theorem strictClockHalf_ok (n : Noise) : n.strictClockHalf = .ok n.clockHalf := by
  rw [strictClockHalf, LengthCounter.strictClock_ok]
  rfl

end Bounded
end Noise

/-! The delta channel. -/

namespace Dmc

def strictWrite (d : Dmc) (register : UInt16) (v : UInt8) : Strict Dmc :=
  match register with
  | 0 => do
    let period ← Strict.get periods (v.toNat % 16)
    pure { d with
      irqEnabled := Byte.has v 0x80
      loop := Byte.has v 0x40
      period
      irq := d.irq && Byte.has v 0x80 }
  | 1 | 2 => pure (d.write register v)
  | _ => do
    let sampleLength ← Strict.add 16 (v.toNat * 16) 1
    pure { d with sampleLength }

def strictNext (a : UInt16) : Strict UInt16 :=
  if a = 0xFFFF then pure 0x8000
  else do
    let next ← Strict.add 16 a.toNat 1
    pure (UInt16.ofNat next)

def strictDeliver (d : Dmc) (v : UInt8) : Strict Dmc :=
  if d.wants then do
    let address ← strictNext d.address
    let remaining ← Strict.sub d.remaining 1
    let d := { d with buffer := v, bufferEmpty := false, address, remaining }
    pure (if d.remaining ≠ 0 then d
      else if d.loop then d.restart
      else { d with irq := d.irq || d.irqEnabled })
  else pure d

def strictNudge (level : Nat) (up : Bool) : Strict Nat :=
  if up then if level ≤ 125 then Strict.add 8 level 2 else pure level
  else if 2 ≤ level then Strict.sub level 2 else pure level

def strictClockTimer (d : Dmc) : Strict Dmc :=
  if d.timer ≠ 0 then do
    let timer ← Strict.sub d.timer 1
    pure { d with timer }
  else do
    let timer ← Strict.sub d.period 1
    let level ← (if d.silent then pure d.level else strictNudge d.level (Byte.has d.shift 1))
    let bits ← Strict.sub d.bits 1
    let d := { d with timer, level, shift := d.shift >>> 1, bits }
    pure (if d.bits ≠ 0 then d
      else if d.bufferEmpty then { d with bits := 8, silent := true }
      else { d with bits := 8, silent := false, shift := d.buffer, bufferEmpty := true })

section Bounded
variable {d : Dmc}

theorem strictWrite_ok (d : Dmc) (register : UInt16) (v : UInt8) :
    d.strictWrite register v = .ok (d.write register v) := by
  have hv := v.toNat_lt
  obtain rfl | rfl | rfl | ⟨h0, h1, h2⟩ := register_cases register
  · rw [strictWrite, Strict.get_ok _ (Nat.mod_lt _ (by decide))]
    rfl
  · rfl
  · rfl
  · rw [strictWrite.eq_4 _ _ _ h0 h1 h2, write.eq_4 _ _ _ h0 h1 h2, Strict.add_ok (by omega)]
    rfl

theorem strictNext_ok (a : UInt16) :
    strictNext a = .ok (if a = 0xFFFF then 0x8000 else a + 1) := by
  unfold strictNext
  split_ifs with hlast
  · rfl
  · have ha := a.toNat_lt
    have hne : a.toNat ≠ 0xFFFF := fun h => hlast (UInt16.toNat_inj.mp h)
    rw [Strict.add_ok (by omega), Strict.ok_bind, UInt16.ofNat_add, UInt16.ofNat_toNat]
    rfl

theorem strictDeliver_ok (d : Dmc) (v : UInt8) : d.strictDeliver v = .ok (d.deliver v) := by
  rw [strictDeliver, strictNext_ok, deliver]
  cases hwants : d.wants with
  | false => rfl
  | true =>
    have hremaining : d.remaining ≠ 0 := bne_iff_ne.mp (Bool.and_eq_true_iff.mp hwants).2
    rw [Strict.pred_ok hremaining]
    rfl

theorem strictNudge_ok (level : Nat) (up : Bool) :
    strictNudge level up = .ok (nudge level up) := by
  unfold strictNudge nudge
  split_ifs with _ hup hdown
  · exact Strict.add_ok (by omega)
  · rfl
  · exact Strict.sub_ok hdown
  · rfl

theorem strictClockTimer_ok (h : d.Bounded) : d.strictClockTimer = .ok d.clockTimer := by
  have hperiod := h.period_ge
  rw [strictClockTimer, Strict.sub_ok (by omega : 1 ≤ d.period), strictNudge_ok,
    Strict.sub_ok h.bits_ge, clockTimer]
  by_cases htimer : d.timer ≠ 0
  · rw [if_pos htimer, if_pos htimer, Strict.pred_ok htimer]
    rfl
  · rw [if_neg htimer, if_neg htimer]
    cases d.silent <;> rfl

end Bounded
end Dmc

/-! The sequencer. -/

namespace Sequencer

def strictSettle (s : Sequencer) : Strict (FrameClock × Sequencer) :=
  if s.delay = 0 then pure ({}, s)
  else if s.delay = 1 then
    pure (if s.nextFiveStep then { quarter := true, half := true } else {},
      { s with delay := 0, fiveStep := s.nextFiveStep, counter := 0 })
  else do
    let delay ← Strict.sub s.delay 1
    pure ({}, { s with delay })

def strictAdvance (s : Sequencer) (clocks : FrameClock) : Strict (FrameClock × Sequencer) := do
  let counter ← Strict.add 16 s.counter 1
  pure (if counter = 3729 || counter = 11186 then
      ({ clocks with quarter := true }, { s with counter })
    else if counter = 7457 then ({ clocks with quarter := true, half := true }, { s with counter })
    else if counter = 14916 && !s.fiveStep then
      ({ clocks with quarter := true, half := true },
        { s with counter := 0, irq := s.irq || !s.irqInhibit })
    else if counter = 18641 && s.fiveStep then
      ({ clocks with quarter := true, half := true }, { s with counter := 0 })
    else (clocks, { s with counter }))

def strictClock (s : Sequencer) : Strict (FrameClock × Sequencer) := do
  let (clocks, s) ← s.strictSettle
  let s := { s with oddCycle := !s.oddCycle }
  if s.oddCycle then s.strictAdvance clocks else pure (clocks, s)

section Bounded
variable {s : Sequencer}

theorem strictSettle_ok (s : Sequencer) : s.strictSettle = .ok s.settle := by
  unfold strictSettle settle
  by_cases hdelay : s.delay = 0
  · rw [if_pos hdelay, if_pos hdelay]
    rfl
  · rw [if_neg hdelay, if_neg hdelay, Strict.pred_ok hdelay]
    split_ifs <;> rfl

theorem strictAdvance_ok (clocks : FrameClock) (h : s.counter < s.limit) :
    s.strictAdvance clocks = .ok (s.advance clocks) := by
  have hlimit := s.limit_cases
  rw [strictAdvance, Strict.add_ok (by omega)]
  rfl

theorem strictClock_ok (h : s.Bounded) : s.strictClock = .ok s.clock := by
  have hcounter := counter_settle h.counter_lt
  rw [strictClock, strictSettle_ok, Strict.ok_bind, clock]
  generalize s.settle = settled at hcounter ⊢
  obtain ⟨clocks, s⟩ := settled
  have hadvance : { s with oddCycle := !s.oddCycle }.strictAdvance clocks =
      .ok ({ s with oddCycle := !s.oddCycle }.advance clocks) := strictAdvance_ok clocks hcounter
  dsimp only
  rw [hadvance]
  split_ifs <;> rfl

end Bounded
end Sequencer

/-! The unit as a whole. -/

def strictRegister (base : Nat) (a : UInt16) : Strict UInt16 := do
  let r ← Strict.sub a.toNat base
  pure (UInt16.ofNat r)

def strictWrite (s : Apu) (a : UInt16) (v : UInt8) : Strict Apu :=
  if a < 0x4000 then pure s
  else if a < 0x4004 then do
    let r ← strictRegister 0x4000 a
    let pulse1 ← s.pulse1.strictWrite r v
    pure { s with pulse1 }
  else if a < 0x4008 then do
    let r ← strictRegister 0x4004 a
    let pulse2 ← s.pulse2.strictWrite r v
    pure { s with pulse2 }
  else if a < 0x400C then do
    let r ← strictRegister 0x4008 a
    let triangle ← s.triangle.strictWrite r v
    pure { s with triangle }
  else if a < 0x4010 then do
    let r ← strictRegister 0x400C a
    let noise ← s.noise.strictWrite r v
    pure { s with noise }
  else if a < 0x4014 then do
    let r ← strictRegister 0x4010 a
    let dmc ← s.dmc.strictWrite r v
    pure { s with dmc }
  -- The other registers are stored, bit by bit.
  else pure (s.write a v)

def strictClockQuarter (s : Apu) : Strict Apu := do
  let pulse1 ← s.pulse1.strictClockQuarter
  let pulse2 ← s.pulse2.strictClockQuarter
  let triangle ← s.triangle.strictClockQuarter
  let noise ← s.noise.strictClockQuarter
  pure { s with pulse1, pulse2, triangle, noise }

def strictClockHalf (s : Apu) : Strict Apu := do
  let pulse1 ← s.pulse1.strictClockHalf
  let pulse2 ← s.pulse2.strictClockHalf
  let triangle ← s.triangle.strictClockHalf
  let noise ← s.noise.strictClockHalf
  pure { s with pulse1, pulse2, triangle, noise }

def strictClockTimers (s : Apu) : Strict Apu := do
  let triangle ← s.triangle.strictClockTimer
  let noise ← s.noise.strictClockTimer
  let dmc ← s.dmc.strictClockTimer
  let s := { s with triangle, noise, dmc, oddCycle := !s.oddCycle }
  if s.oddCycle then do
    let pulse1 ← s.pulse1.strictClockTimer
    let pulse2 ← s.pulse2.strictClockTimer
    pure { s with pulse1, pulse2 }
  else pure s

def strictClockFrame (s : Apu) (frame : FrameClock) : Strict Apu := do
  let s ← if frame.quarter then s.strictClockQuarter else pure s
  if frame.half then s.strictClockHalf else pure s

def strictClock (s : Apu) : Strict Apu := do
  let (frame, sequencer) ← s.sequencer.strictClock
  let s ← { s with sequencer }.strictClockFrame frame
  s.strictClockTimers

def strictTakeSample (s : Apu) : Strict Apu := do
  let pulse1 ← s.pulse1.strictOutput
  let pulse2 ← s.pulse2.strictOutput
  let triangle ← s.triangle.strictOutput
  pure { s with
    sample := Mixer.toSample (Mixer.mix pulse1 pulse2 triangle s.noise.output s.dmc.level) }

def strictAfter (s : Apu) : Event → Strict Apu
  | .write a v => s.strictWrite a v
  | .clock => s.strictClock
  | .readStatus => pure s.readStatus.2
  | .deliver v => do
    let dmc ← s.dmc.strictDeliver v
    pure { s with dmc }
  | .takeSample => s.strictTakeSample

def strictRun (s : Apu) (es : List Event) : Strict Apu := es.foldlM strictAfter s

theorem strictRegister_ok {base : Nat} {a : UInt16} (hbase : base % 4 = 0)
    (hle : base ≤ a.toNat) (hlt : a.toNat < base + 4) :
    strictRegister base a = .ok (a &&& 3) := by
  have ha := a.toNat_lt
  have hregister : UInt16.ofNat (a.toNat - base) = a &&& 3 := by
    apply UInt16.toNat_inj.mp
    calc (UInt16.ofNat (a.toNat - base)).toNat
        = a.toNat - base := by rw [UInt16.toNat_ofNat', Nat.mod_eq_of_lt (by omega)]
      _ = a.toNat % 4 := by omega
      _ = (a &&& 3).toNat := (Nat.and_two_pow_sub_one_eq_mod a.toNat 2).symm
  rw [strictRegister, Strict.sub_ok hle, Strict.ok_bind, hregister]
  rfl

section WellFormed
variable {s : Apu}

theorem strictWrite_ok (s : Apu) (a : UInt16) (v : UInt8) :
    s.strictWrite a v = .ok (s.write a v) := by
  by_cases hchannel : a < 0x4014
  · unfold strictWrite write
    simp only [UInt16.lt_iff_toNat_lt, UInt16.reduceToNat] at hchannel ⊢
    split_ifs
    · rfl
    · rw [strictRegister_ok rfl (by omega) (by omega), Strict.ok_bind, Pulse.strictWrite_ok]
      rfl
    · rw [strictRegister_ok rfl (by omega) (by omega), Strict.ok_bind, Pulse.strictWrite_ok]
      rfl
    · rw [strictRegister_ok rfl (by omega) (by omega), Strict.ok_bind, Triangle.strictWrite_ok]
      rfl
    · rw [strictRegister_ok rfl (by omega) (by omega), Strict.ok_bind, Noise.strictWrite_ok]
      rfl
    · rw [strictRegister_ok rfl (by omega) (by omega), Strict.ok_bind, Dmc.strictWrite_ok]
      rfl
  · unfold strictWrite
    simp only [UInt16.lt_iff_toNat_lt, UInt16.reduceToNat] at hchannel ⊢
    split_ifs <;> first | rfl | omega

theorem strictClockQuarter_ok (s : Apu) : s.strictClockQuarter = .ok s.clockQuarter := by
  simp only [strictClockQuarter, Pulse.strictClockQuarter_ok, Triangle.strictClockQuarter_ok,
    Noise.strictClockQuarter_ok]
  rfl

theorem strictClockHalf_ok (h : s.WellFormed) : s.strictClockHalf = .ok s.clockHalf := by
  simp only [strictClockHalf, Pulse.strictClockHalf_ok h.pulse1, Pulse.strictClockHalf_ok h.pulse2,
    Triangle.strictClockHalf_ok, Noise.strictClockHalf_ok]
  rfl

theorem strictClockFrame_ok (h : s.WellFormed) (frame : FrameClock) :
    s.strictClockFrame frame = .ok (s.clockFrame frame) := by
  rw [strictClockFrame, strictClockQuarter_ok]
  unfold clockFrame
  cases frame.quarter with
  | false => cases frame.half with
    | false => rfl
    | true => exact strictClockHalf_ok h
  | true => cases frame.half with
    | false => rfl
    | true => exact strictClockHalf_ok h.clockQuarter

theorem strictClockTimers_ok (h : s.WellFormed) : s.strictClockTimers = .ok s.clockTimers := by
  simp only [strictClockTimers, Triangle.strictClockTimer_ok h.triangle,
    Noise.strictClockTimer_ok h.noise, Dmc.strictClockTimer_ok h.dmc,
    Pulse.strictClockTimer_ok h.pulse1, Pulse.strictClockTimer_ok h.pulse2, Strict.ok_bind,
    clockTimers]
  split_ifs <;> rfl

theorem strictClock_ok (h : s.WellFormed) : s.strictClock = .ok s.clock := by
  have hsequencer : { s with sequencer := s.sequencer.clock.2 }.WellFormed :=
    { h with sequencer := h.sequencer.clock }
  rw [strictClock, Sequencer.strictClock_ok h.sequencer, Strict.ok_bind]
  dsimp only
  rw [strictClockFrame_ok hsequencer, Strict.ok_bind,
    strictClockTimers_ok (hsequencer.clockFrame _)]
  rfl

theorem strictTakeSample_ok (h : s.WellFormed) : s.strictTakeSample = .ok s.takeSample := by
  rw [strictTakeSample, Pulse.strictOutput_ok h.pulse1, Pulse.strictOutput_ok h.pulse2,
    Triangle.strictOutput_ok h.triangle]
  rfl

theorem strictAfter_ok (h : s.WellFormed) (e : Event) : s.strictAfter e = .ok (s.after e) := by
  cases e with
  | write a v => exact s.strictWrite_ok a v
  | clock => exact strictClock_ok h
  | readStatus => rfl
  | deliver v =>
    rw [strictAfter, Dmc.strictDeliver_ok]
    rfl
  | takeSample => exact strictTakeSample_ok h

theorem strictRun_ok (h : s.WellFormed) (es : List Event) : s.strictRun es = .ok (s.run es) := by
  induction es generalizing s with
  | nil => rfl
  | cons e es ih =>
    rw [strictRun, List.foldlM_cons, strictAfter_ok h, Strict.ok_bind]
    exact ih (h.after e)

end WellFormed

/-- From power-on, whatever is written and read between the cycles and whatever bytes are delivered,
the fields stay within their bounds and no step faults. The shift register of the noise channel is
never empty, the reader of the delta channel never leaves cartridge ROM, and the levels stay within
four bits, or seven for the delta channel. -/
theorem channels_bounded (es : List Event) :
    let s := run {} es
    s.WellFormed ∧ strictRun {} es = .ok s ∧ (∀ e, s.strictAfter e = .ok (s.after e)) ∧
    s.pulse1.output ≤ 15 ∧ s.pulse2.output ≤ 15 ∧ s.triangle.output ≤ 15 ∧ s.noise.output ≤ 15 ∧
    s.dmc.level ≤ 127 := by
  intro s
  have h : s.WellFormed := wellFormed_run es
  exact ⟨h, strictRun_ok wellFormed_init es, strictAfter_ok h, h.pulse1.output_le,
    h.pulse2.output_le, h.triangle.output_le, h.noise.output_le, h.dmc.level_le⟩

end Apu
end Famicom
