import Famicom.Proofs.Apu.Divider
import Famicom.Proofs.Apu.Events
import Famicom.Proofs.Apu.SampleBytes

/-! The timers of the channels. Whatever else clocks a channel between two writes, its timer is a
divider: those of the pulses and of the triangle let one clock in `period + 1` through, those of the
noise and of the delta channel one in `period`. What is let through moves on a step of the waveform,
shifts the noise register or consumes a bit of the sample. -/
namespace Famicom.Apu

def along {σ ε : Type} (after : σ → ε → σ) (s : σ) (es : Nat → ε) : Nat → σ
  | 0 => s
  | n + 1 => after (along after s es n) (es n)

inductive Tick where
  | timer
  | quarter
  | half
deriving DecidableEq

def Tick.timers (ts : Nat → Tick) (n : Nat) : Nat := Nat.count (fun k => ts k = .timer) n

/-! Pulses. -/

namespace Pulse

def after (p : Pulse) : Tick → Pulse
  | .timer => p.clockTimer
  | .quarter => p.clockQuarter
  | .half => p.clockHalf

def divider (p : Pulse) : Divider Nat := ⟨p.timer, p.step⟩

def next (step : Nat) : Nat := (step + 1) % 8

theorem divider_clockTimer (p : Pulse) : p.clockTimer.divider = p.divider.clock p.period next := by
  unfold clockTimer Divider.clock
  split_ifs <;> first | rfl | contradiction

theorem period_clockTimer (p : Pulse) : p.clockTimer.period = p.period := by
  unfold clockTimer
  split_ifs <;> rfl

theorem divider_after (p : Pulse) (t : Tick) :
    (p.after t).divider = if t = .timer then p.divider.clock p.period next else p.divider := by
  cases t with
  | timer => exact p.divider_clockTimer
  | quarter | half => rfl

theorem step_along {p : Pulse} {ts : Nat → Tick} {n : Nat} (htimer : p.timer = p.period)
    (hstep : p.step < 8) (hsteady : ∀ k < n, (along after p ts k).period = p.period) :
    (along after p ts n).step = (p.step + Tick.timers ts n / (p.period + 1)) % 8 := by
  have hrun : (along after p ts n).divider = _ :=
    Divider.run_eq (d := fun k => (along after p ts k).divider) htimer fun k hk => by
      rw [along, divider_after, hsteady k hk]
  exact (congrArg Divider.phase hrun).trans (Divider.iterate_cycle hstep _)

end Pulse

/-! The triangle. -/

namespace Triangle

def after (t : Triangle) : Tick → Triangle
  | .timer => t.clockTimer
  | .quarter => t.clockQuarter
  | .half => t.clockHalf

def divider (t : Triangle) : Divider Nat := ⟨t.timer, t.step⟩

def next (running : Bool) (step : Nat) : Nat := if running then (step + 1) % 32 else step

theorem running_iff (t : Triangle) : t.running = true ↔ 0 < t.length.value ∧ 0 < t.linear := by
  simp [running, LengthCounter.active, Nat.pos_iff_ne_zero]

theorem divider_after (t : Triangle) (x : Tick) : (t.after x).divider =
    if x = .timer then t.divider.clock t.period (next t.running) else t.divider := by
  cases x with
  | timer =>
    rw [if_pos rfl, after, clockTimer]
    by_cases htimer : t.timer = 0 <;> simp [divider, Divider.clock, next, htimer]
  | quarter | half => rfl

theorem period_after (t : Triangle) (x : Tick) : (t.after x).period = t.period := by
  cases x with
  | timer =>
    rw [after, clockTimer]
    split_ifs <;> rfl
  | quarter | half => rfl

section Along
variable {t : Triangle} {ts : Nat → Tick} {n : Nat}

theorem period_along (t : Triangle) (ts : Nat → Tick) (n : Nat) :
    (along after t ts n).period = t.period := by
  induction n with
  | zero => rfl
  | succ n ih => rw [along, period_after, ih]

theorem divider_along (htimer : t.timer = t.period) (running : Bool)
    (hrunning : ∀ k < n, (along after t ts k).running = running) :
    (along after t ts n).divider =
      ⟨t.period - Tick.timers ts n % (t.period + 1),
        (next running)^[Tick.timers ts n / (t.period + 1)] t.step⟩ := by
  refine Divider.run_eq (d := fun k => (along after t ts k).divider) htimer fun k hk => ?_
  rw [along, divider_after, period_along, hrunning k hk]

theorem step_along (htimer : t.timer = t.period) (hstep : t.step < 32)
    (hrunning : ∀ k < n,
      0 < (along after t ts k).length.value ∧ 0 < (along after t ts k).linear) :
    (along after t ts n).step = (t.step + Tick.timers ts n / (t.period + 1)) % 32 := by
  have hrun := divider_along htimer true fun k hk => (running_iff _).mpr (hrunning k hk)
  exact (congrArg Divider.phase hrun).trans (Divider.iterate_cycle hstep _)

/-- A gated triangle holds its step, but its timer goes on. -/
theorem gated_along (htimer : t.timer = t.period)
    (hgated : ∀ k < n,
      (along after t ts k).length.value = 0 ∨ (along after t ts k).linear = 0) :
    (along after t ts n).step = t.step ∧
      (along after t ts n).timer = t.period - Tick.timers ts n % (t.period + 1) := by
  have hidle (k : Nat) (hk : k < n) : (along after t ts k).running = false := by
    rw [Bool.eq_false_iff, ne_eq, running_iff]
    have := hgated k hk
    omega
  have hrun := divider_along htimer false hidle
  have hheld : next false = id := rfl
  rw [hheld, Function.iterate_id] at hrun
  exact ⟨congrArg Divider.phase hrun, congrArg Divider.timer hrun⟩

end Along
end Triangle

/-! Noise. -/

namespace Noise

def after (u : Noise) : Tick → Noise
  | .timer => u.clockTimer
  | .quarter => u.clockQuarter
  | .half => u.clockHalf

def divider (u : Noise) : Divider UInt16 := ⟨u.timer, u.shift⟩

theorem divider_after (u : Noise) (t : Tick) : (u.after t).divider =
    if t = .timer then u.divider.clock (u.period - 1) (feed u.short) else u.divider := by
  cases t with
  | timer =>
    rw [if_pos rfl, after]
    unfold clockTimer Divider.clock
    split_ifs <;> first | rfl | contradiction
  | quarter | half => rfl

theorem written_after (u : Noise) (t : Tick) :
    (u.after t).period = u.period ∧ (u.after t).short = u.short := by
  cases t with
  | timer =>
    rw [after, clockTimer]
    split_ifs <;> exact ⟨rfl, rfl⟩
  | quarter | half => exact ⟨rfl, rfl⟩

theorem written_along (u : Noise) (ts : Nat → Tick) (n : Nat) :
    (along after u ts n).period = u.period ∧ (along after u ts n).short = u.short := by
  induction n with
  | zero => exact ⟨rfl, rfl⟩
  | succ n ih =>
    obtain ⟨hperiod, hshort⟩ := (along after u ts n).written_after (ts n)
    exact ⟨hperiod.trans ih.1, hshort.trans ih.2⟩

theorem shift_along {u : Noise} (htimer : u.timer + 1 = u.period) (ts : Nat → Tick) (n : Nat) :
    (along after u ts n).shift = (feed u.short)^[Tick.timers ts n / u.period] u.shift := by
  have hrun : (along after u ts n).divider =
      ⟨u.timer - Tick.timers ts n % (u.timer + 1),
        (feed u.short)^[Tick.timers ts n / (u.timer + 1)] u.shift⟩ := by
    refine Divider.run_eq (d := fun k => (along after u ts k).divider) rfl fun k hk => ?_
    obtain ⟨hperiod, hshort⟩ := u.written_along ts k
    rw [along, divider_after, hperiod, hshort, ← htimer, Nat.add_sub_cancel]
  rw [← htimer]
  exact congrArg Divider.phase hrun

end Noise

/-! The delta channel. -/

namespace Dmc

def Event.isWrite : Event → Bool
  | write .. | setEnabled _ => true
  | clock | deliver _ => false

def Event.isClock : Event → Bool
  | clock => true
  | write .. | setEnabled _ | deliver _ => false

/-- A bit is consumed: there is one less to go, or a new group of eight. -/
def consumes (d : Dmc) (e : Event) : Bool := (d.after e).bits != d.bits

theorem clockTimer_expiry {d : Dmc} (h : d.timer = 0) :
    d.clockTimer.timer = d.period - 1 ∧ d.clockTimer.bits ≠ d.bits := by
  rw [clockTimer, if_neg (not_not.mpr h)]
  dsimp only
  split_ifs with hmore
  · exact ⟨rfl, by dsimp only; omega⟩
  all_goals exact ⟨rfl, by dsimp only; omega⟩

theorem deliver_quiet (d : Dmc) (v : UInt8) : (d.deliver v).period = d.period ∧
    (d.deliver v).timer = d.timer ∧ (d.deliver v).bits = d.bits := by
  by_cases hwants : d.wants = true
  · obtain ⟨_, _, _, hdeliver⟩ := deliver_wanted hwants v
    rw [hdeliver]
    exact ⟨rfl, rfl, rfl⟩
  · rw [deliver_unwanted hwants]
    exact ⟨rfl, rfl, rfl⟩

section Quiet
variable {e : Event} (hquiet : e.isWrite = false)
include hquiet

theorem period_after (d : Dmc) : (d.after e).period = d.period := by
  cases e with
  | write | setEnabled => cases hquiet
  | clock =>
    rw [after, clockTimer]
    dsimp only
    split_ifs <;> rfl
  | deliver v => exact (d.deliver_quiet v).1

theorem divider_after (d : Dmc) (count : Nat) :
    (⟨(d.after e).timer, count + if d.consumes e then 1 else 0⟩ : Divider Nat) =
      if e.isClock = true then Divider.clock (d.period - 1) (· + 1) ⟨d.timer, count⟩
      else ⟨d.timer, count⟩ := by
  cases e with
  | write | setEnabled => cases hquiet
  | clock =>
    by_cases htimer : d.timer = 0
    · obtain ⟨hanew, hbits⟩ := clockTimer_expiry htimer
      simp [Event.isClock, Divider.clock, consumes, after, htimer, hanew, hbits]
    · simp [Event.isClock, Divider.clock, consumes, after, clockTimer_idle htimer, htimer]
  | deliver v =>
    obtain ⟨-, htimer, hbits⟩ := d.deliver_quiet v
    simp [Event.isClock, consumes, after, htimer, hbits]

end Quiet

theorem period_along {d : Dmc} {es : Nat → Event} {n : Nat}
    (hquiet : ∀ k < n, (es k).isWrite = false) : (along after d es n).period = d.period := by
  induction n with
  | zero => rfl
  | succ n ih =>
    rw [along, period_after (hquiet n n.lt_succ_self), ih fun k hk => hquiet k (by omega)]

def consumed (d : Dmc) (es : Nat → Event) (n : Nat) : Nat :=
  Nat.count (fun k => (along after d es k).consumes (es k) = true) n

def Event.clocks (es : Nat → Event) (n : Nat) : Nat := Nat.count (fun k => (es k).isClock = true) n

theorem consumed_eq {d : Dmc} {es : Nat → Event} {n : Nat}
    (hquiet : ∀ k < n, (es k).isWrite = false) (htimer : d.timer + 1 = d.period) :
    d.consumed es n = Event.clocks es n / d.period := by
  have hrun : (⟨(along after d es n).timer, d.consumed es n⟩ : Divider Nat) =
      ⟨d.timer - Event.clocks es n % (d.timer + 1),
        (· + 1)^[Event.clocks es n / (d.timer + 1)] 0⟩ := by
    refine Divider.run_eq (d := fun k => ⟨(along after d es k).timer, d.consumed es k⟩) rfl
      fun k hk => ?_
    have hbefore : ∀ j < k, (es j).isWrite = false := fun j hj => hquiet j (by omega)
    rw [consumed, Nat.count_succ, ← consumed, along, divider_after (hquiet k hk),
      period_along hbefore, ← htimer, Nat.add_sub_cancel]
  rw [← htimer]
  simpa using congrArg Divider.phase hrun

end Dmc

/-! The pulses in the sound unit, where every second cycle clocks their timers. -/

def Event.isClock : Event → Bool
  | clock => true
  | write .. | readStatus | deliver _ | takeSample => false

def cycles (es : Nat → Event) (n : Nat) : Nat := Nat.count (fun k => (es k).isClock = true) n

theorem cycles_succ (es : Nat → Event) (n : Nat) :
    cycles es (n + 1) = cycles es n + if (es n).isClock then 1 else 0 := Nat.count_succ _ n

/-- Of so many processor cycles, those that clock the timers of the pulses: every second one, from
the first on unless the flag `odd` is set. -/
def pulseClocks (odd : Bool) (cycles : Nat) : Nat := (cycles + if odd then 0 else 1) / 2

theorem clock_eq_clockTimers (s : Apu) : ∃ t : Apu, s.clock = t.clockTimers ∧
    t.oddCycle = s.oddCycle ∧ t.pulse1.divider = s.pulse1.divider ∧
    t.pulse2.divider = s.pulse2.divider := by
  have hframe (t : Apu) (frame : FrameClock) : (t.clockFrame frame).oddCycle = t.oddCycle ∧
      (t.clockFrame frame).pulse1.divider = t.pulse1.divider ∧
      (t.clockFrame frame).pulse2.divider = t.pulse2.divider := by
    unfold clockFrame
    dsimp only
    split_ifs <;> exact ⟨rfl, rfl, rfl⟩
  exact ⟨{ s with sequencer := s.sequencer.clock.2 }.clockFrame s.sequencer.clock.1, rfl,
    hframe _ _⟩

theorem oddCycle_clockTimers (s : Apu) : s.clockTimers.oddCycle = !s.oddCycle := by
  unfold clockTimers
  dsimp only
  split_ifs <;> rfl

theorem oddCycle_after {e : Event} (hquiet : e.isWrite = false) (s : Apu) :
    (s.after e).oddCycle = if e.isClock then !s.oddCycle else s.oddCycle := by
  cases e with
  | write => cases hquiet
  | clock =>
    obtain ⟨t, hclock, hodd, -, -⟩ := s.clock_eq_clockTimers
    rw [after, hclock, oddCycle_clockTimers, hodd]
    rfl
  | readStatus | deliver _ | takeSample => rfl

section Pulses
variable {pulse : Apu → Pulse} (hpulse : pulse = Apu.pulse1 ∨ pulse = Apu.pulse2)
include hpulse

theorem pulse_clockTimers (s : Apu) :
    pulse s.clockTimers = if s.oddCycle then pulse s else (pulse s).clockTimer := by
  unfold clockTimers
  obtain rfl | rfl := hpulse <;> cases s.oddCycle <;> rfl

theorem pulse_divider_after {e : Event} (hquiet : e.isWrite = false) (s : Apu) :
    (pulse (s.after e)).divider =
      if e.isClock = true ∧ s.oddCycle = false then
        (pulse s).divider.clock (pulse (s.after e)).period Pulse.next
      else (pulse s).divider := by
  cases e with
  | write => cases hquiet
  | clock =>
    obtain ⟨t, hclock, hodd, hpulse1, hpulse2⟩ := s.clock_eq_clockTimers
    have hdivider : (pulse t).divider = (pulse s).divider := by
      obtain rfl | rfl := hpulse
      · exact hpulse1
      · exact hpulse2
    rw [after, hclock, pulse_clockTimers hpulse, hodd]
    cases s.oddCycle with
    | true => exact hdivider
    | false =>
      rw [if_neg Bool.false_ne_true, Pulse.divider_clockTimer, Pulse.period_clockTimer, hdivider]
      rfl
  | readStatus | deliver _ | takeSample => obtain rfl | rfl := hpulse <;> rfl

end Pulses

section Along
variable {s : Apu} {es : Nat → Event} {n : Nat}

/-- The cycles that clock the pulses alternate with those that do not. -/
theorem count_pulseClocks (hquiet : ∀ k < n, (es k).isWrite = false) :
    Nat.count (fun k => (es k).isClock = true ∧ (along after s es k).oddCycle = false) n =
      pulseClocks s.oddCycle (cycles es n) ∧
    ((along after s es n).oddCycle = false ↔
      (cycles es n + if s.oddCycle then 0 else 1) % 2 = 1) := by
  induction n with
  | zero => cases hodd : s.oddCycle <;> simp [along, hodd, pulseClocks, cycles]
  | succ n ih =>
    obtain ⟨hcount, hodd⟩ := ih fun k hk => hquiet k (by omega)
    rw [Nat.count_succ, hcount, along, oddCycle_after (hquiet n n.lt_succ_self), cycles_succ,
      pulseClocks, pulseClocks]
    cases (es n).isClock <;> cases h : (along after s es n).oddCycle <;>
      simp [h] at hodd ⊢ <;> omega

theorem pulse_along {pulse : Apu → Pulse} (hpulse : pulse = Apu.pulse1 ∨ pulse = Apu.pulse2)
    (hquiet : ∀ k < n, (es k).isWrite = false) (htimer : (pulse s).timer = (pulse s).period)
    (hstep : (pulse s).step < 8)
    (hsteady : ∀ k ≤ n, (pulse (along after s es k)).period = (pulse s).period) :
    (pulse (along after s es n)).step =
      ((pulse s).step + pulseClocks s.oddCycle (cycles es n) / ((pulse s).period + 1)) % 8 := by
  have hrun : (pulse (along after s es n)).divider = _ :=
    Divider.run_eq (d := fun k => (pulse (along after s es k)).divider) htimer fun k hk => by
      have hperiod := hsteady (k + 1) hk
      rw [along] at hperiod ⊢
      rw [pulse_divider_after hpulse (hquiet k hk), hperiod]
  rw [(count_pulseClocks hquiet).1] at hrun
  exact (congrArg Divider.phase hrun).trans (Divider.iterate_cycle hstep _)

theorem pulseClocks_waveform (odd : Bool) (cycles p : Nat) :
    pulseClocks odd (cycles + 16 * (p + 1)) / (p + 1) = pulseClocks odd cycles / (p + 1) + 8 := by
  have hclocks : pulseClocks odd (cycles + 16 * (p + 1)) = pulseClocks odd cycles + 8 * (p + 1) := by
    unfold pulseClocks
    omega
  rw [hclocks, Nat.add_mul_div_right _ _ p.succ_pos]

end Along

/-- Every timer divides the clocks that reach it, whatever else happens to its channel without a
write. A pulse takes a step in `period + 1` clocks as long as its sweep leaves the period, which
makes a waveform of `16 * (period + 1)` cycles; a triangle takes one in as many, or holds its step
while its timer goes on. The noise and the delta channel, whose timers start at one less than their
periods, shift their register and consume a bit once in a period. -/
theorem timers_divide :
    (∀ (p : Pulse) (ts : Nat → Tick) (n : Nat), p.timer = p.period → p.step < 8 →
      (∀ k < n, (along Pulse.after p ts k).period = p.period) →
      (along Pulse.after p ts n).step = (p.step + Tick.timers ts n / (p.period + 1)) % 8) ∧
    (∀ pulse : Apu → Pulse, pulse = Apu.pulse1 ∨ pulse = Apu.pulse2 →
      ∀ (s : Apu) (es : Nat → Event) (n : Nat), (∀ k < n, (es k).isWrite = false) →
      (pulse s).timer = (pulse s).period → (pulse s).step < 8 →
      (∀ k ≤ n, (pulse (along after s es k)).period = (pulse s).period) →
      (pulse (along after s es n)).step =
          ((pulse s).step + pulseClocks s.oddCycle (cycles es n) / ((pulse s).period + 1)) % 8 ∧
        ∀ m ≤ n, cycles es n = cycles es m + 16 * ((pulse s).period + 1) →
          (pulse (along after s es n)).step = (pulse (along after s es m)).step) ∧
    (∀ (t : Triangle) (ts : Nat → Tick) (n : Nat), t.timer = t.period → t.step < 32 →
      (∀ k < n, 0 < (along Triangle.after t ts k).length.value ∧
        0 < (along Triangle.after t ts k).linear) →
      (along Triangle.after t ts n).step = (t.step + Tick.timers ts n / (t.period + 1)) % 32) ∧
    (∀ (t : Triangle) (ts : Nat → Tick) (n : Nat), t.timer = t.period →
      (∀ k < n, (along Triangle.after t ts k).length.value = 0 ∨
        (along Triangle.after t ts k).linear = 0) →
      (along Triangle.after t ts n).step = t.step ∧
        (along Triangle.after t ts n).timer = t.period - Tick.timers ts n % (t.period + 1)) ∧
    (∀ (u : Noise) (ts : Nat → Tick) (n : Nat), u.timer + 1 = u.period →
      (along Noise.after u ts n).shift =
        (Noise.feed u.short)^[Tick.timers ts n / u.period] u.shift) ∧
    (∀ (d : Dmc) (es : Nat → Dmc.Event) (n : Nat), (∀ k < n, (es k).isWrite = false) →
      d.timer + 1 = d.period → d.consumed es n = Dmc.Event.clocks es n / d.period) := by
  refine ⟨?_, ?_, ?_, ?_, ?_, ?_⟩
  · intro p ts n htimer hstep hsteady
    exact Pulse.step_along htimer hstep hsteady
  · intro pulse hpulse s es n hquiet htimer hstep hsteady
    have hlast := pulse_along hpulse hquiet htimer hstep hsteady
    refine ⟨hlast, fun m hm hcycles => ?_⟩
    have hfirst := pulse_along hpulse (fun k hk => hquiet k (Nat.lt_of_lt_of_le hk hm)) htimer
      hstep fun k hk => hsteady k (Nat.le_trans hk hm)
    rw [hlast, hfirst, hcycles, pulseClocks_waveform, ← Nat.add_assoc, Nat.add_mod_right]
  · intro t ts n htimer hstep hrunning
    exact Triangle.step_along htimer hstep hrunning
  · intro t ts n htimer hgated
    exact Triangle.gated_along htimer hgated
  · intro u ts n htimer
    exact Noise.shift_along htimer ts n
  · intro d es n hquiet htimer
    exact Dmc.consumed_eq hquiet htimer

/-- Units with short periods, the pulse in a sound unit with one waveform of 32 cycles behind it. -/
theorem timers_divide_fast :
    let p : Pulse := { onesComplement := true, step := 6, period := 1, timer := 1 }
    let t : Triangle := { linear := 5, period := 1, timer := 1, step := 31, length.value := 9 }
    (along Pulse.after p (fun _ => .timer) 5).step = 0 ∧
      (along after { pulse1 := p } (fun _ => .clock) 32).pulse1.step = 6 ∧
      (along Triangle.after t (fun _ => .timer) 2).step = 0 ∧
      (along Triangle.after { t with linear := 0 } (fun _ => .timer) 3).timer = 0 ∧
      (along Noise.after { timer := 3 } (fun _ => .timer) 9).shift = 0x2000 ∧
      Dmc.consumed { timer := 427 } (fun _ => .clock) 856 = 2 := by
  intro p t
  obtain ⟨hpulse, hwaveform, htriangle, hgated, hnoise, hdmc⟩ := timers_divide
  refine ⟨?_, ?_, ?_, ?_, ?_, ?_⟩
  · exact (hpulse p (fun _ => .timer) 5 rfl (by decide) (by decide)).trans (by decide)
  · have hquiet : ∀ k < 32, Event.isWrite .clock = false := fun _ _ => rfl
    have hsteady : ∀ k ≤ 32, (along after { pulse1 := p } (fun _ => .clock) k).pulse1.period =
      p.period := by decide +kernel
    exact (hwaveform Apu.pulse1 (.inl rfl) { pulse1 := p } (fun _ => .clock) 32 hquiet rfl
      (by decide) hsteady).2 0 (Nat.zero_le _) (by decide)
  · exact (htriangle t (fun _ => .timer) 2 rfl (by decide) (by decide)).trans (by decide)
  · exact (hgated { t with linear := 0 } (fun _ => .timer) 3 rfl (by decide)).2.trans (by decide)
  · exact (hnoise { timer := 3 } (fun _ => .timer) 9 rfl).trans (by decide)
  · refine (hdmc { timer := 427 } (fun _ => .clock) 856 (fun _ _ => rfl) rfl).trans ?_
    decide +kernel

end Famicom.Apu
