import Famicom.Apu.Sequencer
import Mathlib.Data.Nat.Count
import Mathlib.Logic.Function.Iterate
import Mathlib.Tactic.SplitIfs

/-! The cycle of the frame sequencer. While no mode change is under way the sequencer is told by its
phase, the processor cycles since its count was last at zero: a clock adds one to the phase, around
the cycle, and what it clocks hangs on the phase alone. Whatever phase it starts from, a whole cycle
passes each step once. -/
namespace Famicom.Apu

namespace Sequencer

inductive Event where
  | write (v : UInt8)
  | clock
  | acknowledge

def after (s : Sequencer) : Event → Sequencer
  | .write v => s.write v
  | .clock => s.clock.2
  | .acknowledge => { s with irq := false }

def run (es : List Event) : Sequencer := es.foldl after {}

def elapse (s : Sequencer) (n : Nat) : Sequencer := (fun t => t.clock.2)^[n] s

def emitted (s : Sequencer) (n : Nat) : FrameClock := (s.elapse n).clock.1

/-- Counts in a cycle. -/
def limit (s : Sequencer) : Nat := if s.fiveStep then 18641 else 14916

/-- Processor cycles in a cycle. -/
def cycle (s : Sequencer) : Nat := if s.fiveStep then 37282 else 29832

theorem elapse_succ (s : Sequencer) (n : Nat) : s.elapse (n + 1) = (s.elapse n).clock.2 :=
  Function.iterate_succ_apply' _ n s

/-! The parts of a clock. -/

theorem settle_delayed {s : Sequencer} (h : s.delay ≠ 1) :
    s.settle = ({}, { s with delay := s.delay - 1 }) := by
  unfold settle
  split_ifs with h0
  · cases s
    simp_all
  · rfl

theorem settle_due {s : Sequencer} (h : s.delay = 1) :
    s.settle = (if s.nextFiveStep then { quarter := true, half := true } else {},
      { s with delay := 0, fiveStep := s.nextFiveStep, counter := 0 }) := by
  have h0 : s.delay ≠ 0 := by omega
  rw [settle, if_neg h0, if_pos h]

theorem clock_of_odd {s : Sequencer} (h : s.oddCycle = true) :
    s.clock = (s.settle.1, { s.settle.2 with oddCycle := false }) := by
  have hsettle : s.settle.2.oddCycle = true := by
    unfold settle
    split_ifs <;> exact h
  simp [clock, hsettle]

theorem clock_of_even {s : Sequencer} (h : s.oddCycle = false) :
    s.clock = { s.settle.2 with oddCycle := true }.advance s.settle.1 := by
  have hsettle : s.settle.2.oddCycle = false := by
    unfold settle
    split_ifs <;> exact h
  simp [clock, hsettle]

/-! The steps of a cycle. -/

/-- What a clock in phase `p` emits. -/
def mark (s : Sequencer) (p : Nat) : FrameClock where
  quarter := decide (p = 7456 ∨ p = 14912 ∨ p = 22370 ∨ p + 2 = s.cycle)
  half := decide (p = 14912 ∨ p + 2 = s.cycle)

theorem mark_eq {s : Sequencer} {p : Nat} {clocks : FrameClock}
    (hquarter : clocks.quarter = true ↔ p = 7456 ∨ p = 14912 ∨ p = 22370 ∨ p + 2 = s.cycle)
    (hhalf : clocks.half = true ↔ p = 14912 ∨ p + 2 = s.cycle) : s.mark p = clocks := by
  obtain ⟨quarter, half⟩ := clocks
  simp only [mark, ← hquarter, ← hhalf, Bool.decide_eq_true]

theorem mark_of_half {s : Sequencer} {p : Nat} (h : p = 14912 ∨ p + 2 = s.cycle) :
    s.mark p = { quarter := true, half := true } :=
  mark_eq (iff_of_true rfl (by omega)) (iff_of_true rfl h)

def interrupts (s : Sequencer) : Bool := !s.fiveStep && !s.irqInhibit

def next (s : Sequencer) : Sequencer :=
  { s with
    counter := (s.counter + 1) % s.limit
    irq := s.irq || (s.interrupts && s.counter + 1 == s.limit) }

theorem cycle_eq (s : Sequencer) : s.cycle = 2 * s.limit := by
  unfold cycle limit
  split_ifs <;> rfl

theorem limit_cases (s : Sequencer) :
    s.fiveStep = true ∧ s.limit = 18641 ∨ s.fiveStep = false ∧ s.limit = 14916 := by
  unfold limit
  cases s.fiveStep
  · exact .inr ⟨rfl, rfl⟩
  · exact .inl ⟨rfl, rfl⟩

theorem next_of_lt {s : Sequencer} (h : s.counter + 1 < s.limit) :
    s.next = { s with counter := s.counter + 1 } := by
  have hend : (s.counter + 1 == s.limit) = false := beq_eq_false_iff_ne.mpr (Nat.ne_of_lt h)
  rw [next, Nat.mod_eq_of_lt h, hend, Bool.and_false, Bool.or_false]

theorem next_of_eq {s : Sequencer} (h : s.counter + 1 = s.limit) :
    s.next = { s with counter := 0, irq := s.irq || s.interrupts } := by
  rw [next, h, Nat.mod_self, beq_self_eq_true, Bool.and_true]

theorem advance_eq {s : Sequencer} (h : s.counter < s.limit) :
    s.advance {} = (s.mark (2 * s.counter), s.next) := by
  have hcycle := s.cycle_eq
  have hlimit := s.limit_cases
  unfold advance
  dsimp only
  simp only [Bool.or_eq_true, Bool.and_eq_true, decide_eq_true_eq, Bool.not_eq_true']
  split_ifs with hquarter hhalf hfour hfive
  · -- The first step and the third are quarter frames only.
    have hmark : s.mark (2 * s.counter) = { quarter := true } :=
      mark_eq (iff_of_true rfl (by omega)) (iff_of_false Bool.false_ne_true (by omega))
    rw [hmark, next_of_lt (by omega)]
  · rw [mark_of_half (by omega), next_of_lt (by omega)]
  · -- The last step of four asks for the interrupt.
    obtain ⟨hlast, hmode⟩ := hfour
    have hl : s.limit = 14916 := by rw [limit, hmode, if_neg Bool.false_ne_true]
    rw [mark_of_half (by omega), next_of_eq (by omega), interrupts, hmode]
    rfl
  · -- The last step of five does not.
    obtain ⟨hlast, hmode⟩ := hfive
    rw [mark_of_half (by omega), next_of_eq (by omega), interrupts, hmode, Bool.not_true,
      Bool.false_and, Bool.or_false]
  · -- Between the steps nothing is clocked.
    have hend : s.counter + 1 ≠ s.limit := by
      obtain ⟨hmode, hl⟩ | ⟨hmode, hl⟩ := hlimit
      · exact fun hlast => hfive ⟨hlast.trans hl, hmode⟩
      · exact fun hlast => hfour ⟨hlast.trans hl, hmode⟩
    have hmark : s.mark (2 * s.counter) = {} := mark_eq (iff_of_false Bool.false_ne_true (by omega))
      (iff_of_false Bool.false_ne_true (by omega))
    rw [hmark, next_of_lt (by omega)]

theorem advance_snd (s : Sequencer) (clocks : FrameClock) :
    (s.advance clocks).2 = (s.advance {}).2 := by
  unfold advance
  dsimp only
  split_ifs <;> rfl

/-! Half frames among quarter frames. -/

theorem quarter_of_half_settle (s : Sequencer) (h : s.settle.1.half = true) :
    s.settle.1.quarter = true := by
  unfold settle at h ⊢
  split_ifs at h ⊢
  rfl

theorem quarter_of_half_advance (s : Sequencer) {clocks : FrameClock}
    (hclocks : clocks.half = true → clocks.quarter = true)
    (h : (s.advance clocks).1.half = true) : (s.advance clocks).1.quarter = true := by
  unfold advance at h ⊢
  dsimp only at h ⊢
  split_ifs at h ⊢ <;> first | rfl | exact hclocks h

/-- Each arm that clocks a half frame clocks a quarter frame with it. -/
theorem quarter_of_half_clock (s : Sequencer) (h : s.clock.1.half = true) :
    s.clock.1.quarter = true := by
  cases hodd : s.oddCycle with
  | false =>
    rw [clock_of_even hodd] at h ⊢
    exact quarter_of_half_advance _ s.quarter_of_half_settle h
  | true =>
    rw [clock_of_odd hodd] at h ⊢
    exact s.quarter_of_half_settle h

/-! The count stays within the cycle of its mode. -/

theorem counter_advance {s : Sequencer} (clocks : FrameClock) (h : s.counter < s.limit) :
    (s.advance clocks).2.counter < (s.advance clocks).2.limit := by
  rw [advance_snd, advance_eq h]
  exact Nat.mod_lt _ (Nat.zero_lt_of_lt h)

theorem counter_settle {s : Sequencer} (h : s.counter < s.limit) :
    s.settle.2.counter < s.settle.2.limit := by
  by_cases hdue : s.delay = 1
  · rw [settle_due hdue]
    unfold limit
    split_ifs <;> exact Nat.succ_pos _
  · rw [settle_delayed hdue]
    exact h

theorem counter_after {s : Sequencer} (h : s.counter < s.limit) (e : Event) :
    (s.after e).counter < (s.after e).limit := by
  cases e with
  | write v | acknowledge => exact h
  | clock =>
    have hsettle := counter_settle h
    cases hodd : s.oddCycle with
    | false =>
      rw [after, clock_of_even hodd]
      exact counter_advance s.settle.1 hsettle
    | true =>
      rw [after, clock_of_odd hodd]
      exact hsettle

theorem counter_run (es : List Event) : (run es).counter < (run es).limit := by
  induction es using List.reverseRecOn with
  | nil => decide
  | append_singleton es e ih =>
    rw [run, List.foldl_append]
    exact counter_after ih e

/-! The phase. -/

/-- The count goes up with the first cycle of a pair. -/
def atPhase (s : Sequencer) (p : Nat) (irq : Bool) : Sequencer :=
  { s with counter := (p + 1) / 2 % s.limit, oddCycle := p % 2 == 1, irq }

def phase (s : Sequencer) : Nat := (2 * s.counter + if s.oddCycle then s.cycle - 1 else 0) % s.cycle

theorem phase_lt (s : Sequencer) : s.phase < s.cycle := by
  apply Nat.mod_lt
  obtain ⟨-, hl⟩ | ⟨-, hl⟩ := s.limit_cases <;> rw [cycle_eq, hl] <;> decide

theorem atPhase_phase {s : Sequencer} (h : s.counter < s.limit) : s.atPhase s.phase s.irq = s := by
  have hcounter : (s.phase + 1) / 2 % s.limit = s.counter := by
    unfold phase
    obtain ⟨-, hl⟩ | ⟨-, hl⟩ := s.limit_cases
    all_goals
      rw [hl] at h
      rw [cycle_eq, hl]
      split_ifs <;> omega
  have hodd : (s.phase % 2 == 1) = s.oddCycle := by
    unfold phase
    rw [cycle_eq, Nat.mod_mul_right_mod, Bool.eq_iff_iff, beq_iff_eq]
    split_ifs with hodd
    · rw [iff_true_right hodd]
      omega
    · rw [iff_false_right hodd]
      omega
  rw [atPhase, hcounter, hodd]

theorem clock_atPhase_even {s : Sequencer} (hdelay : s.delay = 0) {p : Nat} (hp : p < s.cycle)
    (heven : p % 2 = 0) (irq : Bool) : (s.atPhase p irq).clock = (s.mark p,
      s.atPhase ((p + 1) % s.cycle) (irq || (s.interrupts && p + 2 == s.cycle))) := by
  have hsettle : (s.atPhase p irq).settle = ({}, s.atPhase p irq) := if_pos hdelay
  have hfirst : (s.atPhase p irq).oddCycle = false := by simp [atPhase, heven]
  rw [cycle_eq] at hp
  have hcounter : (p + 1) / 2 % s.limit = p / 2 := by
    rw [Nat.mod_eq_of_lt (by omega)]
    omega
  have hcount : { s.atPhase p irq with oddCycle := true } =
      { s with counter := p / 2, oddCycle := true, irq } := by
    rw [atPhase, hcounter]
  have hstep : { s with counter := p / 2, oddCycle := true, irq }.advance {} = (s.mark p,
      { s with
        counter := (p / 2 + 1) % s.limit, oddCycle := true,
        irq := irq || (s.interrupts && p + 2 == s.cycle) }) := by
    have hphase : 2 * (p / 2) = p := by omega
    have hend : (p / 2 + 1 == s.limit) = (p + 2 == s.cycle) := by
      rw [cycle_eq, Bool.eq_iff_iff, beq_iff_eq, beq_iff_eq]
      omega
    rw [advance_eq (show p / 2 < s.limit by omega), ← hend]
    dsimp only
    rw [hphase]
    rfl
  have hnext : (p + 1) % s.cycle = p + 1 := Nat.mod_eq_of_lt (by rw [cycle_eq]; omega)
  have hcounter' : (p + 1 + 1) / 2 = p / 2 + 1 := by omega
  have hodd : ((p + 1) % 2 == 1) = true := by
    rw [beq_iff_eq]
    omega
  rw [clock_of_even hfirst, hsettle]
  dsimp only
  rw [hcount, hstep, hnext]
  unfold atPhase
  rw [hodd, hcounter']

theorem clock_atPhase_odd {s : Sequencer} (hdelay : s.delay = 0) {p : Nat}
    (hodd : p % 2 = 1) (irq : Bool) : (s.atPhase p irq).clock = (s.mark p,
      s.atPhase ((p + 1) % s.cycle) (irq || (s.interrupts && p + 2 == s.cycle))) := by
  have hsettle : (s.atPhase p irq).settle = ({}, s.atPhase p irq) := if_pos hdelay
  have hsecond : (s.atPhase p irq).oddCycle = true := by simp [atPhase, hodd]
  have hcycle := s.cycle_eq
  have hmark : s.mark p = {} := mark_eq (iff_of_false Bool.false_ne_true (by omega))
    (iff_of_false Bool.false_ne_true (by omega))
  have hend : (p + 2 == s.cycle) = false := by
    rw [cycle_eq, beq_eq_false_iff_ne]
    omega
  have hnext : ((p + 1) % s.cycle % 2 == 1) = false := by
    rw [cycle_eq, Nat.mod_mul_right_mod, beq_eq_false_iff_ne]
    omega
  have hcounter : ((p + 1) % s.cycle + 1) / 2 % s.limit = (p + 1) / 2 % s.limit := by
    obtain ⟨-, hl⟩ | ⟨-, hl⟩ := s.limit_cases
    all_goals
      rw [cycle_eq, hl]
      omega
  rw [clock_of_odd hsecond, hsettle, hmark, hend, Bool.and_false, Bool.or_false]
  unfold atPhase
  rw [hnext, ← hcounter]

theorem clock_atPhase {s : Sequencer} (hdelay : s.delay = 0) {p : Nat} (hp : p < s.cycle)
    (irq : Bool) :
    (s.atPhase p irq).clock = (s.mark p,
      s.atPhase ((p + 1) % s.cycle) (irq || (s.interrupts && p + 2 == s.cycle))) := by
  obtain heven | hodd := Nat.mod_two_eq_zero_or_one p
  · exact clock_atPhase_even hdelay hp heven irq
  · exact clock_atPhase_odd hdelay hodd irq

/-! Many clocks. -/

section Elapse
variable {s : Sequencer} (hdelay : s.delay = 0) (hcounter : s.counter < s.limit)
include hdelay hcounter

theorem elapse_eq (n : Nat) : ∃ irq,
    s.elapse n = s.atPhase ((s.phase + n) % s.cycle) irq ∧
    (irq = true ↔ s.irq = true ∨
      s.interrupts = true ∧ ∃ i < n, (s.phase + i) % s.cycle + 2 = s.cycle) := by
  induction n with
  | zero =>
    refine ⟨s.irq, ?_, by simp⟩
    rw [Nat.add_zero, Nat.mod_eq_of_lt s.phase_lt]
    exact (atPhase_phase hcounter).symm
  | succ n ih =>
    obtain ⟨irq, heq, hirq⟩ := ih
    have hp : (s.phase + n) % s.cycle < s.cycle := Nat.mod_lt _ (Nat.zero_lt_of_lt s.phase_lt)
    refine ⟨irq || (s.interrupts && (s.phase + n) % s.cycle + 2 == s.cycle), ?_, ?_⟩
    · rw [elapse_succ, heq, clock_atPhase hdelay hp irq, Nat.mod_add_mod, Nat.add_assoc]
    · rw [Bool.or_eq_true, hirq, Bool.and_eq_true, beq_iff_eq, or_assoc, ← and_or_left]
      simp only [Nat.lt_succ_iff_lt_or_eq, or_and_right, exists_or, exists_eq_left]

theorem emitted_eq (n : Nat) : s.emitted n = s.mark ((s.phase + n) % s.cycle) := by
  obtain ⟨irq, heq, -⟩ := elapse_eq hdelay hcounter n
  have hp : (s.phase + n) % s.cycle < s.cycle := Nat.mod_lt _ (Nat.zero_lt_of_lt s.phase_lt)
  rw [emitted, heq, clock_atPhase hdelay hp irq]

end Elapse

theorem count_phases (q : Nat → Prop) [DecidablePred q] (p n : Nat) :
    Nat.count (fun i => q ((p + i) % n)) n = Nat.count q n := by
  have hlate := Nat.count_add (fun i => q (i % n)) p n
  have hearly := Nat.count_add (fun i => q (i % n)) n p
  have hfirst : Nat.count (fun i => q (i % n)) n = Nat.count q n := by
    rw [Nat.count_eq_card_filter_range, Nat.count_eq_card_filter_range]
    congr 1
    apply Finset.filter_congr
    intro i hi
    rw [Nat.mod_eq_of_lt (Finset.mem_range.mp hi)]
  simp only [Nat.add_mod_left] at hearly
  rw [Nat.add_comm n p] at hearly
  omega

theorem count_marks {s : Sequencer} {q : FrameClock → Bool} (steps : Finset Nat)
    (hsteps : ∀ p, p ∈ steps ↔ p < s.cycle ∧ q (s.mark p) = true) :
    Nat.count (fun p => q (s.mark p) = true) s.cycle = steps.card := by
  rw [Nat.count_eq_card_filter_range]
  congr 1
  ext p
  rw [Finset.mem_filter, Finset.mem_range, hsteps]

theorem count_quarters (s : Sequencer) :
    Nat.count (fun p => (s.mark p).quarter = true) s.cycle = 4 := by
  have hcycle := s.cycle_eq
  have hlimit := s.limit_cases
  rw [count_marks {7456, 14912, 22370, s.cycle - 2} fun p => ?_]
  · obtain ⟨-, hl⟩ | ⟨-, hl⟩ := hlimit <;> rw [hcycle, hl] <;> rfl
  · simp only [mark, decide_eq_true_eq, Finset.mem_insert, Finset.mem_singleton]
    omega

theorem count_halves (s : Sequencer) :
    Nat.count (fun p => (s.mark p).half = true) s.cycle = 2 := by
  have hcycle := s.cycle_eq
  have hlimit := s.limit_cases
  rw [count_marks {14912, s.cycle - 2} fun p => ?_]
  · obtain ⟨-, hl⟩ | ⟨-, hl⟩ := hlimit <;> rw [hcycle, hl] <;> rfl
  · simp only [mark, decide_eq_true_eq, Finset.mem_insert, Finset.mem_singleton]
    omega

/-- What is clocked in a cycle does not hang on the phase it starts from. -/
theorem count_emitted {s : Sequencer} (hdelay : s.delay = 0) (hcounter : s.counter < s.limit)
    (q : FrameClock → Bool) : Nat.count (fun i => q (s.emitted i) = true) s.cycle =
      Nat.count (fun p => q (s.mark p) = true) s.cycle := by
  simp only [emitted_eq hdelay hcounter]
  exact count_phases (fun p => q (s.mark p) = true) s.phase s.cycle

theorem elapse_cycle {s : Sequencer} (hdelay : s.delay = 0) (hcounter : s.counter < s.limit) :
    s.elapse s.cycle = { s with irq := s.irq || s.interrupts } := by
  obtain ⟨irq, heq, hirq⟩ := elapse_eq hdelay hcounter s.cycle
  have hlast : ∃ i < s.cycle, (s.phase + i) % s.cycle + 2 = s.cycle := by
    have hp := s.phase_lt
    refine ⟨(2 * s.cycle - 2 - s.phase) % s.cycle, Nat.mod_lt _ (Nat.zero_lt_of_lt hp), ?_⟩
    obtain ⟨-, hl⟩ | ⟨-, hl⟩ := s.limit_cases
    all_goals
      rw [cycle_eq, hl] at hp ⊢
      omega
  have hasked : irq = (s.irq || s.interrupts) := by
    rw [Bool.eq_iff_iff, hirq, Bool.or_eq_true, and_iff_left hlast]
  have hsame := atPhase_phase hcounter
  rw [heq, Nat.add_mod_right, Nat.mod_eq_of_lt s.phase_lt, hasked]
  conv_rhs => rw [← hsame]
  rfl

/-! A mode change. -/

theorem advance_rest (s : Sequencer) (clocks : FrameClock) :
    ∃ counter irq, (s.advance clocks).2 = { s with counter, irq } := by
  unfold advance
  dsimp only
  split_ifs <;> exact ⟨_, _, rfl⟩

theorem clock_delayed {s : Sequencer} (h : s.delay ≠ 1) :
    s.clock.2.delay = s.delay - 1 ∧ s.clock.2.nextFiveStep = s.nextFiveStep := by
  have hsettle := settle_delayed h
  cases hodd : s.oddCycle with
  | false =>
    obtain ⟨_, _, hadvance⟩ := { s with delay := s.delay - 1, oddCycle := true }.advance_rest {}
    rw [clock_of_even hodd, hsettle]
    dsimp only
    rw [hadvance]
    exact ⟨rfl, rfl⟩
  | true =>
    rw [clock_of_odd hodd, hsettle]
    exact ⟨rfl, rfl⟩

theorem elapse_write (s : Sequencer) (v : UInt8) :
    ((s.write v).elapse 2).delay = 1 ∧
    ((s.write v).elapse 2).nextFiveStep = Byte.has v 0x80 := by
  have hwritten : (s.write v).delay = 3 := rfl
  obtain ⟨hdelay, hnext⟩ := clock_delayed (s := s.write v) (by omega)
  obtain ⟨hdelay', hnext'⟩ := clock_delayed (s := (s.write v).clock.2) (by omega)
  rw [elapse_succ, elapse_succ]
  exact ⟨hdelay'.trans (by omega), hnext'.trans hnext⟩

theorem clock_due {s : Sequencer} (h : s.delay = 1) :
    s.clock = (if s.nextFiveStep then { quarter := true, half := true } else {},
      { s with
        delay := 0, fiveStep := s.nextFiveStep, oddCycle := !s.oddCycle,
        counter := if s.oddCycle then 0 else 1 }) := by
  cases hodd : s.oddCycle with
  | false =>
    rw [clock_of_even hodd, settle_due h]
    rfl
  | true =>
    rw [clock_of_odd hodd, settle_due h]
    rfl

/-- The count stays below the end of its mode, and a half frame is never clocked without a quarter
frame. With no change under way, a window as long as a cycle clocks four quarter frames and two half
frames, and leads back to the state it started from, with an interrupt asked for unless that is
inhibited or the mode has none. A write takes effect with the third clock after it, which restarts
the count, and clocks both if the mode is the longer one. -/
theorem sequence_periodic (es : List Event) :
    let s := run es
    s.counter < (if s.fiveStep then 18641 else 14916) ∧
    (∀ i, (s.emitted i).half = true → (s.emitted i).quarter = true) ∧
    (s.delay = 0 →
      let window := if s.fiveStep then 37282 else 29832
      Nat.count (fun i => (s.emitted i).quarter = true) window = 4 ∧
      Nat.count (fun i => (s.emitted i).half = true) window = 2 ∧
      s.elapse window = { s with irq := s.irq || (!s.fiveStep && !s.irqInhibit) }) ∧
    ∀ v,
      let t := (s.write v).elapse 2
      t.clock.1.quarter = Byte.has v 0x80 ∧ t.clock.1.half = Byte.has v 0x80 ∧
      t.clock.2 = { t with
        delay := 0
        fiveStep := Byte.has v 0x80
        counter := if t.oddCycle then 0 else 1
        oddCycle := !t.oddCycle } := by
  have hcounter := counter_run es
  refine ⟨hcounter, fun i => quarter_of_half_clock _, fun hdelay => ⟨?_, ?_, ?_⟩, fun v => ?_⟩
  · exact (count_emitted hdelay hcounter FrameClock.quarter).trans (count_quarters _)
  · exact (count_emitted hdelay hcounter FrameClock.half).trans (count_halves _)
  · exact elapse_cycle hdelay hcounter
  · obtain ⟨hdue, hnext⟩ := (run es).elapse_write v
    dsimp only
    rw [clock_due hdue, hnext]
    cases Byte.has v 0x80 <;> exact ⟨rfl, rfl, rfl⟩

/-- In five steps, from the middle of a pair of cycles and with the interrupt acknowledged. -/
theorem sequence_periodic_midway :
    let es := [.write 0x80, .clock, .clock, .clock, .clock, .acknowledge, .clock]
    (run es).delay = 0 ∧
    Nat.count (fun i => ((run es).emitted i).quarter = true) 37282 = 4 ∧
    Nat.count (fun i => ((run es).emitted i).half = true) 37282 = 2 ∧
    (run es).elapse 37282 = run es := by
  intro es
  have hdelay : (run es).delay = 0 := rfl
  obtain ⟨-, -, hwindow, -⟩ := sequence_periodic es
  obtain ⟨hquarters, hhalves, hsame⟩ := hwindow hdelay
  exact ⟨hdelay, hquarters, hhalves, hsame⟩

end Sequencer
end Famicom.Apu
