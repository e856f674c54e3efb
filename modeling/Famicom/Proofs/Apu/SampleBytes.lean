import Famicom.Apu.Dmc
import Famicom.Proofs.Bytes
import Mathlib.Data.Nat.Count

/-! The bytes of a sample on their way through the delta channel, from the reader to the level. The
buffer between the two has room for one byte and is looked at once in eight expiries of the timer.
No byte is lost there, none is played twice, and the bits of each are played in order. -/
namespace Famicom.Apu.Dmc

inductive Event where
  | write (register : UInt16) (v : UInt8)
  | setEnabled (on : Bool)
  | clock
  | deliver (v : UInt8)

def after (d : Dmc) : Event → Dmc
  | .write register v => d.write register v
  | .setEnabled on => d.setEnabled on
  | .clock => d.clockTimer
  | .deliver v => d.deliver v

def history (es : Nat → Event) : Nat → Dmc
  | 0 => {}
  | n + 1 => (history es n).after (es n)

/-! What can be seen of an event. -/

def expires (d : Dmc) : Event → Bool
  | .clock => d.timer == 0
  | .write .. | .setEnabled _ | .deliver _ => false

def accepted? (d : Dmc) : Event → Option UInt8
  | .deliver v => if d.wants then some v else none
  | .write .. | .setEnabled _ | .clock => none

/-- The byte that has left the buffer, as the shift register has it. -/
def loaded? (d : Dmc) (e : Event) : Option UInt8 :=
  if !d.bufferEmpty && (d.after e).bufferEmpty then some (d.after e).shift else none

/-- A step of two up or down, which is not taken if it leads out of the range. -/
def moved (level : Nat) (up : Bool) : Int :=
  let next : Int := level + if up then 2 else -2
  if 0 ≤ next ∧ next ≤ 127 then next else level

/-- The level after bit `i` of a byte, if there is one. -/
def played (level : Nat) (w : Option UInt8) (i : Nat) : Int :=
  match w with
  | none => level
  | some v => moved level (v.toNat.testBit i)

/-! What can be seen of the first `n` events. -/

section Run
variable (es : Nat → Event)

def accepted (n : Nat) : List UInt8 :=
  (List.range n).filterMap fun i => (history es i).accepted? (es i)

def loaded (n : Nat) : List UInt8 :=
  (List.range n).filterMap fun i => (history es i).loaded? (es i)

def expiries (n : Nat) : Nat := Nat.count (fun i => (history es i).expires (es i)) n

/-- The first byte that was accepted and has not been loaded. -/
def waiting? (n : Nat) : Option UInt8 := (accepted es n)[(loaded es n).length]?

/-- A group of eight expiries begins before event `n`, and `w` was waiting for it. -/
inductive Begins : (n : Nat) → (w : Option UInt8) → Prop
  | first : Begins 0 none
  | next {n : Nat} {w : Option UInt8} (hexpires : (history es n).expires (es n) = true)
    (hcount : expiries es (n + 1) % 8 = 0) (hw : waiting? es n = w) : Begins (n + 1) w

/-- Event `n` comes in the group that begins before event `m`. -/
def Within (m n : Nat) : Prop := m ≤ n ∧ expiries es n < expiries es m + 8

/-- The group that begins before event `m` is silent if nothing was waiting for it. Else each of its
expiries moves the level by the next bit of that byte, and the next byte is not loaded before the
last of them. -/
structure Plays (m : Nat) (w : Option UInt8) : Prop where
  silent_eq : ∀ n, Within es m n → (history es n).silent = w.isNone
  level_eq : ∀ n, Within es m n → (history es n).expires (es n) = true →
    (history es (n + 1)).level = played (history es n).level w (expiries es n - expiries es m)
  load_last : ∀ n, Within es m n → (history es n).loaded? (es n) ≠ none →
    expiries es (n + 1) = expiries es m + 8

end Run

/-! One event. -/

def held (d : Dmc) : List UInt8 := if d.bufferEmpty then [] else [d.buffer]

def sounded (d : Dmc) : Nat := if d.silent then d.level else nudge d.level (Byte.has d.shift 1)

structure Rests (d : Dmc) (e : Event) : Prop where
  shift_eq : (d.after e).shift = d.shift
  bits_eq : (d.after e).bits = d.bits
  silent_eq : (d.after e).silent = d.silent
  loaded_eq : d.loaded? e = none
  held_eq : (d.after e).held = d.held ++ (d.accepted? e).toList
  level_eq : (d.after e).level = d.level ∨
    ∃ v, e = .write 1 v ∧ (d.after e).level = v.toNat % 128

section Event
variable {d : Dmc}

theorem write_eq (d : Dmc) (register : UInt16) (v : UInt8) :
    ∃ irqEnabled loop period irq level sampleAddress sampleLength,
      d.write register v =
        { d with irqEnabled, loop, period, irq, level, sampleAddress, sampleLength } ∧
      (level = d.level ∨ register = 1 ∧ level = v.toNat % 128) := by
  unfold write
  split
  · exact ⟨_, _, _, _, _, _, _, rfl, .inl rfl⟩
  · exact ⟨_, _, _, _, _, _, _, rfl, .inr ⟨rfl, rfl⟩⟩
  · exact ⟨_, _, _, _, _, _, _, rfl, .inl rfl⟩
  · exact ⟨_, _, _, _, _, _, _, rfl, .inl rfl⟩

theorem setEnabled_eq (d : Dmc) (on : Bool) :
    ∃ irq address remaining, d.setEnabled on = { d with irq, address, remaining } := by
  simp only [setEnabled, restart]
  split_ifs <;> exact ⟨_, _, _, rfl⟩

theorem deliver_wanted (h : d.wants = true) (v : UInt8) : ∃ address remaining irq,
    d.deliver v = { d with buffer := v, bufferEmpty := false, address, remaining, irq } := by
  simp only [deliver, restart, if_pos h]
  split_ifs <;> exact ⟨_, _, _, rfl⟩

theorem deliver_unwanted (h : ¬d.wants = true) (v : UInt8) : d.deliver v = d := if_neg h

theorem clockTimer_idle (h : d.timer ≠ 0) : d.clockTimer = { d with timer := d.timer - 1 } :=
  if_pos h

theorem rests {e : Event} (h : d.expires e = false) : Rests d e := by
  cases e with
  | write register v =>
    obtain ⟨_, _, _, _, level, _, _, hwrite, hlevel⟩ := d.write_eq register v
    constructor <;> simp [after, loaded?, held, accepted?, hwrite]
    simpa [eq_comm] using hlevel
  | setEnabled on =>
    obtain ⟨_, _, _, hset⟩ := d.setEnabled_eq on
    constructor <;> simp [after, loaded?, held, accepted?, hset]
  | deliver v =>
    by_cases hwants : d.wants = true
    · obtain ⟨_, _, _, hdeliver⟩ := deliver_wanted hwants v
      have hempty : d.bufferEmpty = true := (Bool.and_eq_true_iff.mp hwants).1
      constructor <;> simp [after, loaded?, held, accepted?, hdeliver, hwants, hempty]
    · constructor <;> simp [after, loaded?, held, accepted?, deliver_unwanted hwants, hwants]
  | clock =>
    have htimer : d.timer ≠ 0 := bne_iff_ne.mp (by simpa [expires] using h)
    constructor <;> simp [after, loaded?, held, accepted?, clockTimer_idle htimer]

/-! An expiry. -/

section Expiry
variable {e : Event} (h : d.expires e = true)
include h

theorem eq_clock : e = .clock ∧ d.timer = 0 := by
  cases e with
  | clock => exact ⟨rfl, beq_iff_eq.mp h⟩
  | write | setEnabled | deliver => cases h

theorem accepted?_expiry : d.accepted? e = none := by
  rw [(eq_clock h).1, accepted?]

theorem after_midway (hbits : 1 < d.bits) :
    d.after e = { d with
      timer := d.period - 1, level := d.sounded, shift := d.shift >>> 1, bits := d.bits - 1 } := by
  obtain ⟨rfl, htimer⟩ := eq_clock h
  have hmore : d.bits - 1 ≠ 0 := by omega
  simp only [after, clockTimer, sounded, htimer, ne_eq, not_true_eq_false, if_false, if_pos hmore]

theorem after_last (hbits : d.bits = 1) :
    d.after e = { d with
      timer := d.period - 1, level := d.sounded, bits := 8, silent := d.bufferEmpty,
      shift := if d.bufferEmpty then d.shift >>> 1 else d.buffer, bufferEmpty := true } := by
  obtain ⟨rfl, htimer⟩ := eq_clock h
  cases hempty : d.bufferEmpty <;> simp [after, clockTimer, sounded, htimer, hbits, hempty]

theorem loaded?_midway (hbits : 1 < d.bits) : d.loaded? e = none := by
  simp [loaded?, after_midway h hbits]

theorem loaded?_last (hbits : d.bits = 1) : d.loaded? e = d.held.head? := by
  cases hempty : d.bufferEmpty <;> simp [loaded?, held, after_last h hbits, hempty]

theorem level_expiry (hbits : 0 < d.bits) : (d.after e).level = d.sounded := by
  obtain hlast | hmidway := Nat.eq_or_lt_of_le hbits
  · rw [after_last h hlast.symm]
  · rw [after_midway h hmidway]

end Expiry

/-- A byte that comes in goes to the back of the queue, and one that is loaded is taken from its
front. -/
theorem held_after (e : Event) (hbits : 0 < d.bits) :
    d.held ++ (d.accepted? e).toList = (d.loaded? e).toList ++ (d.after e).held := by
  cases hexpires : d.expires e with
  | false =>
    have hrests := rests hexpires
    rw [hrests.loaded_eq, hrests.held_eq, Option.toList_none, List.nil_append]
  | true =>
    rw [accepted?_expiry hexpires, Option.toList_none, List.append_nil]
    obtain hlast | hmidway := Nat.eq_or_lt_of_le hbits
    · rw [loaded?_last hexpires hlast.symm, after_last hexpires hlast.symm, held, held]
      cases d.bufferEmpty <;> rfl
    · rw [loaded?_midway hexpires hmidway, after_midway hexpires hmidway]
      rfl

/-! The level. -/

theorem nudge_eq_moved {level : Nat} (h : level ≤ 127) (up : Bool) :
    (nudge level up : Int) = moved level up := by
  cases up <;> simp only [nudge, moved] <;> split_ifs <;> omega

theorem nudge_le {level : Nat} (h : level ≤ 127) (up : Bool) : nudge level up ≤ 127 := by
  cases up <;> simp only [nudge] <;> split_ifs <;> omega

end Event

/-! A run. -/

section Run
variable (es : Nat → Event)

theorem accepted_succ (n : Nat) : accepted es (n + 1) =
    accepted es n ++ ((history es n).accepted? (es n)).toList := by
  rw [accepted, accepted, List.range_succ, List.filterMap_append]
  cases h : (history es n).accepted? (es n) <;> simp [h]

theorem loaded_succ (n : Nat) : loaded es (n + 1) =
    loaded es n ++ ((history es n).loaded? (es n)).toList := by
  rw [loaded, loaded, List.range_succ, List.filterMap_append]
  cases h : (history es n).loaded? (es n) <;> simp [h]

theorem expiries_succ (n : Nat) : expiries es (n + 1) =
    expiries es n + if (history es n).expires (es n) then 1 else 0 :=
  Nat.count_succ _ n

theorem bits_eq (n : Nat) : (history es n).bits = 8 - expiries es n % 8 := by
  induction n with
  | zero => rfl
  | succ n ih =>
    rw [expiries_succ, history]
    cases hexpires : (history es n).expires (es n) with
    | false =>
      rw [(rests hexpires).bits_eq, ih]
      rfl
    | true =>
      have hbits : 0 < (history es n).bits := by omega
      rw [if_pos rfl]
      obtain hlast | hmidway := Nat.eq_or_lt_of_le hbits
      · rw [after_last hexpires hlast.symm]
        dsimp only
        omega
      · rw [after_midway hexpires hmidway]
        dsimp only
        omega

theorem bits_pos (n : Nat) : 0 < (history es n).bits := by
  rw [bits_eq]
  omega

theorem accepted_eq (n : Nat) : accepted es n = loaded es n ++ (history es n).held := by
  induction n with
  | zero => rfl
  | succ n ih =>
    rw [accepted_succ, loaded_succ, ih, List.append_assoc, List.append_assoc,
      held_after (es n) (bits_pos es n), history]

theorem waiting?_eq (n : Nat) : waiting? es n = (history es n).held.head? := by
  rw [waiting?, accepted_eq, List.getElem?_append_right (Nat.le_refl _), Nat.sub_self,
    List.head?_eq_getElem?]

theorem level_le (n : Nat) : (history es n).level ≤ 127 := by
  induction n with
  | zero => exact Nat.zero_le _
  | succ n ih =>
    rw [history]
    cases hexpires : (history es n).expires (es n) with
    | false =>
      obtain hsame | ⟨v, -, hwritten⟩ := (rests hexpires).level_eq
      · rwa [hsame]
      · omega
    | true =>
      rw [level_expiry hexpires (bits_pos es n), sounded]
      split_ifs
      · exact ih
      · exact nudge_le ih _

end Run

/-! A group of eight expiries. -/

section Group
variable {es : Nat → Event} {m n : Nat} {w : Option UInt8}

theorem Begins.count (h : Begins es m w) : expiries es m % 8 = 0 := by
  cases h with
  | first => rfl
  | next _ hcount _ => exact hcount

theorem Begins.expires (h : Begins es (n + 1) w) : (history es n).expires (es n) = true := by
  cases h with
  | next hexpires _ _ => exact hexpires

theorem expiries_mono (es : Nat → Event) (h : m ≤ n) : expiries es m ≤ expiries es n :=
  Nat.count_monotone _ h

/-- The eighth expiry is the one that finds a single bit left. -/
theorem bits_of_ends (hexpires : (history es n).expires (es n) = true)
    (hcount : expiries es (n + 1) % 8 = 0) : (history es n).bits = 1 := by
  rw [expiries_succ, if_pos hexpires] at hcount
  rw [bits_eq]
  omega

/-- What a load puts into the shift register was waiting, and begins a group. -/
theorem loaded?_eq_some_iff {v : UInt8} :
    (history es n).loaded? (es n) = some v ↔ Begins es (n + 1) (some v) := by
  constructor
  · intro hload
    have hexpires : (history es n).expires (es n) = true := by
      by_contra hno
      rw [(rests (Bool.not_eq_true _ ▸ hno)).loaded_eq] at hload
      cases hload
    have hlast : (history es n).bits = 1 := by
      by_contra hmore
      have hpos := bits_pos es n
      rw [loaded?_midway hexpires (by omega)] at hload
      cases hload
    refine .next hexpires ?_ ?_
    · rw [bits_eq] at hlast
      rw [expiries_succ, if_pos hexpires]
      omega
    · rw [waiting?_eq, ← loaded?_last hexpires hlast, hload]
  · intro hbegins
    cases hbegins with
    | next hexpires hcount hw =>
      rw [loaded?_last hexpires (bits_of_ends hexpires hcount), ← waiting?_eq, hw]

example :
    let es n := ([.write 0 0x0F, .setEnabled true, .deliver 0xAA] : List Event).getD n .clock
    (history es 381).loaded? (es 381) = some 0xAA := by decide +kernel

/-- The output unit in the middle of a group: it has shifted out a bit for every expiry. -/
structure Shifts (es : Nat → Event) (m : Nat) (w : Option UInt8) (n : Nat) : Prop where
  silent_eq : (history es n).silent = w.isNone
  shift_eq : ∀ v ∈ w, (history es n).shift.toNat = v.toNat >>> (expiries es n - expiries es m)

theorem Begins.shifts (h : Begins es m w) : Shifts es m w m := by
  cases h with
  | first =>
    constructor
    · rfl
    · intro v hv
      cases hv
  | @next n _ hexpires hcount hw =>
    have hlast := bits_of_ends hexpires hcount
    rw [waiting?_eq, held] at hw
    subst hw
    cases hempty : (history es n).bufferEmpty <;>
      constructor <;> simp [history, after_last hexpires hlast, hempty]

theorem Shifts.succ (h : Shifts es m w n) (hm : Begins es m w) (hmn : m ≤ n)
    (hn : expiries es (n + 1) < expiries es m + 8) : Shifts es m w (n + 1) := by
  have hbefore := expiries_mono es hmn
  have hcount := expiries_succ es n
  cases hexpires : (history es n).expires (es n) with
  | false =>
    rw [hexpires] at hcount
    have hrests := rests hexpires
    constructor
    · rw [history, hrests.silent_eq, h.silent_eq]
    · intro v hv
      rw [history, hrests.shift_eq, h.shift_eq v hv, hcount]
      rfl
  | true =>
    rw [hexpires, if_pos rfl] at hcount
    have hmidway : 1 < (history es n).bits := by
      have hfull := hm.count
      rw [bits_eq]
      omega
    have hplace : expiries es (n + 1) - expiries es m = expiries es n - expiries es m + 1 := by
      omega
    constructor
    · rw [history, after_midway hexpires hmidway, ← h.silent_eq]
    · intro v hv
      rw [history, after_midway hexpires hmidway, UInt8.toNat_shiftRight, h.shift_eq v hv, hplace,
        Nat.shiftRight_add]
      rfl

theorem Begins.shifts_within (hm : Begins es m w) (hn : Within es m n) : Shifts es m w n := by
  obtain ⟨hmn, hlt⟩ := hn
  induction n, hmn using Nat.le_induction with
  | base => exact hm.shifts
  | succ n hmn ih =>
    have hless : expiries es n ≤ expiries es (n + 1) := expiries_mono es (Nat.le_succ n)
    exact (ih (by omega)).succ hm hmn hlt

theorem sounded_within (hm : Begins es m w) (hn : Within es m n) :
    ((history es n).sounded : Int) =
      played (history es n).level w (expiries es n - expiries es m) := by
  have hshifts := hm.shifts_within hn
  rw [sounded, hshifts.silent_eq]
  cases w with
  | none => rfl
  | some v =>
    have hbit : Byte.has (history es n).shift 1 =
        v.toNat.testBit (expiries es n - expiries es m) := by
      rw [Byte.has_one, hshifts.shift_eq v rfl, Nat.testBit_shiftRight, Nat.add_zero]
    rw [Option.isNone_some, if_neg Bool.false_ne_true, nudge_eq_moved (level_le es n), hbit, played]

theorem Begins.plays (hm : Begins es m w) : Plays es m w := by
  constructor
  · intro n hn
    exact (hm.shifts_within hn).silent_eq
  · intro n hn hexpires
    rw [history, level_expiry hexpires (bits_pos es n), sounded_within hm hn]
  · intro n hn hload
    obtain ⟨v, hv⟩ := Option.ne_none_iff_exists'.mp hload
    have hnext := loaded?_eq_some_iff.mp hv
    have hfull := hm.count
    have hbefore := expiries_mono es hn.1
    have hlt := hn.2
    have hcount := expiries_succ es n
    rw [if_pos hnext.expires] at hcount
    have hends := hnext.count
    omega

theorem exists_begins (es : Nat → Event) (n : Nat) : ∃ m w, Begins es m w ∧ Within es m n := by
  induction n with
  | zero => exact ⟨0, none, .first, Nat.le_refl 0, by omega⟩
  | succ n ih =>
    obtain ⟨m, w, hm, hmn, hlt⟩ := ih
    have hfull := hm.count
    have hcount := expiries_succ es n
    have hbefore := expiries_mono es hmn
    by_cases hin : expiries es (n + 1) < expiries es m + 8
    · exact ⟨m, w, hm, hmn.trans (Nat.le_succ n), hin⟩
    · have hexpires : (history es n).expires (es n) = true := by
        by_contra hno
        rw [if_neg hno] at hcount
        omega
      rw [if_pos hexpires] at hcount
      exact ⟨n + 1, _, .next hexpires (by omega) rfl, Nat.le_refl _, by omega⟩

end Group

/-- Bytes are loaded in the order in which they were accepted, and at most one is waiting. A byte is
loaded to play the group of expiries that begins then, and no other; every event comes in a group;
and apart from the bits that are played, only a write moves the level. -/
theorem sample_bytes_kept (es : Nat → Event) :
    (∀ n, loaded es n <+: accepted es n ∧
      (accepted es n).length ≤ (loaded es n).length + 1) ∧
    (∀ n v, (history es n).loaded? (es n) = some v ↔ Begins es (n + 1) (some v)) ∧
    (∀ n, ∃ m w, Begins es m w ∧ Within es m n) ∧
    (∀ m w, Begins es m w → Plays es m w) ∧
    ∀ n, (history es (n + 1)).level ≠ (history es n).level →
      (history es n).expires (es n) = true ∧ (history es n).silent = false ∨
      ∃ v, es n = .write 1 v ∧ (history es (n + 1)).level = v.toNat % 128 := by
  refine ⟨fun n => ?_, fun n v => loaded?_eq_some_iff, exists_begins es,
    fun m w hm => hm.plays, fun n hmoved => ?_⟩
  · rw [accepted_eq]
    refine ⟨List.prefix_append _ _, ?_⟩
    rw [List.length_append, held]
    split_ifs <;> simp
  · rw [history] at hmoved ⊢
    cases hexpires : (history es n).expires (es n) with
    | false =>
      obtain hsame | hwritten := (rests hexpires).level_eq
      · exact absurd hsame hmoved
      · exact .inr hwritten
    | true =>
      refine .inl ⟨rfl, ?_⟩
      by_contra hsilent
      rw [level_expiry hexpires (bits_pos es n), sounded, if_pos (by simpa using hsilent)]
        at hmoved
      exact hmoved rfl

end Famicom.Apu.Dmc
