import Famicom.Apu.Envelope
import Mathlib.Data.Nat.Count
import Mathlib.Logic.Function.Iterate
import Mathlib.Tactic.SplitIfs

/-! Dividers. A timer counts down with every clock, and the clock that finds it at zero starts it
anew and moves on what it drives. Started at `p`, it lets one clock in `p + 1` through. The units of
the channels are such dividers with something else around them; the envelope is the least of them. -/
namespace Famicom.Apu

/-- A timer and what it drives. -/
structure Divider (α : Type) where
  timer : Nat
  phase : α

namespace Divider
variable {α : Type}

/-- One clock, where the timer is started anew at `p` and the phase moves on by `f`. -/
def clock (p : Nat) (f : α → α) (d : Divider α) : Divider α :=
  if d.timer = 0 then ⟨p, f d.phase⟩ else ⟨d.timer - 1, d.phase⟩

theorem succ_div_mod_last {m n : Nat} (h : n % m + 1 = m) :
    (n + 1) / m = n / m + 1 ∧ (n + 1) % m = 0 := by
  have hn := Nat.mod_add_div n m
  rw [Nat.div_mod_unique (by omega), Nat.mul_add]
  omega

theorem succ_div_mod_midway {m n : Nat} (h : n % m + 1 < m) :
    (n + 1) / m = n / m ∧ (n + 1) % m = n % m + 1 := by
  have hn := Nat.mod_add_div n m
  rw [Nat.div_mod_unique (by omega)]
  omega

/-- The closed form of any number of clocks. -/
theorem iterate_clock (p : Nat) (f : α → α) (a : α) (n : Nat) :
    (clock p f)^[n] ⟨p, a⟩ = ⟨p - n % (p + 1), f^[n / (p + 1)] a⟩ := by
  induction n with
  | zero => simp
  | succ n ih =>
    have hle : n % (p + 1) ≤ p := Nat.le_of_lt_succ (Nat.mod_lt n p.succ_pos)
    rw [Function.iterate_succ_apply', ih, clock]
    obtain hlast | hmidway := Nat.eq_or_lt_of_le hle
    · obtain ⟨hdiv, hmod⟩ := succ_div_mod_last (congrArg (· + 1) hlast)
      rw [if_pos (Nat.sub_eq_zero_of_le hlast.ge), hdiv, hmod, Function.iterate_succ_apply']
      rfl
    · obtain ⟨hdiv, hmod⟩ := succ_div_mod_midway (Nat.add_lt_add_right hmidway 1)
      rw [if_neg (Nat.sub_ne_zero_of_lt hmidway), hdiv, hmod, Nat.sub_sub]

/-- Of what happens to a divider, only the clocks count. -/
theorem run_eq_iterate {p : Nat} {f : α → α} {ticks : Nat → Prop} [DecidablePred ticks]
    {d : Nat → Divider α} {n : Nat}
    (h : ∀ k < n, d (k + 1) = if ticks k then (d k).clock p f else d k) :
    d n = (clock p f)^[Nat.count ticks n] (d 0) := by
  induction n with
  | zero => rfl
  | succ n ih =>
    rw [h n (Nat.lt_succ_self n), ih fun k hk => h k (Nat.lt_succ_of_lt hk), Nat.count_succ]
    split_ifs
    · rw [Function.iterate_succ_apply']
    · rfl

theorem run_eq {p : Nat} {f : α → α} {ticks : Nat → Prop} [DecidablePred ticks]
    {d : Nat → Divider α} {n : Nat} (hstart : (d 0).timer = p)
    (h : ∀ k < n, d (k + 1) = if ticks k then (d k).clock p f else d k) :
    d n = ⟨p - Nat.count ticks n % (p + 1), f^[Nat.count ticks n / (p + 1)] (d 0).phase⟩ := by
  rw [run_eq_iterate h, show d 0 = ⟨p, (d 0).phase⟩ by rw [← hstart], iterate_clock]

theorem iterate_cycle {m i : Nat} (hi : i < m) (k : Nat) :
    (fun j => (j + 1) % m)^[k] i = (i + k) % m := by
  induction k with
  | zero => exact (Nat.mod_eq_of_lt hi).symm
  | succ k ih => rw [Function.iterate_succ_apply', ih, Nat.mod_add_mod, Nat.add_assoc]

end Divider

namespace Envelope

def fading (e : Envelope) : Divider Nat := ⟨e.divider, e.decay⟩

def fall (loop : Bool) (level : Nat) : Nat :=
  if level ≠ 0 then level - 1 else if loop then 15 else 0

/-- The level after a number of falls. The subtraction stops at zero. -/
theorem iterate_fall (loop : Bool) (k : Nat) :
    (fall loop)^[k] 15 = 15 - if loop then k % 16 else k := by
  induction k with
  | zero => cases loop <;> rfl
  | succ k ih =>
    rw [Function.iterate_succ_apply', ih, fall]
    cases loop
    · simp only [Bool.false_eq_true, if_false, Nat.sub_ne_zero_iff_lt]
      split_ifs <;> omega
    · simp only [if_true, Nat.sub_ne_zero_iff_lt]
      split_ifs <;> omega

structure Fades (e e' : Envelope) : Prop where
  start_eq : e'.start = false
  loop_eq : e'.loop = e.loop
  constant_eq : e'.constant = e.constant
  volume_eq : e'.volume = e.volume

theorem fades_clock (e : Envelope) : Fades e e.clock := by
  unfold clock
  dsimp only
  split_ifs with hstart
  · exact ⟨rfl, rfl, rfl, rfl⟩
  all_goals exact ⟨Bool.eq_false_iff.mpr hstart, rfl, rfl, rfl⟩

theorem Fades.clock {e e' : Envelope} (h : Fades e e') : Fades e e'.clock := by
  have hclock := fades_clock e'
  exact ⟨hclock.start_eq, hclock.loop_eq.trans h.loop_eq, hclock.constant_eq.trans h.constant_eq,
    hclock.volume_eq.trans h.volume_eq⟩

theorem fading_clock {e : Envelope} (h : e.start = false) :
    e.clock.fading = e.fading.clock e.volume (fall e.loop) := by
  by_cases htimer : e.divider = 0
  · simp [Envelope.clock, Divider.clock, fading, fall, h, htimer]
  · simp [Envelope.clock, Divider.clock, fading, h, htimer]

theorem fades_iterate (e : Envelope) (n : Nat) : Fades e (clock^[1 + n] e.restart) := by
  induction n with
  | zero => exact { fades_clock e.restart with }
  | succ n ih =>
    rw [← Nat.add_assoc, Function.iterate_succ_apply']
    exact ih.clock

/-- The first clock starts the divider, and all others are divided. -/
theorem fading_iterate (e : Envelope) (n : Nat) : (clock^[1 + n] e.restart).fading =
    (Divider.clock e.volume (fall e.loop))^[n] ⟨e.volume, 15⟩ := by
  induction n with
  | zero => rfl
  | succ n ih =>
    have h := e.fades_iterate n
    rw [← Nat.add_assoc, Function.iterate_succ_apply', Function.iterate_succ_apply',
      fading_clock h.start_eq, ih, h.volume_eq, h.loop_eq]

/-- The level `n` quarter frames after the first. It falls every `volume + 1` of them, to zero at
last, where it stays or begins anew. -/
def level (e : Envelope) (n : Nat) : Nat :=
  let falls := n / (e.volume + 1)
  15 - if e.loop then falls % 16 else falls

/-- Whatever state an envelope is restarted in, its level is told by the quarter frames since, and
the constant volume takes its place if that is asked for. -/
theorem restart_fades {e : Envelope} (hvolume : e.volume ≤ 15) (n : Nat) :
    let e' := clock^[1 + n] e.restart
    e'.decay = e.level n ∧
      e'.output = (if e.constant then e.volume else e.level n) ∧
      e'.output ≤ 15 := by
  intro e'
  have h := e.fades_iterate n
  have hdecay : e'.decay = e.level n := by
    have hfading := e.fading_iterate n
    rw [Divider.iterate_clock, iterate_fall] at hfading
    exact congrArg Divider.phase hfading
  have houtput : e'.output = if e.constant then e.volume else e.level n := by
    rw [output, h.constant_eq, h.volume_eq, hdecay]
  refine ⟨hdecay, houtput, ?_⟩
  rw [houtput]
  split_ifs
  · exact hvolume
  · exact Nat.sub_le _ _

/-- A looping envelope at the end of its second round, restarted in the middle of something else. -/
theorem restart_fades_looping :
    let e : Envelope := { loop := true, volume := 2, divider := 7, decay := 9 }
    e.volume ≤ 15 ∧ (clock^[1 + 95] e.restart).decay = 0 ∧
      (clock^[1 + 96] e.restart).decay = 15 ∧ (clock^[1 + 96] e.restart).output ≤ 15 := by
  intro e
  have hvolume : e.volume ≤ 15 := by decide
  obtain ⟨hlast, -, -⟩ := restart_fades hvolume 95
  obtain ⟨hfirst, -, hle⟩ := restart_fades hvolume 96
  exact ⟨hvolume, hlast.trans (by decide), hfirst.trans (by decide), hle⟩

end Envelope
end Famicom.Apu
