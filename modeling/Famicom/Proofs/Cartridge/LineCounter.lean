import Famicom.Cartridge.Mmc3
import Mathlib.Data.Nat.ModEq
import Mathlib.Tactic.SplitIfs

/-! The scanline counter of the MMC3 chip. Of an address it takes line 12 alone. How that line
stands and how long it has been at rest decide which accesses count, and the registers change on
those and no others; each such change is one step of a cycle of as many steps as the latch holds,
and one more. -/
namespace Famicom.Cartridge

def line12 (a : Nat) : Bool := a / 0x1000 % 2 = 1

namespace LineCounter
variable (c : LineCounter)

/-! The filter. -/

/-- An access counts that raises line 12 after it has rested. -/
def rises (high : Bool) : Bool := high && !c.a12High && filter ≤ c.lowDots

def see (high : Bool) : LineCounter :=
  { if c.rises high then c.count else c with
    a12High := high
    lowDots := if high then 0 else c.lowDots }

theorem observe_eq (a : Nat) : c.observe a = c.see (line12 a) := by
  unfold observe see rises line12
  by_cases h : a / 0x1000 % 2 = 0
  · have h1 : ¬a / 0x1000 % 2 = 1 := by omega
    simp only [h, if_true, Nat.zero_ne_one, decide_false, Bool.false_and, Bool.false_eq_true,
      if_false]
  · have h1 : a / 0x1000 % 2 = 1 := by omega
    simp only [h1, Nat.one_ne_zero, if_false, decide_true, Bool.true_and, if_true]

def dot : Option Bool → LineCounter
  | some high => c.clock.see high
  | none => c.clock

def counts (level : Option Bool) : Bool := level.any c.clock.rises

theorem clock_a12High : c.clock.a12High = c.a12High := by
  unfold clock
  split_ifs <;> rfl

theorem clock_lowDots : c.clock.lowDots = if c.a12High then c.lowDots else c.lowDots + 1 := by
  unfold clock
  split_ifs <;> rfl

theorem counts_iff (level : Option Bool) :
    c.counts level = true ↔ level = some true ∧ c.a12High = false ∧ 2 ≤ c.lowDots := by
  cases level with
  | none => simp [counts]
  | some high =>
    simp only [counts, rises, Option.any_some, clock_a12High, clock_lowDots, filter,
      Bool.and_eq_true, Bool.not_eq_true', decide_eq_true_eq, Option.some.injEq]
    cases c.a12High <;> simp

theorem dot_a12High (level : Option Bool) : (c.dot level).a12High = level.getD c.a12High := by
  cases level with
  | none => exact c.clock_a12High
  | some high => rfl

theorem dot_low {level : Option Bool} (h : level ≠ some true) (hc : c.a12High = false) :
    (c.dot level).a12High = false := by
  rw [dot_a12High, hc]
  match level, h with
  | none, _ => rfl
  | some false, _ => rfl

theorem dot_high {level : Option Bool} (h : level ≠ some false) (hc : c.a12High = true) :
    (c.dot level).a12High = true := by
  rw [dot_a12High, hc]
  match level, h with
  | none, _ => rfl
  | some true, _ => rfl

theorem dot_lowDots {level : Option Bool} (h : level ≠ some true) :
    (c.dot level).lowDots = if c.a12High then c.lowDots else c.lowDots + 1 := by
  rw [← clock_lowDots]
  match level, h with
  | none, _ => rfl
  | some false, _ => rfl

theorem clock_eq : c.clock = { c with lowDots := c.clock.lowDots } := by
  unfold clock
  split_ifs <;> rfl

theorem dot_eq (level : Option Bool) : c.dot level =
    { if c.counts level then c.count else c with
      a12High := (c.dot level).a12High
      lowDots := (c.dot level).lowDots } := by
  cases level with
  | none =>
    rw [dot_a12High]
    exact c.clock_eq
  | some high =>
    have hdot : c.dot (some high) = { if c.counts (some high) then c.clock.count else c.clock with
        a12High := high
        lowDots := if high then 0 else c.clock.lowDots } := rfl
    rw [hdot]
    cases c.counts (some high)
    · rw [clock_eq]
      rfl
    · rw [clock_eq]
      rfl

/-! The registers. -/

/-- The registers `k` steps after a reload was asked for. -/
structure Counted (latch : Nat) (enabled : Bool) (k : Nat) : Prop where
  latch_eq : c.latch = latch
  enabled_eq : c.enabled = enabled
  reload_eq : c.reload = decide (k = 0)
  counter_eq : 0 < k → c.counter = latch - (k - 1) % (latch + 1)
  pending_eq : c.pending = (enabled && latch < k)

theorem succ_mod_of_ne {k n : Nat} (h : k % (n + 1) ≠ n) : (k + 1) % (n + 1) = k % (n + 1) + 1 := by
  have hlt : k % (n + 1) < n + 1 := Nat.mod_lt k n.succ_pos
  have hone : 1 % (n + 1) = 1 := Nat.mod_eq_of_lt (by omega)
  rw [Nat.add_mod_of_add_mod_lt (by omega), hone]

namespace Counted
variable {c} {latch : Nat} {enabled : Bool} {k : Nat}

/-- A step reloads in the first place, and whenever a cycle is complete. -/
theorem reloads (h : c.Counted latch enabled k) :
    (c.counter == 0 || c.reload) = decide (k % (latch + 1) = 0) := by
  rw [h.reload_eq, Bool.eq_iff_iff]
  simp only [Bool.or_eq_true, beq_iff_eq, decide_eq_true_eq]
  cases k with
  | zero => simp
  | succ k =>
    have hlt : k % (latch + 1) < latch + 1 := Nat.mod_lt k latch.succ_pos
    rw [h.counter_eq k.succ_pos, Nat.add_sub_cancel, Nat.succ_mod_succ_eq_zero_iff]
    omega

theorem count_counter (h : c.Counted latch enabled k) :
    c.count.counter = latch - k % (latch + 1) := by
  have hcount : c.count.counter =
      if c.counter == 0 || c.reload then c.latch else c.counter - 1 := rfl
  simp only [hcount, h.reloads, h.latch_eq, decide_eq_true_eq]
  split_ifs with hk
  · rw [hk, Nat.sub_zero]
  · cases k with
    | zero => exact absurd (Nat.zero_mod _) hk
    | succ k =>
      rw [h.counter_eq k.succ_pos, Nat.add_sub_cancel,
        succ_mod_of_ne (mt Nat.succ_mod_succ_eq_zero_iff.mpr hk), Nat.sub_sub]

theorem count (h : c.Counted latch enabled k) : c.count.Counted latch enabled (k + 1) where
  latch_eq := h.latch_eq
  enabled_eq := h.enabled_eq
  reload_eq := by
    have hcount : c.count.reload = (c.reload && !(c.counter == 0 || c.reload)) := rfl
    rw [hcount]
    cases c.reload <;> simp
  counter_eq _ := h.count_counter
  pending_eq := by
    have hcount : c.count.pending = (c.pending || (c.count.counter == 0 && c.enabled)) := rfl
    have hlt : k % (latch + 1) < latch + 1 := Nat.mod_lt k latch.succ_pos
    have hle := Nat.mod_le k (latch + 1)
    rw [hcount, h.count_counter, h.pending_eq, h.enabled_eq]
    cases enabled
    · simp
    · -- The last step of the first cycle is the one that reaches zero.
      rw [Bool.eq_iff_iff]
      simp only [Bool.true_and, Bool.and_true, Bool.or_eq_true, decide_eq_true_eq, beq_iff_eq]
      have hfirst : k ≤ latch → k % (latch + 1) = k := fun hk => Nat.mod_eq_of_lt (by omega)
      omega

theorem see (h : c.Counted latch enabled k) (high : Bool) :
    (c.see high).Counted latch enabled (k + if c.rises high then 1 else 0) := by
  unfold LineCounter.see
  cases c.rises high
  · exact ⟨h.latch_eq, h.enabled_eq, h.reload_eq, h.counter_eq, h.pending_eq⟩
  · obtain ⟨hlatch, henabled, hreload, hcounter, hpending⟩ := h.count
    exact ⟨hlatch, henabled, hreload, hcounter, hpending⟩

theorem clock (h : c.Counted latch enabled k) : c.clock.Counted latch enabled k := by
  rw [clock_eq]
  exact ⟨h.latch_eq, h.enabled_eq, h.reload_eq, h.counter_eq, h.pending_eq⟩

theorem dot (h : c.Counted latch enabled k) (level : Option Bool) :
    (c.dot level).Counted latch enabled (k + if c.counts level then 1 else 0) := by
  cases level with
  | none => exact h.clock
  | some high => exact h.clock.see high

theorem see_pending (h : c.Counted 0 enabled k) (hr : c.rises true = true) :
    (({ c with pending := false } : LineCounter).see true).pending = enabled := by
  have hsee : (({ c with pending := false } : LineCounter).see true).pending =
      if c.rises true = true then ({ c with pending := false } : LineCounter).count.pending
      else false := apply_ite LineCounter.pending _ _ _
  have hcount : ({ c with pending := false } : LineCounter).count.pending =
      (c.count.counter == 0 && c.enabled) := Bool.false_or _
  rw [hsee, if_pos hr, hcount, h.count_counter, h.enabled_eq, Nat.zero_sub]
  rfl

end Counted
end LineCounter
end Famicom.Cartridge
