import Famicom.Proofs.Console.MasterClock
import Famicom.Proofs.Console.Requests
import Famicom.Proofs.Cpu.Costs
import Mathlib.Data.Nat.Nth

/-! The processor's time. Work follows on work: each piece takes the cycles that it costs, the next
begins when they are over, and in between the processor looks at nothing but its interrupt lines. -/
namespace Famicom.Console
open Cpu

section Work
variable (c : Console)

noncomputable def workTick (i : Nat) : Nat := Nat.nth (fun n => c.begins n ≠ none) i

noncomputable def workCycle (i : Nat) : Nat := (c.run (c.workTick i + 1)).cpu.cycles

def worked (n : Nat) : Nat := Nat.count (fun k => c.begins k ≠ none) n

def costAt (n : Nat) (w : Work) : Nat :=
  w.cost (c.run (n + 1)).cpu.cycles (c.run n).cpu.registers (c.busAt n)

theorem costAt_pos (n : Nat) (w : Work) : 0 < c.costAt n w := cost_pos _ _ _ w

end Work

section Cycles
variable {c : Console} {n : Nat}

theorem begins_idle (h : n % 3 ≠ 2) : c.begins n = none := if_neg h

theorem begins_due (h : n % 3 = 2) :
    c.begins n = ((c.run n).cpu.poll (c.busAt n)).due? (c.busAt n) := by
  rw [begins_cycle h, Cpu.clock_fst]

/-- Work leaves the processor busy for as long as it costs. -/
theorem remaining_work {w : Work} (h : c.begins n = some w) :
    (c.run (n + 1)).cpu.remaining = c.costAt n w := by
  obtain ⟨hafter, hnext⟩ := begins_work h
  rw [costAt, hafter, perform_remaining hnext, Cpu.perform_cycles]
  rfl

theorem begins_third {k : Nat} (hn : n % 3 = 0) (hk : (c.run n).cpu.remaining = k + 1) :
    (∀ j < 2, c.begins (n + j) = none) ∧
      if k = 0 then c.begins (n + 2) ≠ none
      else c.begins (n + 2) = none ∧ (c.run (n + 3)).cpu.remaining = k := by
  have hlast : (n + 2) % 3 = 2 := by omega
  have hcpu : (c.run (n + 2)).cpu = (c.run n).cpu := by
    rw [cpu_idle (n := n + 1) (by omega), cpu_idle (by omega)]
  have hpoll : ((c.run (n + 2)).cpu.poll (c.busAt (n + 2))).remaining = k := by
    change (c.run (n + 2)).cpu.remaining - 1 = k
    rw [hcpu, hk, Nat.add_sub_cancel]
  constructor
  · intro j hj
    apply begins_idle
    omega
  · split_ifs with h
    · rw [begins_due hlast, Cpu.due?, if_pos (hpoll.trans h)]
      exact Option.some_ne_none _
    · have hnone : c.begins (n + 2) = none := by
        rw [begins_due hlast, Cpu.due?, if_neg (hpoll.trans_ne h)]
      exact ⟨hnone, by rw [begins_none hlast hnone, hpoll]⟩

theorem begins_after {k : Nat} (hn : n % 3 = 0) (hk : (c.run n).cpu.remaining = k + 1) :
    (∀ j < 3 * k + 2, c.begins (n + j) = none) ∧ c.begins (n + (3 * k + 2)) ≠ none := by
  obtain ⟨hidle, hlast⟩ := begins_third hn hk
  -- Over the cycles that are left, three ticks at a time.
  induction k generalizing n with
  | zero => exact ⟨hidle, hlast⟩
  | succ k ih =>
    obtain ⟨hnone, hnext⟩ := hlast
    have hlater : (n + 3) % 3 = 0 := by omega
    obtain ⟨hthird, hthen⟩ := begins_third hlater hnext
    obtain ⟨hbefore, hafter⟩ := ih hlater hnext hthird hthen
    constructor
    · intro j hj
      by_cases hj2 : j < 2
      · exact hidle j hj2
      · obtain rfl | hj3 : j = 2 ∨ 3 ≤ j := by omega
        · exact hnone
        · obtain ⟨i, rfl⟩ := Nat.exists_eq_add_of_le hj3
          rw [← Nat.add_assoc]
          exact hbefore i (by omega)
    · rw [show n + (3 * (k + 1) + 2) = n + 3 + (3 * k + 2) by omega]
      exact hafter

theorem begins_next {w : Work} (h : c.begins n = some w) :
    (∀ j, n < j → j < n + 3 * c.costAt n w → c.begins j = none) ∧
      c.begins (n + 3 * c.costAt n w) ≠ none := by
  obtain ⟨k, hk⟩ := Nat.exists_eq_add_of_lt (c.costAt_pos n w)
  rw [Nat.zero_add] at hk
  have hbusy : (c.run (n + 1)).cpu.remaining = k + 1 := (remaining_work h).trans hk
  have hstart : (n + 1) % 3 = 0 := by
    have := cycle_of_begins h
    omega
  obtain ⟨hbefore, hafter⟩ := begins_after hstart hbusy
  rw [hk]
  constructor
  · intro j hnj hj
    obtain ⟨i, rfl⟩ := Nat.exists_eq_add_of_le (Nat.succ_le_of_lt hnj)
    exact hbefore i (by omega)
  · rw [show n + 3 * (k + 1) = n + 1 + (3 * k + 2) by omega]
    exact hafter

theorem worked_idle {m n : Nat} (hmn : m ≤ n) (h : ∀ j, m ≤ j → j < n → c.begins j = none) :
    c.worked n = c.worked m := by
  induction n, hmn using Nat.le_induction with
  | base => rfl
  | succ n hmn ih =>
    have hnone : ¬c.begins n ≠ none := not_not_intro (h n hmn (Nat.lt_succ_self n))
    have hbefore : c.worked n = c.worked m := ih fun j hj hjn => h j hj (by omega)
    rw [worked, Nat.count_succ, if_neg hnone]
    exact hbefore

theorem worked_work {w : Work} (h : c.begins n = some w) : c.worked (n + 1) = c.worked n + 1 := by
  have hsome : c.begins n ≠ none := by
    rw [h]
    exact Option.some_ne_none w
  rw [worked, Nat.count_succ, if_pos hsome]
  rfl

theorem workTick_worked (h : c.begins n ≠ none) : c.workTick (c.worked n) = n := Nat.nth_count h

end Cycles

section Order
variable (c : Console)

theorem begins_first : (∀ j < 20, c.begins j = none) ∧ c.begins 20 ≠ none := by
  have h := c.begins_after (n := 0) (k := 6) rfl rfl
  simpa only [Nat.zero_add] using h

theorem worked_first : c.worked 20 = 0 :=
  worked_idle (Nat.zero_le 20) fun j _ hj => c.begins_first.1 j hj

theorem workTick_zero : c.workTick 0 = 20 := by
  have h := workTick_worked c.begins_first.2
  rwa [worked_first] at h

theorem worked_next {n : Nat} {w : Work} (h : c.begins n = some w) :
    c.worked (n + 3 * c.costAt n w) = c.worked n + 1 := by
  obtain ⟨hbetween, -⟩ := begins_next h
  have hcost := c.costAt_pos n w
  rw [← worked_work h]
  exact worked_idle (by omega) fun j hj => hbetween j (by omega)

theorem exists_work (i : Nat) : ∃ n w, c.begins n = some w ∧ c.worked n = i := by
  induction i with
  | zero =>
    obtain ⟨w, hw⟩ := Option.ne_none_iff_exists'.mp c.begins_first.2
    exact ⟨20, w, hw, c.worked_first⟩
  | succ i ih =>
    obtain ⟨n, w, hw, hi⟩ := ih
    obtain ⟨w', hw'⟩ := Option.ne_none_iff_exists'.mp (begins_next hw).2
    refine ⟨_, w', hw', ?_⟩
    rw [c.worked_next hw, hi]

theorem workTick_succ (i : Nat) : ∃ w, c.begins (c.workTick i) = some w ∧
    c.workTick (i + 1) = c.workTick i + 3 * c.costAt (c.workTick i) w := by
  obtain ⟨n, w, hw, hi⟩ := c.exists_work i
  have htick : c.workTick i = n := by
    rw [← hi]
    apply workTick_worked
    rw [hw]
    exact Option.some_ne_none w
  have hnext := workTick_worked (begins_next hw).2
  rw [c.worked_next hw, hi] at hnext
  rw [htick]
  exact ⟨w, hw, hnext⟩

theorem workCycle_eq (i : Nat) : c.workCycle i = (c.workTick i + 1) / 3 := c.cycles_run _

end Order

/-- In a cycle in which no work begins the processor minds its own counters and the lines. -/
theorem clock_waiting {c : Console} {n : Nat} (hn : n % 3 = 2) (h : c.begins n = none) {b : Bus}
    (hnmi : b.nmi = (c.busAt n).nmi) (hirq : b.irq = (c.busAt n).irq) :
    (c.run n).cpu.clock b = (none, (c.run (n + 1)).cpu, b) := by
  have hpoll : (c.run n).cpu.poll b = (c.run n).cpu.poll (c.busAt n) := by
    rw [Cpu.poll, Cpu.poll, hnmi, hirq]
  have hnone : ((c.run n).cpu.clock b).1 = none := by
    rw [begins_due hn, Cpu.due?] at h
    rw [Cpu.clock_fst, hpoll, Cpu.due?]
    split_ifs at h ⊢
    rfl
  rw [begins_none hn h, ← hpoll, ← Cpu.clock_idle _ b hnone]
  exact Prod.ext hnone rfl

/-- Every cycle after a reset is accounted for. The first work begins in cycle 7, and each piece is
followed by the next when its cost has passed; an instruction costs from 2 to 8. A cycle in which
no work begins changes no register and reaches nothing over the bus. -/
theorem cycles_accounted (c : Console) :
    c.workCycle 0 = 7 ∧
    (∀ i, ∃ w, c.begins (c.workTick i) = some w ∧
      c.workCycle (i + 1) =
        c.workCycle i + w.cost (c.workCycle i) (c.run (c.workTick i)).cpu.registers
          (c.busAt (c.workTick i))) ∧
    (∀ opcode cycle r b, 2 ≤ (Work.instruction opcode).cost cycle r b ∧
      (Work.instruction opcode).cost cycle r b ≤ 8) ∧
    ∀ n, n % 3 = 2 → c.begins n = none →
      (c.run (n + 1)).cpu.registers = (c.run n).cpu.registers ∧
      ∀ b : Bus, b.nmi = (c.busAt n).nmi → b.irq = (c.busAt n).irq →
        (c.run n).cpu.clock b = (none, (c.run (n + 1)).cpu, b) := by
  refine ⟨?_, ?_, ?_, ?_⟩
  · rw [workCycle_eq, workTick_zero]
  · intro i
    obtain ⟨w, hw, hsucc⟩ := c.workTick_succ i
    refine ⟨w, hw, ?_⟩
    change _ = _ + c.costAt (c.workTick i) w
    rw [workCycle_eq, workCycle_eq, hsucc]
    omega
  · intro opcode cycle r b
    exact instructionCost_bounds opcode r _
  · intro n hn h
    constructor
    · rw [begins_none hn h]
      rfl
    · intro b hnmi hirq
      exact clock_waiting hn h hnmi hirq

end Famicom.Console
