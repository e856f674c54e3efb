import Mathlib.Data.List.Basic
import Mathlib.Data.Nat.Count

/-! The last of the values that the steps of a run give, and how often something came after a
step. -/
namespace Famicom

/-- What was given by the last of the first `n` steps that gave anything. -/
def latest {α : Type} (f : Nat → Option α) (n : Nat) : Option α :=
  ((List.range n).filterMap f).getLast?

theorem latest_succ {α : Type} (f : Nat → Option α) (n : Nat) :
    latest f (n + 1) = (f n).or (latest f n) := by
  unfold latest
  rw [List.range_succ, List.filterMap_append]
  cases h : f n with
  | none => rw [List.filterMap_cons_none h, List.filterMap_nil, List.append_nil, Option.none_or]
  | some v =>
    rw [List.filterMap_cons_some h, List.filterMap_nil, List.getLast?_concat, Option.some_or]

theorem getD_latest_succ {α : Type} (f : Nat → Option α) (n : Nat) (d : α) :
    (latest f (n + 1)).getD d = (f n).getD ((latest f n).getD d) := by
  rw [latest_succ]
  cases f n <;> rfl

theorem exists_of_latest {α : Type} {f : Nat → Option α} {n : Nat} {a : α}
    (h : latest f n = some a) : ∃ k < n, f k = some a := by
  obtain ⟨k, hk, hf⟩ := List.mem_filterMap.mp (List.mem_of_getLast? h)
  exact ⟨k, List.mem_range.mp hk, hf⟩

theorem latest_congr {α : Type} {f g : Nat → Option α} {n : Nat} (h : ∀ k < n, f k = g k) :
    latest f n = latest g n := by
  rw [latest, latest, List.filterMap_congr fun k hk => h k (List.mem_range.mp hk)]

theorem latest_eq_none {α : Type} {f : Nat → Option α} {n : Nat} (h : ∀ k < n, f k = none) :
    latest f n = none := by
  rw [latest, List.filterMap_eq_nil_iff.mpr fun k hk => h k (List.mem_range.mp hk)]
  rfl

def countAfter (p : Nat → Prop) [DecidablePred p] (w n : Nat) : Nat :=
  Nat.count (fun k => w < k ∧ p k) n

section CountAfter
variable (p : Nat → Prop) [DecidablePred p]

theorem countAfter_start (w : Nat) : countAfter p w (w + 1) = 0 := by
  rw [countAfter, Nat.count_iff_forall_not]
  exact fun k hk h => absurd h.1 (by omega)

theorem countAfter_succ {w n : Nat} (h : w < n) :
    countAfter p w (n + 1) = countAfter p w n + if p n then 1 else 0 := by
  rw [countAfter, Nat.count_succ, countAfter]
  simp only [h, true_and]

end CountAfter

end Famicom
