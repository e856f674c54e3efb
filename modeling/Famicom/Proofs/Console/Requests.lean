import Famicom.Proofs.Console.Run
import Mathlib.Data.Nat.Count

/-! Requests to the processor. The edge of a non-maskable interrupt and the page of a sprite
transfer are kept until they are answered, each by its own dispatch; the line of an ordinary
interrupt is only looked at, and masked as soon as it is answered. -/
namespace Famicom.Console
open Cpu

/-! What happens in tick `n` of a run. -/

section Events
variable (c : Console) (n : Nat)

def busAt : Bus := (c.run n).clockDevices.bus

def begins : Option Work :=
  if n % 3 = 2 then ((c.run n).cpu.clock (c.busAt n)).1 else none

/-- The line of the non-maskable interrupt is high, and was low a cycle before. -/
def rises : Prop :=
  n % 3 = 2 ∧ (c.busAt n).nmi = true ∧ ¬(3 ≤ n ∧ (c.busAt (n - 3)).nmi = true)

def written : Writes := (c.run n).cpu.writes (c.busAt n)

instance : DecidablePred c.rises := fun n => by unfold rises; infer_instance

end Events

section Ticks
variable {c : Console} {n : Nat}

theorem cycles_run_iff : (c.run n).cycles = true ↔ n % 3 = 2 := by
  rw [Console.cycles, ticks_run, beq_iff_eq]
  omega

theorem cpu_idle (h : n % 3 ≠ 2) : (c.run (n + 1)).cpu = (c.run n).cpu := by
  rw [run_succ, cpu_tick, if_neg]
  rwa [cycles_run_iff]

theorem cpu_cycle (h : n % 3 = 2) :
    (c.run (n + 1)).cpu = ((c.run n).cpu.clock (c.busAt n)).2.1 := by
  rw [run_succ, cpu_tick, if_pos (cycles_run_iff.mpr h)]
  rfl

theorem begins_cycle (h : n % 3 = 2) : c.begins n = ((c.run n).cpu.clock (c.busAt n)).1 :=
  if_pos h

theorem cycle_of_begins {w : Work} (h : c.begins n = some w) : n % 3 = 2 := by
  rw [begins] at h
  split_ifs at h with hn
  exact hn

theorem begins_work {w : Work} (h : c.begins n = some w) :
    (c.run (n + 1)).cpu = (((c.run n).cpu.poll (c.busAt n)).perform (c.busAt n) w).1 ∧
      w = ((c.run n).cpu.poll (c.busAt n)).next (c.busAt n) := by
  have hn := cycle_of_begins h
  rw [begins_cycle hn] at h
  obtain ⟨hafter, hnext⟩ := Cpu.clock_work _ _ h
  exact ⟨by rw [cpu_cycle hn, hafter], hnext⟩

theorem begins_none (hn : n % 3 = 2) (h : c.begins n = none) :
    (c.run (n + 1)).cpu = (c.run n).cpu.poll (c.busAt n) := by
  rw [begins_cycle hn] at h
  rw [cpu_cycle hn, Cpu.clock_idle _ _ h]

end Ticks

/-! The non-maskable interrupt. -/

section Nmi
variable {c : Console} {n : Nat}

theorem nmiLine_run (c : Console) (n : Nat) : (c.run n).cpu.nmiLine =
    (decide (3 ≤ n) && (c.busAt (n / 3 * 3 - 1)).nmi) := by
  induction n with
  | zero => rfl
  | succ n ih =>
    by_cases hn : n % 3 = 2
    · have hlast : (n + 1) / 3 * 3 - 1 = n := by omega
      have h3 : 3 ≤ n + 1 := by omega
      rw [cpu_cycle hn, Cpu.clock_nmiLine, hlast, decide_eq_true h3, Bool.true_and]
    · have hsame : (n + 1) / 3 = n / 3 := by omega
      rw [cpu_idle hn, ih, hsame]
      congr 2
      simp only [eq_iff_iff]
      omega

theorem rises_iff : c.rises n ↔
    n % 3 = 2 ∧ (c.busAt n).nmi = true ∧ ¬(c.run n).cpu.nmiLine = true := by
  refine and_congr_right fun hn => ?_
  have hlast : n / 3 * 3 - 1 = n - 3 := by omega
  rw [nmiLine_run, hlast, Bool.and_eq_true, decide_eq_true_eq]

theorem pending_poll (hn : n % 3 = 2) :
    ((c.run n).cpu.poll (c.busAt n)).nmiPending = true ↔
      (c.run n).cpu.nmiPending = true ∨ c.rises n := by
  rw [rises_iff, Cpu.poll, Bool.or_eq_true, Bool.and_eq_true, Bool.not_eq_true',
    Bool.not_eq_true]
  simp only [hn, true_and]

theorem pending_next (hpending : (c.run n).cpu.nmiPending = true ∨ c.rises n)
    (hnmi : c.begins n ≠ some .nmi) : (c.run (n + 1)).cpu.nmiPending = true := by
  by_cases hn : n % 3 = 2
  · rw [← pending_poll hn] at hpending
    cases hw : c.begins n with
    | none =>
      rw [begins_none hn hw]
      exact hpending
    | some w =>
      rw [(begins_work hw).1, Cpu.perform_nmiPending, if_neg]
      · exact hpending
      · rintro rfl
        exact hnmi hw
  · rw [cpu_idle hn]
    exact hpending.resolve_right fun h => hn h.1

theorem pending_before (h : (c.run (n + 1)).cpu.nmiPending = true) :
    (c.run n).cpu.nmiPending = true ∨ c.rises n := by
  by_cases hn : n % 3 = 2
  · rw [← pending_poll hn]
    cases hw : c.begins n with
    | none =>
      rw [begins_none hn hw] at h
      exact h
    | some w =>
      rw [(begins_work hw).1, Cpu.perform_nmiPending] at h
      split_ifs at h
      exact h
  · rw [cpu_idle hn] at h
    exact .inl h

theorem pending_until {i j : Nat} (hij : i < j) (hrise : c.rises i)
    (hnever : ∀ k, i ≤ k → k < j → c.begins k ≠ some .nmi) :
    (c.run j).cpu.nmiPending = true := by
  induction j, hij using Nat.le_induction with
  | base => exact pending_next (.inr hrise) (hnever i (Nat.le_refl i) (Nat.lt_succ_self i))
  | succ j hij ih =>
    have hj := ih fun k hk hkj => hnever k hk (by omega)
    exact pending_next (.inl hj) (hnever j (by omega) (Nat.lt_succ_self j))

theorem nmi_between {i j : Nat} (hij : i ≤ j) (hrise : c.rises i)
    (hj : c.begins j = some .irq ∨ ∃ opcode, c.begins j = some (.instruction opcode)) :
    ∃ k, i ≤ k ∧ k < j ∧ c.begins k = some .nmi := by
  by_contra hnone
  have hnever : ∀ k, i ≤ k → k < j → c.begins k ≠ some .nmi :=
    fun k hk hkj h => hnone ⟨k, hk, hkj, h⟩
  have hpending : (c.run j).cpu.nmiPending = true ∨ c.rises j := by
    obtain rfl | hlt := Nat.eq_or_lt_of_le hij
    · exact .inr hrise
    · exact .inl (pending_until hlt hrise hnever)
  obtain ⟨w, hw⟩ : ∃ w, c.begins j = some w := by
    obtain h | ⟨opcode, h⟩ := hj <;> exact ⟨_, h⟩
  obtain ⟨-, hnext⟩ := begins_work hw
  have hpoll := (pending_poll (cycle_of_begins hw)).mpr hpending
  obtain ⟨hirq, hinstruction⟩ := Cpu.next_of_pending (b := c.busAt j) hpoll
  rw [hw] at hj
  obtain h | ⟨opcode, h⟩ := hj
  · exact hirq (hnext ▸ Option.some.inj h)
  · exact hinstruction opcode (hnext ▸ Option.some.inj h)

theorem answers_le (c : Console) (n : Nat) :
    Nat.count (fun k => c.begins k = some .nmi) n + (c.run n).cpu.nmiPending.toNat ≤
      Nat.count c.rises n := by
  -- What is pending stands for a rise that has no answer yet.
  induction n with
  | zero => exact Nat.le_refl 0
  | succ n ih =>
    rw [Nat.count_succ, Nat.count_succ]
    by_cases hnmi : c.begins n = some .nmi
    · obtain ⟨hafter, hnext⟩ := begins_work hnmi
      have hpending := (pending_poll (cycle_of_begins hnmi)).mp (Cpu.pending_of_next hnext.symm)
      have hclear : (c.run (n + 1)).cpu.nmiPending = false := by
        rw [hafter, Cpu.perform_nmiPending, if_pos rfl]
      rw [if_pos hnmi, hclear, Bool.toNat_false]
      obtain h | h := hpending
      · rw [h, Bool.toNat_true] at ih
        omega
      · rw [if_pos h]
        omega
    · rw [if_neg hnmi]
      cases hafter : (c.run (n + 1)).cpu.nmiPending with
      | false =>
        rw [Bool.toNat_false]
        omega
      | true =>
        rw [Bool.toNat_true]
        obtain h | h := pending_before hafter
        · rw [h, Bool.toNat_true] at ih
          omega
        · rw [if_pos h]
          omega

end Nmi

/-! Sprite transfers. -/

section Page
variable {c : Console} {n : Nat} {page : UInt8}

theorem oamPage_busAt : (c.busAt n).oamPage = (c.run n).bus.oamPage :=
  (c.run n).oamPage_clockDevices

theorem bus_idle (h : n % 3 ≠ 2) : (c.run (n + 1)).bus = c.busAt n := by
  rw [run_succ, bus_tick, if_neg]
  · rfl
  · rwa [cycles_run_iff]

theorem bus_cycle (h : n % 3 = 2) :
    (c.run (n + 1)).bus = ((c.run n).cpu.clock (c.busAt n)).2.2.takeSample := by
  rw [run_succ, bus_tick, if_pos (cycles_run_iff.mpr h)]
  rfl

theorem page_kept (h : c.begins n = none) :
    (c.run (n + 1)).bus.oamPage = (c.run n).bus.oamPage := by
  by_cases hn : n % 3 = 2
  · rw [begins_cycle hn] at h
    rw [bus_cycle hn, Cpu.clock_idle _ _ h]
    exact oamPage_busAt
  · rw [bus_idle hn, oamPage_busAt]

theorem page_asked {opcode : UInt8} (h : c.begins n = some (.instruction opcode))
    (hw : (0x4014, page) ∈ c.written n) : (c.run (n + 1)).bus.oamPage = some page := by
  have hn := cycle_of_begins h
  rw [begins_cycle hn] at h
  rw [written, ← Cpu.writes_poll _ (c.busAt n)] at hw
  rw [bus_cycle hn, (Cpu.clock_work _ _ h).1]
  exact Cpu.execute_page hw

/-- Besides reads, these writes are all that an instruction does to the bus. -/
theorem written_wrote {opcode : UInt8} (h : c.begins n = some (.instruction opcode)) :
    Bus.Wrote (c.busAt n) (c.written n) ((c.run n).cpu.clock (c.busAt n)).2.2 := by
  rw [begins_cycle (cycle_of_begins h)] at h
  rw [(Cpu.clock_work _ _ h).1, written, ← Cpu.writes_poll _ (c.busAt n)]
  exact Cpu.execute_wrote _ _

/-- Ticks until something begins, unless the processor is made to wait again. -/
def wait (c : Console) (n : Nat) : Nat := 3 * (c.run n).cpu.remaining + 2 - n % 3

theorem wait_idle (h : c.begins n = none) : c.wait (n + 1) < c.wait n := by
  unfold wait
  by_cases hn : n % 3 = 2
  · have hrest : ((c.run n).cpu.poll (c.busAt n)).remaining ≠ 0 := by
      rw [begins_cycle hn, Cpu.clock_fst, Cpu.due?] at h
      split_ifs at h with h0
      exact h0
    rw [begins_none hn h]
    change (c.run n).cpu.remaining - 1 ≠ 0 at hrest
    change 3 * ((c.run n).cpu.remaining - 1) + 2 - (n + 1) % 3 < _
    omega
  · rw [cpu_idle hn]
    omega

theorem transfer_next (h : (c.run n).bus.oamPage = some page) :
    ∃ k, n ≤ k ∧ c.begins k = some (.oamTransfer page) ∧
      ∀ j, n ≤ j → j < k → c.begins j = none := by
  -- The page is kept through every idle tick, and each of them shortens the wait.
  induction hwait : c.wait n using Nat.strong_induction_on generalizing n with
  | _ wait ih =>
    cases hw : c.begins n with
    | none =>
      have hlater := ih _ (hwait ▸ wait_idle hw) ((page_kept hw).trans h) rfl
      obtain ⟨k, hk, hbegins, hnone⟩ := hlater
      refine ⟨k, by omega, hbegins, fun j hj hjk => ?_⟩
      obtain rfl | hlt := Nat.eq_or_lt_of_le hj
      · exact hw
      · exact hnone j hlt hjk
    | some w =>
      have hpage := Cpu.next_of_page ((c.run n).cpu.poll (c.busAt n)) (c.busAt n)
        (oamPage_busAt.trans h)
      rw [← (begins_work hw).2] at hpage
      exact ⟨n, Nat.le_refl n, hpage ▸ hw, fun j hj hjn => by omega⟩

end Page

/-! The ordinary interrupt. -/

section Irq
variable {c : Console} {n : Nat}

theorem irq_asked (h : c.begins n = some .irq) :
    (c.busAt n).irq = true ∧ (c.run n).cpu.registers.p.irqDisable = false :=
  Cpu.line_of_next (begins_work h).2.symm

theorem irq_masks (h : c.begins n = some .irq) :
    (c.run (n + 1)).cpu.registers.p.irqDisable = true := by
  rw [(begins_work h).1]
  rfl

theorem masked_next (h : (c.run n).cpu.registers.p.irqDisable = true)
    (hm : ∀ opcode, c.begins n = some (.instruction opcode) →
      ¬(Opcode.decode opcode).mnemonic.unmasks) :
    (c.run (n + 1)).cpu.registers.p.irqDisable = true := by
  by_cases hn : n % 3 = 2
  · cases hw : c.begins n with
    | none =>
      rw [begins_none hn hw]
      exact h
    | some w =>
      obtain ⟨hafter, hnext⟩ := begins_work hw
      rw [hafter]
      refine Cpu.perform_masked ((c.run n).cpu.poll (c.busAt n)) (c.busAt n) w h ?_
      rintro opcode rfl
      rw [← (Cpu.opcode_of_next hnext.symm).2]
      exact hm opcode hw
  · rw [cpu_idle hn]
    exact h

theorem unmasked_between {i j : Nat} (hij : i < j) (hi : c.begins i = some .irq)
    (hj : c.begins j = some .irq) :
    ∃ k opcode, i < k ∧ k < j ∧ c.begins k = some (.instruction opcode) ∧
      (Opcode.decode opcode).mnemonic.unmasks := by
  by_contra hnone
  have hmasked : (c.run j).cpu.registers.p.irqDisable = true := by
    have hnever : ∀ k, i < k → k < j → ∀ opcode, c.begins k = some (.instruction opcode) →
        ¬(Opcode.decode opcode).mnemonic.unmasks :=
      fun k hik hkj opcode hw hm => hnone ⟨k, opcode, hik, hkj, hw, hm⟩
    clear hj hnone
    induction j, hij using Nat.le_induction with
    | base => exact irq_masks hi
    | succ j hij ih =>
      exact masked_next (ih fun k hik hkj => hnever k hik (by omega))
        (hnever j hij (Nat.lt_succ_self j))
  rw [(irq_asked hj).2] at hmasked
  cases hmasked

end Irq

/-- Requests are served, each in its turn. A rise of the non-maskable line is answered before
anything but transfers goes on, and never twice. A page that an instruction writes for a sprite
transfer is transferred next. An ordinary interrupt is answered only while its line is high and
not masked, which masks it until an instruction that can clear the mask. -/
theorem requests_served (c : Console) :
    (∀ i j, i ≤ j → c.rises i →
      (c.begins j = some .irq ∨ ∃ opcode, c.begins j = some (.instruction opcode)) →
      ∃ k, i ≤ k ∧ k < j ∧ c.begins k = some .nmi) ∧
    (∀ n, Nat.count (fun k => c.begins k = some .nmi) n ≤ Nat.count c.rises n) ∧
    (∀ i opcode, c.begins i = some (.instruction opcode) →
      Bus.Wrote (c.busAt i) (c.written i) ((c.run i).cpu.clock (c.busAt i)).2.2 ∧
      ∀ page, (0x4014, page) ∈ c.written i →
        ∃ k, i < k ∧ c.begins k = some (.oamTransfer page) ∧
          ∀ j, i < j → j < k → c.begins j = none) ∧
    (∀ n, c.begins n = some .irq → (c.busAt n).irq = true ∧
      (c.run n).cpu.registers.p.irqDisable = false ∧
      (c.run (n + 1)).cpu.registers.p.irqDisable = true) ∧
    (∀ i j, i < j → c.begins i = some .irq → c.begins j = some .irq →
      ∃ k opcode, i < k ∧ k < j ∧ c.begins k = some (.instruction opcode) ∧
        (Opcode.decode opcode).mnemonic.unmasks) := by
  refine ⟨fun i j => nmi_between, fun n => ?_, fun i opcode hi => ⟨written_wrote hi, ?_⟩,
    fun n h => ?_, fun i j => unmasked_between⟩
  · exact Nat.le_of_add_right_le (c.answers_le n)
  · intro page hw
    exact transfer_next (page_asked hi hw)
  · exact ⟨(irq_asked h).1, (irq_asked h).2, irq_masks h⟩

/-- A program chip of eight bytes, over and over: it writes page 2 to `$4014`, and is transferred
that page before its next instruction. -/
theorem requests_served_transfer :
    let c := { ofConfig {} with
      bus.picture.cartridge := some {
        header := ⟨1, 0, 0, false, false, false, false⟩
        storage := {
          prgRom := #[0xA9, 0x02, 0x8D, 0x14, 0x40, 0x80, 0x00, 0x00]
          chr := #[]
          chrWritable := false }
        board := .nrom .horizontal } }
    c.begins 26 = some (.instruction 0x8D) ∧ (0x4014, 2) ∈ c.written 26 ∧
      ∃ k, 26 < k ∧ c.begins k = some (.oamTransfer 2) ∧
        ∀ j, 26 < j → j < k → c.begins j = none := by
  intro c
  have hstore : c.begins 26 = some (.instruction 0x8D) := by decide +kernel
  have hpage : (0x4014, 2) ∈ c.written 26 := by decide +kernel
  obtain ⟨-, -, hpages, -⟩ := requests_served c
  exact ⟨hstore, hpage, (hpages 26 _ hstore).2 2 hpage⟩

end Famicom.Console
