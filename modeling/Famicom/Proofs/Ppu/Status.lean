import Famicom.Proofs.Ppu.Reach
import Mathlib.Data.Prod.Lex

/-! The three flags of the status register against the place in the frame. They are set in three
different places and cleared together in one dot; the processor, which may come between any two
dots, can only end the vertical blank early. -/
namespace Famicom.Ppu

inductive Event where
  | clock (data : UInt8)
  | read (r : Fin 8) (data : UInt8)
  | write (r : Fin 8) (v : UInt8)
  | writeOam (v : UInt8)

def Event.isClock : Event → Bool
  | clock _ => true
  | read .. | write .. | writeOam _ => false

theorem Event.eq_clock {e : Event} (h : e.isClock = true) : ∃ data, e = .clock data := by
  cases e with
  | clock data => exact ⟨data, rfl⟩
  | read | write | writeOam => cases h

def after (p : Ppu) : Event → Ppu
  | .clock data => p.clock data
  | .read r data => (p.read r data).2
  | .write r v => p.write r v
  | .writeOam v => p.writeOam v

def history (es : Nat → Event) : Nat → Ppu
  | 0 => {}
  | n + 1 => (history es n).after (es n)

inductive Flag where
  | vblank
  | zeroHit
  | overflow

def Flag.of (p : Ppu) : Flag → Bool
  | vblank => p.vblank
  | zeroHit => p.zeroHit
  | overflow => p.overflow

/-! Places, in the order of the raster. -/

def place (p : Ppu) : Nat ×ₗ Nat := toLex (p.scanline, p.dot)

theorem le_place_iff {p : Ppu} (h : p.InFrame) (y : Nat) {d : Nat} (hd : d ≤ 340) :
    toLex (y, d) ≤ p.place ↔ 341 * y + d ≤ p.position := by
  obtain ⟨hdot, -⟩ := h
  rw [place, Prod.Lex.toLex_le_toLex, position]
  dsimp only
  omega

theorem place_le_iff {p : Ppu} (h : p.InFrame) (y : Nat) {d : Nat} (hd : d ≤ 340) :
    p.place ≤ toLex (y, d) ↔ p.position ≤ 341 * y + d := by
  obtain ⟨hdot, -⟩ := h
  rw [place, Prod.Lex.toLex_le_toLex, position]
  dsimp only
  omega

section Places
variable {p : Ppu}

theorem clears_iff (h : p.InFrame) : p.clears = true ↔ p.position = 341 * 261 + 1 := by
  obtain ⟨hd, -⟩ := h
  rw [clears, Bool.and_eq_true, decide_eq_true_eq, decide_eq_true_eq, position]
  omega

theorem finishes_iff (h : p.InFrame) : p.finishes = true ↔ p.position = 341 * 241 + 1 := by
  obtain ⟨hd, -⟩ := h
  rw [finishes, Bool.and_eq_true, decide_eq_true_eq, decide_eq_true_eq, position]
  omega

theorem position_of_visible (h : p.visible = true) : 1 ≤ p.position ∧ p.position < 341 * 240 := by
  simp only [visible, Bool.and_eq_true, decide_eq_true_eq] at h
  rw [position]
  omega

theorem position_of_nextOverflow (hf : p.fetches = true) (h : p.overflow = false)
    (hn : p.nextOverflow = true) : 1 ≤ p.position ∧ p.position < 341 * 240 := by
  rw [fetches, Bool.and_eq_true, onRenderLine_iff] at hf
  simp only [nextOverflow, h, Bool.false_or, Bool.and_eq_true, decide_eq_true_eq, bne_iff_ne] at hn
  rw [position]
  omega

end Places

/-! The flags after one dot. -/

section Clock
variable (p : Ppu) (data : UInt8)

theorem clock_vblank : (p.clock data).vblank = (p.finishes || (p.vblank && !p.clears)) := by
  rw [clock_eq, compose_eq]

theorem clock_zeroHit : (p.clock data).zeroHit =
    ((p.zeroHit && !p.clears) || (p.visible && (p.compose data).hits)) := by
  rw [clock_eq]
  dsimp only
  rw [show (p.compose data).zeroHit = (p.zeroHit && !p.clears) by rw [compose_eq]]

theorem clock_overflow : (p.clock data).overflow =
    ((if p.fetches then p.nextOverflow else p.overflow) && !p.clears) := by
  rw [clock_eq, compose_eq]

end Clock

section Rise
variable {p : Ppu} {data : UInt8}

/-- A flag is set in its own dots, and in none of the dots around the start of the frame. -/
theorem visible_of_rise {f : Flag} (hf : f ≠ .vblank) (h : f.of p = false)
    (hr : f.of (p.clock data) = true) : 1 ≤ p.position ∧ p.position < 341 * 240 := by
  cases f with
  | vblank => exact absurd rfl hf
  | zeroHit =>
    have h0 : p.zeroHit = false := h
    rw [Flag.of, clock_zeroHit, h0, Bool.false_and, Bool.false_or, Bool.and_eq_true] at hr
    exact position_of_visible hr.1
  | overflow =>
    have h0 : p.overflow = false := h
    rw [Flag.of, clock_overflow, h0, Bool.and_eq_true] at hr
    split_ifs at hr with hfetch
    · exact position_of_nextOverflow hfetch h0 hr.1
    · exact hr.1.elim

theorem kept_of_clock {f : Flag} (hc : p.clears = false) (h : f.of p = true) :
    f.of (p.clock data) = true := by
  cases f with
  | vblank =>
    have h1 : p.vblank = true := h
    rw [Flag.of, clock_vblank, h1, hc, Bool.not_false, Bool.and_true, Bool.or_true]
  | zeroHit =>
    have h1 : p.zeroHit = true := h
    rw [Flag.of, clock_zeroHit, h1, hc]
    rfl
  | overflow =>
    have h1 : p.overflow = true := h
    rw [Flag.of, clock_overflow, nextOverflow, h1, hc, Bool.true_or, ite_self]
    rfl

theorem cleared_of_clears {f : Flag} (h : p.InFrame) (hc : p.clears = true) :
    f.of (p.clock data) = false := by
  have hp := (clears_iff h).mp hc
  have hfinishes : p.finishes = false := by
    rw [Bool.eq_false_iff, ne_eq, finishes_iff h]
    omega
  have hvisible : p.visible = false := by
    rw [Bool.eq_false_iff]
    intro hv
    have := position_of_visible hv
    omega
  cases f with
  | vblank => rw [Flag.of, clock_vblank, hfinishes, hc, Bool.not_true, Bool.and_false, Bool.or_false]
  | zeroHit =>
    rw [Flag.of, clock_zeroHit, hvisible, hc, Bool.not_true, Bool.and_false, Bool.false_and,
      Bool.or_false]
  | overflow => rw [Flag.of, clock_overflow, hc, Bool.not_true, Bool.and_false]

end Rise

/-! An access from outside. -/

section Access
variable (p : Ppu) {e : Event}

theorem position_access (h : e.isClock = false) : (p.after e).position = p.position := by
  cases e with
  | clock data => cases h
  | read r data =>
    rw [after, read_eq]
    rfl
  | write r v =>
    rw [after, write_eq]
    rfl
  | writeOam v => rfl

theorem inFrame_after {p : Ppu} (h : p.InFrame) (e : Event) : (p.after e).InFrame := by
  cases e with
  | clock data => exact h.clock data
  | read r data =>
    rw [after, read_eq]
    exact ⟨h.dot_le, h.scanline_le⟩
  | write r v =>
    rw [after, write_eq]
    exact ⟨h.dot_le, h.scanline_le⟩
  | writeOam v => exact ⟨h.dot_le, h.scanline_le⟩

theorem access_zeroHit (h : e.isClock = false) : (p.after e).zeroHit = p.zeroHit := by
  cases e with
  | clock data => cases h
  | read r data => rw [after, read_eq]
  | write r v => rw [after, write_eq]
  | writeOam v => rfl

theorem access_overflow (h : e.isClock = false) : (p.after e).overflow = p.overflow := by
  cases e with
  | clock data => cases h
  | read r data => rw [after, read_eq]
  | write r v => rw [after, write_eq]
  | writeOam v => rfl

theorem read_vblank (r : Nat) (data : UInt8) :
    (p.read r data).2.vblank = if r = 2 then false else p.vblank := by
  match r with
  | 7 =>
    simp only [read, readData]
    rw [advanceTarget_eq]
    rfl
  | 0 | 1 | 2 | 3 | 4 | 5 | 6 | _ + 8 => rfl

/-- A read of the status register ends the vertical blank; no other access touches it. -/
theorem access_vblank (h : e.isClock = false) :
    (p.after e).vblank = p.vblank ∨ (∃ data, e = .read 2 data) ∧ (p.after e).vblank = false := by
  cases e with
  | clock data => cases h
  | read r data =>
    by_cases hr : r = 2
    · subst hr
      exact .inr ⟨⟨data, rfl⟩, rfl⟩
    · left
      have hne : (r : Nat) ≠ 2 := fun h2 => hr (Fin.ext h2)
      rw [after, read_vblank, if_neg hne]
  | write r v =>
    rw [after, write_eq]
    exact .inl rfl
  | writeOam v => exact .inl rfl

theorem access_falls {f : Flag} (h : e.isClock = false) (hf : f.of p = false) :
    f.of (p.after e) = false := by
  cases f with
  | vblank =>
    obtain hv | ⟨-, hv⟩ := p.access_vblank h
    · exact hv.trans hf
    · exact hv
  | zeroHit => exact (p.access_zeroHit h).trans hf
  | overflow => exact (p.access_overflow h).trans hf

end Access

/-! One event. -/

/-- The flag has been set and cannot be again until it is cleared: a flag of the picture is still
set, and the vertical blank does not begin a second time. -/
def Spent (p : Ppu) : Flag → Prop
  | .vblank => 341 * 241 + 1 < p.position ∧ p.position ≤ 341 * 261 + 1
  | f => f.of p = true

section Spent
variable {p : Ppu} {f : Flag} {e : Event}

theorem clock_of_rise (h : f.of p = false) (hr : f.of (p.after e) = true) :
    ∃ data, e = .clock data := by
  apply Event.eq_clock
  by_contra he
  exact Bool.false_ne_true ((p.access_falls (Bool.eq_false_iff.mpr he) h).symm.trans hr)

theorem finishes_of_rise {data : UInt8} (h : p.vblank = false)
    (hr : (p.clock data).vblank = true) : p.finishes = true := by
  rwa [clock_vblank, h, Bool.false_and, Bool.or_false] at hr

theorem spent_of_rise (hin : p.InFrame) (h : f.of p = false) (hr : f.of (p.after e) = true) :
    Spent (p.after e) f := by
  obtain ⟨data, rfl⟩ := clock_of_rise h hr
  cases f with
  | vblank =>
    have hp := (finishes_iff hin).mp (finishes_of_rise h hr)
    have hnext : (p.clock data).position = p.position + 1 := position_clock hin (by omega) data
    show 341 * 241 + 1 < (p.clock data).position ∧ (p.clock data).position ≤ 341 * 261 + 1
    omega
  | zeroHit | overflow => exact hr

theorem Spent.after (hin : p.InFrame) (h : Spent p f)
    (hc : ¬(e.isClock = true ∧ p.clears = true)) : Spent (p.after e) f := by
  cases he : e.isClock with
  | false =>
    cases f with
    | vblank =>
      rw [Spent, p.position_access he]
      exact h
    | zeroHit => exact (p.access_zeroHit he).trans h
    | overflow => exact (p.access_overflow he).trans h
  | true =>
    obtain ⟨data, rfl⟩ := Event.eq_clock he
    have hclears : p.clears = false := Bool.eq_false_iff.mpr fun h' => hc ⟨rfl, h'⟩
    cases f with
    | vblank =>
      obtain ⟨hlo, hhi⟩ := h
      have hne : p.position ≠ 341 * 261 + 1 := fun h' => hc ⟨rfl, (clears_iff hin).mpr h'⟩
      have hnext : (p.clock data).position = p.position + 1 := position_clock hin (by omega) data
      show 341 * 241 + 1 < (p.clock data).position ∧ (p.clock data).position ≤ 341 * 261 + 1
      omega
    | zeroHit | overflow => exact kept_of_clock hclears h

theorem Spent.not_rise (hin : p.InFrame) (h : Spent p f) (hf : f.of p = false) :
    f.of (p.after e) = false := by
  rw [Bool.eq_false_iff]
  intro hr
  cases f with
  | vblank =>
    obtain ⟨data, rfl⟩ := clock_of_rise hf hr
    have hp := (finishes_iff hin).mp (finishes_of_rise hf hr)
    exact absurd h.1 (by omega)
  | zeroHit | overflow => exact Bool.false_ne_true (hf.symm.trans h)

theorem fall_cases (h : f.of p = true) (hf : f.of (p.after e) = false) :
    e.isClock = true ∧ p.clears = true ∨ f = .vblank ∧ ∃ data, e = .read 2 data := by
  have hne : f.of (p.after e) ≠ f.of p := by
    rw [h, hf]
    exact Bool.false_ne_true
  cases he : e.isClock with
  | false =>
    cases f with
    | vblank =>
      obtain hv | ⟨hread, -⟩ := p.access_vblank he
      · exact absurd hv hne
      · exact .inr ⟨rfl, hread⟩
    | zeroHit => exact absurd (p.access_zeroHit he) hne
    | overflow => exact absurd (p.access_overflow he) hne
  | true =>
    obtain ⟨data, rfl⟩ := Event.eq_clock he
    cases hc : p.clears with
    | true => exact .inl ⟨rfl, rfl⟩
    | false => exact absurd ((kept_of_clock hc h).trans h.symm) hne

theorem clear_after (hin : p.InFrame)
    (hp : (p.after e).position ≤ 1 ∨ 341 * 261 + 2 ≤ (p.after e).position)
    (h : p.position ≤ 1 ∨ 341 * 261 + 2 ≤ p.position → f.of p = false) :
    f.of (p.after e) = false := by
  cases he : e.isClock with
  | false =>
    rw [p.position_access he] at hp
    exact p.access_falls he (h hp)
  | true =>
    obtain ⟨data, rfl⟩ := Event.eq_clock he
    by_cases hc : p.position = 341 * 261 + 1
    · exact cleared_of_clears hin ((clears_iff hin).mpr hc)
    -- The dot before was outside the picture and the vertical blank too, so it set nothing.
    have hbefore : p.position = 0 ∨ 341 * 261 + 2 ≤ p.position := by
      by_cases hlast : p.position < 89341
      · have hnext : (p.clock data).position = p.position + 1 := position_clock hin hlast data
        simp only [Ppu.after] at hp
        omega
      · omega
    have hf : f.of p = false := h (by omega)
    rw [Bool.eq_false_iff]
    intro hr
    by_cases hv : f = .vblank
    · subst hv
      have := (finishes_iff hin).mp (finishes_of_rise hf hr)
      omega
    · have := visible_of_rise hv hf hr
      omega

end Spent

/-! Whole runs. -/

section History
variable (es : Nat → Event)

theorem inFrame_history (n : Nat) : (history es n).InFrame := by
  induction n with
  | zero => exact Reachable.start.inFrame
  | succ n ih => exact inFrame_after ih (es n)

theorem vblank_history (n : Nat) (h : (history es n).vblank = true) :
    Spent (history es n) .vblank := by
  induction n with
  | zero => cases h
  | succ n ih =>
    have hin := inFrame_history es n
    cases hv : (history es n).vblank with
    | false =>
      have hclear : Flag.of (history es n) .vblank = false := hv
      exact spent_of_rise hin hclear h
    | true =>
      apply (ih hv).after hin
      rintro ⟨he, hc⟩
      obtain ⟨data, hdata⟩ := Event.eq_clock he
      rw [history, hdata] at h
      have hclear : Flag.of ((history es n).clock data) .vblank = false := cleared_of_clears hin hc
      exact Bool.false_ne_true (hclear.symm.trans h)

theorem clear_history (f : Flag) (n : Nat)
    (h : (history es n).position ≤ 1 ∨ 341 * 261 + 2 ≤ (history es n).position) :
    f.of (history es n) = false := by
  induction n with
  | zero => cases f <;> rfl
  | succ n ih => exact clear_after (inFrame_history es n) h ih

theorem spent_until (f : Flag) {k l : Nat} (h : Spent (history es (k + 1)) f)
    (hk : k < l) (hc : ∀ n, k < n → n < l →
      ¬((es n).isClock = true ∧ (history es n).clears = true)) :
    Spent (history es l) f := by
  induction l, hk using Nat.le_induction with
  | base => exact h
  | succ l hkl ih =>
    exact (ih fun n hn hl => hc n hn (by omega)).after (inFrame_history es l)
      (hc l hkl (Nat.lt_succ_self l))

end History

def Clears (es : Nat → Event) (n : Nat) : Prop :=
  (es n).isClock = true ∧ (history es n).place = toLex (261, 1)

def Rises (f : Flag) (es : Nat → Event) (n : Nat) : Prop :=
  f.of (history es n) = false ∧ f.of (history es (n + 1)) = true

def Falls (f : Flag) (es : Nat → Event) (n : Nat) : Prop :=
  f.of (history es n) = true ∧ f.of (history es (n + 1)) = false

section Changes
variable {es : Nat → Event} {f : Flag}

theorem clears_iff_place (n : Nat) :
    Clears es n ↔ (es n).isClock = true ∧ (history es n).clears = true := by
  have hin := inFrame_history es n
  have hplace : (history es n).place = toLex (261, 1) ↔ (history es n).clears = true := by
    rw [clears_iff hin, le_antisymm_iff, place_le_iff hin 261 (by decide),
      le_place_iff hin 261 (by decide), ← le_antisymm_iff]
  rw [Clears, hplace]

theorem clears_between {k l : Nat} (h : k < l) (hk : Rises f es k) (hl : Rises f es l) :
    ∃ n, k < n ∧ n < l ∧ Clears es n := by
  by_contra hnone
  have hspent := spent_until es f (spent_of_rise (inFrame_history es k) hk.1 hk.2) h
    fun n hn hnl hc => hnone ⟨n, hn, hnl, (clears_iff_place n).mpr hc⟩
  have hclear : f.of (history es (l + 1)) = false :=
    hspent.not_rise (inFrame_history es l) hl.1
  exact Bool.false_ne_true (hclear.symm.trans hl.2)

end Changes

/-- The flags follow the frame, whatever the processor does in between. The vertical blank and the
interrupt output are on from (241, 2) to (261, 1) only, and every flag is off from (261, 2) to
(0, 1). Accesses leave the flags of the picture as they are, and before its end the vertical blank
is ended by a read of the status register alone. From one clearing of the flags to the next, each is
set once at the most. -/
theorem flags_follow_frame (es : Nat → Event) :
    (∀ n, (history es n).vblank = true ∨ (history es n).nmi = true →
      toLex (241, 2) ≤ (history es n).place ∧ (history es n).place ≤ toLex (261, 1)) ∧
    (∀ n, toLex (261, 2) ≤ (history es n).place ∨ (history es n).place ≤ toLex (0, 1) →
      ∀ f : Flag, f.of (history es n) = false) ∧
    (∀ n, (es n).isClock = false →
      (history es (n + 1)).zeroHit = (history es n).zeroHit ∧
      (history es (n + 1)).overflow = (history es n).overflow) ∧
    (∀ f n, Falls f es n → Clears es n ∨ f = .vblank ∧ ∃ data, es n = .read 2 data) ∧
    ∀ f k l, k < l → Rises f es k → Rises f es l → ∃ n, k < n ∧ n < l ∧ Clears es n := by
  refine ⟨fun n h => ?_, fun n h f => ?_, fun n h => ?_, fun f n h => ?_,
    fun f k l h hk hl => clears_between h hk hl⟩
  · have hin := inFrame_history es n
    have hv : (history es n).vblank = true := by
      obtain hv | hnmi := h
      · exact hv
      · rw [nmi, Bool.and_eq_true] at hnmi
        exact hnmi.1
    rw [le_place_iff hin 241 (by decide), place_le_iff hin 261 (by decide)]
    exact vblank_history es n hv
  · have hin := inFrame_history es n
    rw [le_place_iff hin 261 (by decide), place_le_iff hin 0 (by decide)] at h
    exact clear_history es f n h.symm
  · exact ⟨(history es n).access_zeroHit h, (history es n).access_overflow h⟩
  · rw [clears_iff_place]
    exact fall_cases h.1 h.2

end Famicom.Ppu
