import Famicom.Proofs.Cartridge.Accesses
import Famicom.Proofs.Cartridge.LineCounter
import Mathlib.Data.Nat.Count

/-! The scanline counter over everything that happens to a cartridge. The accesses that count are
told from the accesses, dots and resets before them, with no word of the chip; the chip finds the
same ones, and its registers follow from their number. -/
namespace Famicom.Cartridge

namespace Event

/-- How an access of the picture bus leaves line 12. -/
def level? : Event → Option Bool
  | access (.ppuRead a) | access (.ppuWrite a _) => some (line12 a)
  | access (.cpuRead _) | access (.cpuWrite ..) | access .clock | reset => none

def isReset : Event → Bool
  | reset => true
  | access _ => false

def isClock : Event → Bool
  | access .clock => true
  | access (.cpuRead _) | access (.cpuWrite ..) | access (.ppuRead _) | access (.ppuWrite ..)
  | reset => false

def wakes (e : Event) : Bool := e.isReset || e.level? == some true

def spares (e : Event) : Bool := !e.isReset && e.level?.isNone

def steers : Event → Bool
  | access (.cpuWrite a _) => !(a < 0x8000)
  | reset => true
  | access (.cpuRead _) | access (.ppuRead _) | access (.ppuWrite ..) | access .clock => false

end Event

/-! What counts. -/

section Edges
variable (es : Nat → Event)

/-- Line 12 rests from power-on, from a reset, and from the first access that finds it high and
takes it low. -/
def RestsFrom : Nat → Prop
  | 0 => True
  | i + 1 => (es i).isReset = true ∨ (es i).level? = some false ∧
      ∃ p < i, (es p).level? = some true ∧ ∀ j < i, p < j → (es j).spares = true

instance : DecidablePred (RestsFrom es)
  | 0 => isTrue trivial
  | _ + 1 => inferInstanceAs (Decidable (_ ∨ _))

def dots (s n : Nat) : Nat := Nat.count (fun j => s ≤ j ∧ (es j).isClock = true) n

/-- An access that raises line 12 from a rest with three dots in it. -/
def FilteredEdge (i : Nat) : Prop :=
  (es i).level? = some true ∧ ∃ s ≤ i, RestsFrom es s ∧
    (∀ j < i, s ≤ j → (es j).wakes = false) ∧ 3 ≤ dots es s i

instance : DecidablePred (FilteredEdge es) := fun i =>
  inferInstanceAs (Decidable (_ ∧ ∃ s ≤ i, _))

def edges (w n : Nat) : Nat := Nat.count (fun i => w < i ∧ FilteredEdge es i) n

theorem dots_self (s : Nat) : dots es s s = 0 := by
  rw [dots, Nat.count_iff_forall_not]
  exact fun j hj h => absurd h.1 (by omega)

theorem dots_succ {s n : Nat} (h : s ≤ n) :
    dots es s (n + 1) = dots es s n + if (es n).isClock = true then 1 else 0 := by
  rw [dots, Nat.count_succ, dots]
  simp only [h, true_and]

theorem edges_start (w : Nat) : edges es w (w + 1) = 0 := by
  rw [edges, Nat.count_iff_forall_not]
  exact fun j hj h => absurd h.1 (by omega)

theorem edges_succ {w n : Nat} (h : w < n) :
    edges es w (n + 1) = edges es w n + if FilteredEdge es n then 1 else 0 := by
  rw [edges, Nat.count_succ, edges]
  simp only [h, true_and]

end Edges

/-! Line 12 rests, or it is held high. -/

theorem Event.wakes_iff (e : Event) :
    e.wakes = true ↔ e.isReset = true ∨ e.level? = some true := by
  rw [wakes, Bool.or_eq_true, beq_iff_eq]

theorem Event.wakes_eq_false_iff {e : Event} :
    e.wakes = false ↔ e.isReset = false ∧ e.level? ≠ some true := by
  rw [← Bool.not_eq_true, wakes_iff, not_or, Bool.not_eq_true]

theorem Event.spares_iff (e : Event) :
    e.spares = true ↔ e.isReset = false ∧ e.level? = none := by
  rw [spares, Bool.and_eq_true, Bool.not_eq_true', Option.isNone_iff_eq_none]

theorem Event.isReset_of_level {e : Event} {high : Bool} (h : e.level? = some high) :
    e.isReset = false := by
  cases e with
  | access x => rfl
  | reset => cases h

theorem Event.isClock_of_level {e : Event} {high : Bool} (h : e.level? = some high) :
    e.isClock = false := by
  match e, h with
  | .access (.ppuRead _), _ | .access (.ppuWrite ..), _ => rfl

theorem Event.level_of_not_spares {e : Event} (hw : ¬e.wakes = true) (hs : ¬e.spares = true) :
    e.level? = some false := by
  obtain ⟨hreset, hhigh⟩ := wakes_eq_false_iff.mp (Bool.eq_false_iff.mpr hw)
  match hlevel : e.level? with
  | none => exact absurd (e.spares_iff.mpr ⟨hreset, hlevel⟩) hs
  | some true => exact absurd hlevel hhigh
  | some false => rfl

theorem held_or_rests (es : Nat → Event) (n : Nat) :
    (∃ p < n, (es p).level? = some true ∧ ∀ j < n, p < j → (es j).spares = true) ∨
      ∃ s ≤ n, RestsFrom es s ∧ ∀ j < n, s ≤ j → (es j).wakes = false := by
  induction n with
  | zero => exact .inr ⟨0, le_rfl, trivial, fun j hj => absurd hj (Nat.not_lt_zero j)⟩
  | succ n ih =>
    -- A rest that starts after this event holds no event yet.
    have hstart (P : Nat → Prop) : ∀ j < n + 1, n + 1 ≤ j → P j :=
      fun j hj hs => absurd hj (Nat.not_lt.mpr hs)
    by_cases hwake : (es n).wakes = true
    · obtain hreset | hhigh := (Event.wakes_iff _).mp hwake
      · exact .inr ⟨n + 1, le_rfl, .inl hreset, hstart _⟩
      · exact .inl ⟨n, n.lt_succ_self, hhigh, fun j hj hp => absurd hj (Nat.not_lt.mpr hp)⟩
    obtain ⟨p, hp, hhigh, hspares⟩ | ⟨s, hs, hrests, hwakes⟩ := ih
    · by_cases hspare : (es n).spares = true
      · exact .inl ⟨p, hp.trans n.lt_succ_self, hhigh,
          Nat.forall_lt_succ_right.mpr ⟨hspares, fun _ => hspare⟩⟩
      · have hlow := Event.level_of_not_spares hwake hspare
        exact .inr ⟨n + 1, le_rfl, .inr ⟨hlow, p, hp, hhigh, hspares⟩, hstart _⟩
    · exact .inr ⟨s, hs.trans n.le_succ, hrests,
        Nat.forall_lt_succ_right.mpr ⟨hwakes, fun _ => Bool.eq_false_iff.mpr hwake⟩⟩

/-! The chip. -/

namespace Mmc3

def after (m : Mmc3) : Event → Mmc3
  | .access (.cpuRead _) => m
  | .access (.cpuWrite a v) => if a < 0x8000 then m else m.write a v
  | .access (.ppuRead a) | .access (.ppuWrite a _) =>
    { m with lines := m.lines.see (line12 a) }
  | .access .clock => { m with lines := m.lines.clock }
  | .reset => m.reset

def history (m : Mmc3) (es : Nat → Event) : Nat → Mmc3
  | 0 => m
  | n + 1 => (m.history es n).after (es n)

theorem write_line (m : Mmc3) (a : UInt16) (v : UInt8) :
    (m.write a v).lines.a12High = m.lines.a12High ∧
      (m.write a v).lines.lowDots = m.lines.lowDots := by
  unfold write
  dsimp only
  split_ifs <;> exact ⟨rfl, rfl⟩

theorem after_cpuWrite_line (m : Mmc3) (a : UInt16) (v : UInt8) :
    (m.after (.access (.cpuWrite a v))).lines.a12High = m.lines.a12High ∧
      (m.after (.access (.cpuWrite a v))).lines.lowDots = m.lines.lowDots := by
  unfold after
  dsimp only
  split_ifs
  · exact ⟨rfl, rfl⟩
  · exact m.write_line a v

theorem after_a12High (m : Mmc3) (e : Event) : (m.after e).lines.a12High =
    if e.isReset then false else e.level?.getD m.lines.a12High := by
  cases e with
  | reset => rfl
  | access x =>
    cases x with
    | cpuRead | ppuRead | ppuWrite => rfl
    | cpuWrite a v => exact (m.after_cpuWrite_line a v).1
    | clock => exact m.lines.clock_a12High

theorem after_lowDots (m : Mmc3) (e : Event) : (m.after e).lines.lowDots =
    if e.wakes then 0
    else if e.isClock && !m.lines.a12High then m.lines.lowDots + 1 else m.lines.lowDots := by
  cases e with
  | reset => rfl
  | access x =>
    cases x with
    | cpuRead => rfl
    | cpuWrite a v => exact (m.after_cpuWrite_line a v).2
    | ppuRead a | ppuWrite a =>
      show (if line12 a then 0 else m.lines.lowDots) = _
      cases h : line12 a <;> simp [Event.wakes, Event.isReset, Event.level?, Event.isClock, h]
    | clock =>
      show m.lines.clock.lowDots = if !m.lines.a12High then m.lines.lowDots + 1 else m.lines.lowDots
      rw [LineCounter.clock_lowDots]
      cases m.lines.a12High <;> rfl

section History
variable {m : Mmc3} {es : Nat → Event}

theorem held {p n : Nat} (hp : (es p).level? = some true) (hpn : p < n)
    (hspares : ∀ j < n, p < j → (es j).spares = true) :
    (m.history es n).lines.a12High = true ∧ (m.history es n).lines.lowDots = 0 := by
  induction n, hpn using Nat.le_induction with
  | base =>
    rw [history, after_a12High, Event.isReset_of_level hp, hp, after_lowDots,
      if_pos ((Event.wakes_iff _).mpr (.inr hp))]
    exact ⟨rfl, rfl⟩
  | succ n hpn ih =>
    obtain ⟨hhigh, hdots⟩ := ih fun j hj => hspares j (hj.trans n.lt_succ_self)
    obtain ⟨hreset, hlevel⟩ := (Event.spares_iff _).mp (hspares n n.lt_succ_self hpn)
    rw [history, after_a12High, after_lowDots, Event.wakes, hreset, hlevel, hhigh, hdots,
      Bool.not_true, Bool.and_false]
    exact ⟨rfl, rfl⟩

theorem rests (hm : m.lines = {}) {s n : Nat} (hs : RestsFrom es s) (hsn : s ≤ n)
    (hwakes : ∀ j < n, s ≤ j → (es j).wakes = false) :
    (m.history es n).lines.a12High = false ∧ (m.history es n).lines.lowDots = dots es s n := by
  induction n, hsn using Nat.le_induction with
  | base =>
    rw [dots_self]
    match s, hs with
    | 0, _ =>
      rw [history, hm]
      exact ⟨rfl, rfl⟩
    | i + 1, .inl hreset =>
      rw [history, after_a12High, if_pos hreset, after_lowDots,
        if_pos ((Event.wakes_iff _).mpr (.inl hreset))]
      exact ⟨rfl, rfl⟩
    | i + 1, .inr ⟨hlow, p, hp, hhigh, hspares⟩ =>
      rw [history, after_a12High, after_lowDots, Event.wakes, Event.isReset_of_level hlow,
        Event.isClock_of_level hlow, hlow, (held hhigh hp hspares).2]
      exact ⟨rfl, rfl⟩
  | succ n hsn ih =>
    obtain ⟨hlow, hdots⟩ := ih fun j hj => hwakes j (hj.trans n.lt_succ_self)
    have hwake := hwakes n n.lt_succ_self hsn
    obtain ⟨hreset, hlevel⟩ := Event.wakes_eq_false_iff.mp hwake
    rw [history, after_a12High, hreset, after_lowDots, hwake, hlow, hdots, dots_succ es hsn,
      Bool.not_false, Bool.and_true]
    refine ⟨?_, ?_⟩
    · match h : (es n).level? with
      | none | some false => rfl
      | some true => exact absurd h hlevel
    · cases (es n).isClock <;> rfl

/-- The chip finds the edges that the accesses and dots say. -/
theorem filteredEdge_iff (hm : m.lines = {}) (i : Nat) : FilteredEdge es i ↔
    (es i).level? = some true ∧ (m.history es i).lines.rises true = true := by
  refine and_congr_right fun _ => ?_
  simp only [LineCounter.rises, Bool.true_and, Bool.and_eq_true, Bool.not_eq_true',
    decide_eq_true_eq]
  constructor
  · rintro ⟨s, hs, hrests, hwakes, hdots⟩
    obtain ⟨hlow, hlowDots⟩ := rests hm hrests hs hwakes
    exact ⟨hlow, hlowDots ▸ hdots⟩
  · rintro ⟨hlow, hdots⟩
    obtain ⟨p, hp, hhigh, hspares⟩ | ⟨s, hs, hrests, hwakes⟩ := held_or_rests es i
    · exact absurd ((held hhigh hp hspares).1.symm.trans hlow) (by decide)
    · exact ⟨s, hs, hrests, hwakes, (rests hm hrests hs hwakes).2 ▸ hdots⟩

theorem lines_after (m : Mmc3) {e : Event} (h : e.steers = false) : (m.after e).lines =
    match e.level? with
    | some high => m.lines.see high
    | none => if e.isClock then m.lines.clock else m.lines := by
  match e with
  | .access (.cpuWrite a v) =>
    rw [Event.steers, Bool.not_eq_false', decide_eq_true_eq] at h
    rw [after, if_pos h]
    rfl
  | .access (.cpuRead _) | .access (.ppuRead _) | .access (.ppuWrite ..) | .access .clock => rfl

theorem counted_after {latch : Nat} {enabled : Bool} {k i : Nat} (hm : m.lines = {})
    (hsteers : (es i).steers = false) (h : (m.history es i).lines.Counted latch enabled k) :
    (m.history es (i + 1)).lines.Counted latch enabled
      (k + if FilteredEdge es i then 1 else 0) := by
  rw [history, lines_after _ hsteers]
  simp only [filteredEdge_iff hm]
  match (es i).level? with
  | some high =>
    cases high
    · exact h.see false
    · simpa using h.see true
  | none =>
    simp only [reduceCtorEq, false_and, if_false, Nat.add_zero]
    split_ifs
    · exact h.clock
    · exact h

theorem counted {latch : Nat} {enabled : Bool} (hm : m.lines = {}) {w n : Nat} (hwn : w < n)
    (hsteers : ∀ i < n, w < i → (es i).steers = false)
    (h : (m.history es (w + 1)).lines.Counted latch enabled 0) :
    (m.history es n).lines.Counted latch enabled (edges es w n) := by
  induction n, hwn using Nat.le_induction with
  | base =>
    rw [edges_start]
    exact h
  | succ n hwn ih =>
    rw [edges_succ es hwn]
    exact counted_after hm (hsteers n n.lt_succ_self hwn)
      (ih fun i hi => hsteers i (hi.trans n.lt_succ_self))

end History

/-- The register that asks for a reload: odd addresses from `$C000` to `$DFFF`. -/
def reloads (a : UInt16) : Prop := 0xC000 ≤ a ∧ a < 0xE000 ∧ a &&& 1 = 1

theorem write_reloads (m : Mmc3) {a : UInt16} (ha : reloads a) (v : UInt8) :
    m.write a v = { m with lines.counter := 0, lines.reload := true } := by
  obtain ⟨hlow, hhigh, hodd⟩ := ha
  have hC000 : ¬a < 0xC000 := UInt16.not_lt.mpr hlow
  have hA000 : ¬a < 0xA000 := fun h => hC000 (UInt16.lt_trans h (by decide))
  rw [write, if_neg hA000, if_neg hC000, if_pos hhigh, hodd]
  rfl

theorem not_lt_8000 {a : UInt16} (ha : reloads a) : ¬a < 0x8000 :=
  fun h => UInt16.not_lt.mpr ha.1 (UInt16.lt_trans h (by decide))

end Mmc3

/-! The board. -/

theorem board_afterEvent {c : Cartridge} {m : Mmc3} (h : c.board = .mmc3 m) (e : Event) :
    (c.afterEvent e).board = .mmc3 (m.after e) := by
  cases e with
  | reset =>
    rw [afterEvent, reset, h]
    rfl
  | access x =>
    rw [afterEvent, board_after, h]
    cases x with
    | cpuRead | clock => rfl
    | ppuRead a | ppuWrite a =>
      rw [Board.after, Board.observe, LineCounter.observe_eq]
      rfl
    | cpuWrite a v =>
      rw [Board.after, Mmc3.after]
      split_ifs <;> rfl

theorem board_history {c : Cartridge} {m : Mmc3} (h : c.board = .mmc3 m) (es : Nat → Event)
    (n : Nat) : (c.history es n).board = .mmc3 (m.history es n) := by
  induction n with
  | zero => exact h
  | succ n ih => exact board_afterEvent ih (es n)

def acknowledged (c : Cartridge) : Cartridge :=
  match c.board with
  | .mmc3 m => { c with board := .mmc3 { m with lines.pending := false } }
  | _ => c

theorem acknowledged_board {c : Cartridge} {m : Mmc3} (h : c.board = .mmc3 m) :
    c.acknowledged.board = .mmc3 { m with lines.pending := false } := by
  rw [acknowledged, h]

theorem irq_eq {c : Cartridge} {m : Mmc3} (h : c.board = .mmc3 m) : c.irq = m.lines.pending := by
  rw [irq, h]
  rfl

/-- A reload is asked for with no interrupt pending, and then no register is written. From the
number of edges since follow the counter and the interrupt; and with nothing to count down from,
each edge asks for the interrupt, even where the last request was only just dropped. -/
theorem irq_closed_form {c : Cartridge} {horizontal : Bool}
    (hc : c.board = .mmc3 { horizontal }) {es : Nat → Event} {w n : Nat} {a : UInt16} {v : UInt8}
    (hw : es w = .access (.cpuWrite a v)) (ha : Mmc3.reloads a)
    (hirq : (c.history es w).irq = false) (hwn : w < n)
    (hsteers : ∀ i < n, w < i → (es i).steers = false) :
    ∃ m₀ m : Mmc3, (c.history es w).board = .mmc3 m₀ ∧ (c.history es n).board = .mmc3 m ∧
      (1 ≤ edges es w n →
        m.lines.counter = m₀.lines.latch - (edges es w n - 1) % (m₀.lines.latch + 1) ∧
        m.lines.counter ≤ m₀.lines.latch) ∧
      ((c.history es n).irq = true ↔
        m₀.lines.enabled = true ∧ m₀.lines.latch + 1 ≤ edges es w n) ∧
      (m₀.lines.latch = 0 → ∀ i < n, w < i → FilteredEdge es i →
        ((c.history es i).acknowledged.afterEvent (es i)).irq = m₀.lines.enabled) := by
  have hboard := board_history hc es
  set m : Mmc3 := { horizontal }
  have hm : m.lines = {} := rfl
  set lines := (m.history es w).lines
  rw [irq_eq (hboard w)] at hirq
  -- The write starts the count.
  have hstart : (m.history es (w + 1)).lines.Counted lines.latch lines.enabled 0 := by
    rw [Mmc3.history, hw, Mmc3.after, if_neg (Mmc3.not_lt_8000 ha), Mmc3.write_reloads _ ha]
    exact ⟨rfl, rfl, rfl, fun h => absurd h (Nat.lt_irrefl 0), by simpa using hirq⟩
  have hcounted (i : Nat) (hi : w < i) (hin : i ≤ n) :=
    Mmc3.counted hm hi (fun j hj => hsteers j (hj.trans_le hin)) hstart
  refine ⟨_, _, hboard w, hboard n, fun hk => ?_, ?_, ?_⟩
  · have hcounter := (hcounted n hwn le_rfl).counter_eq hk
    exact ⟨hcounter, hcounter.trans_le (Nat.sub_le _ _)⟩
  · rw [irq_eq (hboard n), (hcounted n hwn le_rfl).pending_eq, Bool.and_eq_true, decide_eq_true_eq]
    rfl
  · intro hlatch i hin hwi hedge
    obtain ⟨hlevel, hrises⟩ := (Mmc3.filteredEdge_iff hm i).mp hedge
    have hi := hcounted i hwi hin.le
    rw [hlatch] at hi
    rw [irq_eq (board_afterEvent (acknowledged_board (hboard i)) (es i)),
      Mmc3.lines_after _ (hsteers i hin hwi), hlevel]
    exact hi.see_pending hrises

/-- The latch is one: of the edges at 6 and 11 the second asks for the interrupt. -/
def twoEdges (i : Nat) : Event :=
  let script : List Access :=
    [.cpuWrite 0xC000 1, .cpuWrite 0xE001 0, .cpuWrite 0xC001 0, .clock, .clock, .clock,
      .ppuRead 0x1000, .ppuRead 0x0FFF, .clock, .clock, .clock, .ppuWrite 0x3000 7]
  .access (script[i]?.getD .clock)

def chipless : Cartridge where
  header := {
    prgBanks := 0, chrBanks := 0, mapperId := 4
    vertical := true, battery := false, trainer := false, fourScreen := false }
  storage := { prgRom := #[], chr := #[], chrWritable := false }
  board := .mmc3 { horizontal := false }

theorem irq_closed_form_twoEdges : (chipless.history twoEdges 2).irq = false ∧
    edges twoEdges 2 12 = 2 ∧ (∀ i < 12, 2 < i → (twoEdges i).steers = false) ∧
    (chipless.history twoEdges 12).irq = true := by
  have hboard := board_history (c := chipless) rfl twoEdges
  have hirq : (chipless.history twoEdges 2).irq = false := by
    rw [irq_eq (hboard 2)]
    decide
  have hsteers : ∀ i < 12, 2 < i → (twoEdges i).steers = false := by decide
  have hedges : edges twoEdges 2 12 = 2 := by decide +kernel
  have hreloads : Mmc3.reloads 0xC001 := ⟨by decide, by decide, by decide⟩
  obtain ⟨m₀, m, hm₀, -, -, hpending, -⟩ :=
    irq_closed_form (c := chipless) rfl (w := 2) rfl hreloads hirq (by decide : 2 < 12) hsteers
  refine ⟨hirq, hedges, hsteers, hpending.mpr ?_⟩
  obtain rfl := Board.mmc3.inj ((hboard 2).symm.trans hm₀)
  rw [hedges]
  decide

end Famicom.Cartridge
