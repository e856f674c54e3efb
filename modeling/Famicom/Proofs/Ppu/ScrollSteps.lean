import Famicom.Proofs.Ppu.WellFormed
import Mathlib.Logic.Function.Iterate

/-! Any number of steps of the scroll position. A step across changes the column alone and a step
down all but the column, so that a position is two counters, of which one goes round the 64 columns
of the map and the other round its 480 rows. The rows of the attributes are not on the map: from
there the second counter comes to the end of the nametable, and then starts the same one again. -/
namespace Famicom.Ppu.Scroll

/-- The row of pixels within a nametable, of which there are 256 with the rows of the attributes. -/
def line (s : Scroll) : Nat := s.coarseY * 8 + s.fineY

/-- All but the column: the nametable row and the row within it. -/
def down (s : Scroll) : Nat × Nat := (s.tableY, s.line)

/-- The row below. Line 239 is the last one above the attributes. -/
def below : Nat × Nat → Nat × Nat
  | (table, line) => if line = 239 then (1 - table, 0) else (table, (line + 1) % 256)

theorem line_lt (s : Scroll) : s.line < 256 := by
  have := s.coarseY_lt
  have := s.fineY_lt
  unfold line
  omega

theorem row_eq (s : Scroll) : s.row = s.tableY * 240 + s.line := Nat.add_assoc ..

theorem coarseY_le_iff (s : Scroll) : s.coarseY ≤ 29 ↔ s.line < 240 := by
  have := s.fineY_lt
  unfold line
  omega

/-! The two counters. -/

theorem down_stepX (s : Scroll) : s.stepX.down = s.down := by
  rw [down, down, line, line, s.fields_stepX.tableY, s.fields_stepX.coarseY, s.fields_stepX.fineY]

theorem tableY_stepY (s : Scroll) :
    s.stepY.tableY = if s.line = 239 then 1 - s.tableY else s.tableY := by
  have hy := s.coarseY_lt
  have hfine := s.fineY_lt
  rw [s.fields_stepY.tableY, line]
  split_ifs <;> omega

theorem line_stepY (s : Scroll) :
    s.stepY.line = if s.line = 239 then 0 else (s.line + 1) % 256 := by
  have hy := s.coarseY_lt
  have hfine := s.fineY_lt
  rw [line, s.fields_stepY.coarseY, s.fields_stepY.fineY, line]
  split_ifs <;> omega

theorem down_stepY (s : Scroll) : s.stepY.down = below s.down := by
  rw [down, down, below, tableY_stepY, line_stepY]
  split_ifs <;> rfl

theorem down_copyX (s t : Scroll) : (s.copyX t).down = s.down := by
  rw [down, down, line, line, (s.fields_copyX t).tableY, (s.fields_copyX t).coarseY,
    (s.fields_copyX t).fineY]

theorem down_copyY (s t : Scroll) : (s.copyY t).down = t.down := by
  rw [down, down, line, line, (s.fields_copyY t).tableY, (s.fields_copyY t).coarseY,
    (s.fields_copyY t).fineY]

theorem line_div (s : Scroll) : s.line / 8 = s.coarseY := by
  have := s.fineY_lt
  unfold line
  omega

theorem line_mod (s : Scroll) : s.line % 8 = s.fineY := by
  have := s.fineY_lt
  unfold line
  omega

theorem column_div (s : Scroll) : s.column / 32 = s.tableX := by
  have := s.coarseX_lt
  unfold column
  omega

theorem eq_of_counters {s t : Scroll} (hs : s.raw < 0x8000) (ht : t.raw < 0x8000)
    (hcolumn : s.column = t.column) (hdown : s.down = t.down) : s = t := by
  obtain ⟨htable, hline⟩ := Prod.mk.inj hdown
  apply congrArg mk
  rw [s.raw_eq, t.raw_eq, Nat.div_eq_of_lt hs, Nat.div_eq_of_lt ht, ← s.line_mod, ← s.line_div,
    ← s.column_div, ← s.column_mod, hcolumn, htable, hline, t.line_mod, t.line_div,
    t.column_div, t.column_mod]

/-! Their runs. -/

section Runs
variable (s : Scroll) (n : Nat)

theorem column_iterate_stepX : (stepX^[n] s).column = (s.column + n) % 64 := by
  induction n with
  | zero => exact (Nat.mod_eq_of_lt s.column_lt).symm
  | succ n ih => rw [Function.iterate_succ_apply', column_stepX, ih, Nat.mod_add_mod, Nat.add_assoc]

theorem column_iterate_stepY : (stepY^[n] s).column = s.column :=
  Function.Iterate.rec (fun t => t.column = s.column) rfl (fun t => (column_stepY t).trans) n

theorem down_iterate_stepX : (stepX^[n] s).down = s.down :=
  Function.Iterate.rec (fun t => t.down = s.down) rfl (fun t => (down_stepX t).trans) n

theorem down_iterate_stepY : (stepY^[n] s).down = below^[n] s.down := by
  have hview : Function.Semiconj down stepY below := down_stepY
  exact hview.iterate_right n s

end Runs

section Bounded
variable {s : Scroll}

theorem iterate_stepX_lt (h : s.raw < 0x8000) (n : Nat) : (stepX^[n] s).raw < 0x8000 :=
  Function.Iterate.rec (fun t : Scroll => t.raw < 0x8000) h (fun _ => stepX_lt) n

theorem iterate_stepY_lt (h : s.raw < 0x8000) (n : Nat) : (stepY^[n] s).raw < 0x8000 :=
  Function.Iterate.rec (fun t : Scroll => t.raw < 0x8000) h (fun _ => stepY_lt) n

/-- In either order the counters come to the same. -/
theorem steps_comm (h : s.raw < 0x8000) (m n : Nat) :
    stepX^[m] (stepY^[n] s) = stepY^[n] (stepX^[m] s) := by
  apply eq_of_counters (iterate_stepX_lt (iterate_stepY_lt h n) m)
    (iterate_stepY_lt (iterate_stepX_lt h m) n)
  · rw [column_iterate_stepX, column_iterate_stepY, column_iterate_stepY, column_iterate_stepX]
  · rw [down_iterate_stepX, down_iterate_stepY, down_iterate_stepY, down_iterate_stepX]

theorem copies_comm (s t u : Scroll) :
    (s.copyX t).copyY u = (s.copyY u).copyX t := by
  apply eq_of_counters (copyY_lt _ u) (copyX_lt t (copyY_lt s u))
  · rw [column_copyY, column_copyX, column_copyX]
  · rw [down_copyY, down_copyX, down_copyY]

theorem copies_source (s : Scroll) {t : Scroll} (h : t.raw < 0x8000) : (s.copyX t).copyY t = t := by
  apply eq_of_counters (copyY_lt _ t) h
  · rw [column_copyY, column_copyX]
  · rw [down_copyY]

end Bounded

/-! Rows. -/

theorem row_iterate_stepY {s : Scroll} (h : s.coarseY ≤ 29) (n : Nat) :
    (stepY^[n] s).row = (s.row + n) % 480 ∧ (stepY^[n] s).coarseY ≤ 29 := by
  induction n with
  | zero =>
    rw [Function.iterate_zero_apply, Nat.add_zero, Nat.mod_eq_of_lt (s.row_lt h)]
    exact ⟨rfl, h⟩
  | succ n ih =>
    obtain ⟨hrow, hle⟩ := ih
    rw [Function.iterate_succ_apply']
    refine ⟨?_, coarseY_stepY_le _ hle⟩
    rw [row_stepY _ hle, hrow, Nat.mod_add_mod, Nat.add_assoc]

theorem iterate_below {table line n : Nat} (h : 240 ≤ line) (hn : line + n < 256) :
    below^[n] (table, line) = (table, line + n) := by
  induction n with
  | zero => rfl
  | succ n ih =>
    rw [Function.iterate_succ_apply', ih (by omega), below, if_neg (by omega),
      Nat.mod_eq_of_lt (by omega), Nat.add_assoc]

/-- The line after the last one is the first, without a change of the nametable. -/
theorem iterate_below_end {table line : Nat} (h : 240 ≤ line) (hline : line < 256) :
    below^[256 - line] (table, line) = (table, 0) := by
  have hlast : below^[255 - line] (table, line) = (table, 255) := by
    rw [iterate_below h (by omega)]
    simp only [Prod.mk.injEq, true_and]
    omega
  have hcount : 256 - line = 255 - line + 1 := by omega
  rw [hcount, Function.iterate_succ_apply', hlast]
  rfl

section Attributes
variable {s : Scroll} (h : 30 ≤ s.coarseY)
include h

theorem le_line : 240 ≤ s.line := by
  unfold line
  omega

theorem down_attributes {n : Nat} (hn : n < 256 - s.line) :
    (stepY^[n] s).down = (s.tableY, s.line + n) := by
  rw [down_iterate_stepY, down, iterate_below (le_line h) (by omega)]

theorem down_attributes_end : (stepY^[256 - s.line] s).down = (s.tableY, 0) := by
  rw [down_iterate_stepY, down, iterate_below_end (le_line h) s.line_lt]

theorem row_attributes (n : Nat) :
    (stepY^[n + (256 - s.line)] s).row = (s.tableY * 240 + n) % 480 ∧
      (stepY^[n + (256 - s.line)] s).coarseY ≤ 29 := by
  obtain ⟨htable, hline⟩ := Prod.mk.inj (down_attributes_end h)
  have hle : (stepY^[256 - s.line] s).coarseY ≤ 29 := by
    rw [coarseY_le_iff, hline]
    decide
  have hrow : (stepY^[256 - s.line] s).row = s.tableY * 240 := by
    rw [row_eq, htable, hline, Nat.add_zero]
  rw [Function.iterate_add_apply, ← hrow]
  exact row_iterate_stepY hle n

end Attributes

/-- Steps are modular arithmetic, from every position of 15 bits. Steps across add to the column,
modulo 64, and change nothing else. Steps down on the map add to the row, modulo 480, and change
nothing else. Steps down from a row of the attributes come to the last line of the nametable, then
to the first line of the same one, and go on by the law of the map. Steps in the two directions
commute, and so do copies, of which two from one source give the source. None of these
sets bit 15. -/
theorem steps_modular {s : Scroll} (h : s.raw < 0x8000) :
    (∀ n, (stepX^[n] s).column = (s.column + n) % 64 ∧ (stepX^[n] s).down = s.down) ∧
    (∀ n, (stepY^[n] s).column = s.column) ∧
    (s.coarseY ≤ 29 → ∀ n,
      (stepY^[n] s).row = (s.row + n) % 480 ∧ (stepY^[n] s).coarseY ≤ 29) ∧
    (30 ≤ s.coarseY →
      (∀ n < 256 - s.line, (stepY^[n] s).down = (s.tableY, s.line + n)) ∧
      (stepY^[256 - s.line] s).down = (s.tableY, 0) ∧
      ∀ n, (stepY^[n + (256 - s.line)] s).row = (s.tableY * 240 + n) % 480 ∧
        (stepY^[n + (256 - s.line)] s).coarseY ≤ 29) ∧
    (∀ m n, stepX^[m] (stepY^[n] s) = stepY^[n] (stepX^[m] s) ∧
      (stepX^[m] (stepY^[n] s)).raw < 0x8000) ∧
    (∀ t u, (s.copyX t).copyY u = (s.copyY u).copyX t ∧
      (s.copyX t).raw < 0x8000 ∧ (s.copyY u).raw < 0x8000) ∧
    ∀ t : Scroll, t.raw < 0x8000 → (s.copyX t).copyY t = t := by
  refine ⟨?_, s.column_iterate_stepY, row_iterate_stepY, ?_, ?_, ?_, fun t => s.copies_source⟩
  · intro n
    exact ⟨s.column_iterate_stepX n, s.down_iterate_stepX n⟩
  · intro hy
    exact ⟨fun n => down_attributes hy, down_attributes_end hy, row_attributes hy⟩
  · intro m n
    exact ⟨steps_comm h m n, iterate_stepX_lt (iterate_stepY_lt h n) m⟩
  · intro t u
    exact ⟨s.copies_comm t u, copyX_lt t h, s.copyY_lt u⟩

/-- The last place of the map, and the last one of all, at the end of the attributes. -/
theorem steps_modular_last :
    let s : Scroll := ⟨0x7FBF⟩
    let t : Scroll := ⟨0x7FFF⟩
    s.raw < 0x8000 ∧ s.coarseY ≤ 29 ∧ t.raw < 0x8000 ∧ 30 ≤ t.coarseY ∧
      (stepX^[1000] s).column = 39 ∧ (stepY^[999] s).row = 38 ∧
      (stepY^[1] t).down = (1, 0) ∧ (stepY^[999 + 1] t).row = 279 ∧
      (s.copyX t).copyY t = t := by
  intro s t
  have hs : s.raw < 0x8000 := by decide
  have ht : t.raw < 0x8000 := by decide
  have hmap : s.coarseY ≤ 29 := by decide
  have hattributes : 30 ≤ t.coarseY := by decide
  obtain ⟨hacross, -, hrows, -, -, -, hsource⟩ := steps_modular hs
  obtain ⟨-, -, -, hend, -⟩ := steps_modular ht
  obtain ⟨-, hfirst, hrest⟩ := hend hattributes
  have hleft : 256 - t.line = 1 := by decide
  have htable : t.tableY = 1 := by decide
  rw [hleft, htable] at hfirst hrest
  exact ⟨hs, hmap, ht, hattributes, (hacross 1000).1.trans (by decide),
    (hrows hmap 999).1.trans (by decide), hfirst, (hrest 999).1, hsource t ht⟩

end Famicom.Ppu.Scroll
