import Famicom.Ppu.Scroll
import Mathlib.Tactic.SplitIfs

/-! A scroll position as a place on the map of all four nametables: a column of tiles among 64 and
a row of pixels among 480. Steps move one of the two by one, copies take one of the two over. -/
namespace Famicom.Ppu.Scroll

theorem coarseX_lt (s : Scroll) : s.coarseX < 32 := Nat.mod_lt _ (by decide)
theorem coarseY_lt (s : Scroll) : s.coarseY < 32 := Nat.mod_lt _ (by decide)
theorem tableX_lt (s : Scroll) : s.tableX < 2 := Nat.mod_lt _ (by decide)
theorem tableY_lt (s : Scroll) : s.tableY < 2 := Nat.mod_lt _ (by decide)
theorem fineY_lt (s : Scroll) : s.fineY < 8 := Nat.mod_lt _ (by decide)

/-- The column of tiles, over both nametables of a row. -/
def column (s : Scroll) : Nat := s.tableX * 32 + s.coarseX

/-- The row of pixels, over both nametables of a column. It is a place on the map only where
coarse Y is at most 29. -/
def row (s : Scroll) : Nat := s.tableY * 240 + s.coarseY * 8 + s.fineY

theorem column_lt (s : Scroll) : s.column < 64 := by
  have := s.coarseX_lt
  have := s.tableX_lt
  unfold column
  omega

theorem row_lt (s : Scroll) (h : s.coarseY ≤ 29) : s.row < 480 := by
  have := s.fineY_lt
  have := s.tableY_lt
  unfold row
  omega

theorem fineY_eq (s : Scroll) : s.fineY = s.row % 8 := by
  have := s.fineY_lt
  unfold row
  omega

/-! Steps. -/

theorem raw_stepX (s : Scroll) : s.stepX.raw =
    if s.coarseX = 31 then if s.tableX = 0 then s.raw - 31 + 0x400 else s.raw - 31 - 0x400
    else s.raw + 1 := by
  by_cases h : s.coarseX = 31
  · have hr : (s.setCoarseX 0).raw = s.raw - 31 := by simp [setCoarseX, h]
    have ht : (s.setCoarseX 0).tableX = s.tableX := by
      simp only [coarseX, tableX, hr] at h ⊢
      omega
    simp only [stepX, h, if_true, flipTableX, ht, hr]
  · simp [stepX, h]

theorem raw_stepY (s : Scroll) : s.stepY.raw =
    if s.fineY < 7 then s.raw + 0x1000
    else if s.coarseY = 29 then
      if s.tableY = 0 then s.raw - s.fineY * 0x1000 - s.coarseY * 32 + 0x800
      else s.raw - s.fineY * 0x1000 - s.coarseY * 32 - 0x800
    else if s.coarseY = 31 then s.raw - s.fineY * 0x1000 - s.coarseY * 32
    else s.raw - s.fineY * 0x1000 + 32 := by
  have hr : (s.setFineY 0).raw = s.raw - s.fineY * 0x1000 := by simp [setFineY]
  have hc : (s.setFineY 0).coarseY = s.coarseY := by
    simp only [coarseY, fineY, hr]
    omega
  have hset (n : Nat) : ((s.setFineY 0).setCoarseY n).raw =
      s.raw - s.fineY * 0x1000 - s.coarseY * 32 + n % 32 * 32 := by
    rw [setCoarseY, hc, hr]
  have ht : ((s.setFineY 0).setCoarseY 0).tableY = s.tableY := by
    simp only [tableY, coarseY, fineY, hset]
    omega
  simp only [stepY]
  split_ifs with hf h29 hy h31
  · rfl
  · simp [flipTableY, ht, hy, hset]
  · simp [flipTableY, ht, hy, hset]
  · simp [hset]
  · rw [hset]
    simp only [coarseY, fineY] at h29 h31 ⊢
    omega

/-! A position from its fields. -/

theorem raw_eq (s : Scroll) : s.raw = s.raw / 0x8000 * 0x8000 + s.fineY * 0x1000 +
    s.tableY * 0x800 + s.tableX * 0x400 + s.coarseY * 32 + s.coarseX := by
  simp only [fineY, tableY, tableX, coarseY, coarseX]
  omega

/-- The fields of a position, from the lowest on. -/
structure Fields (s : Scroll) (x y tx ty fine : Nat) : Prop where
  coarseX : s.coarseX = x
  coarseY : s.coarseY = y
  tableX : s.tableX = tx
  tableY : s.tableY = ty
  fineY : s.fineY = fine

theorem fields_of {s : Scroll} {q x y tx ty fine : Nat} (hx : x < 32) (hy : y < 32) (htx : tx < 2)
    (hty : ty < 2) (hfine : fine < 8)
    (h : s.raw = q * 0x8000 + fine * 0x1000 + ty * 0x800 + tx * 0x400 + y * 32 + x) :
    s.Fields x y tx ty fine := by
  constructor
  · rw [coarseX, h]
    omega
  · rw [coarseY, h]
    omega
  · rw [tableX, h]
    omega
  · rw [tableY, h]
    omega
  · rw [fineY, h]
    omega

theorem fields_stepX (s : Scroll) : s.stepX.Fields ((s.coarseX + 1) % 32) s.coarseY
    (if s.coarseX = 31 then 1 - s.tableX else s.tableX) s.tableY s.fineY := by
  have hx := s.coarseX_lt
  have htx := s.tableX_lt
  have hraw := s.raw_eq
  apply fields_of (q := s.raw / 0x8000) (Nat.mod_lt _ (by decide)) s.coarseY_lt _ s.tableY_lt
    s.fineY_lt
  · rw [raw_stepX]
    split_ifs <;> omega
  · split_ifs <;> omega

theorem fields_stepY (s : Scroll) : s.stepY.Fields s.coarseX
    (if s.fineY < 7 then s.coarseY else if s.coarseY = 29 then 0 else (s.coarseY + 1) % 32)
    s.tableX
    (if s.fineY < 7 then s.tableY else if s.coarseY = 29 then 1 - s.tableY else s.tableY)
    ((s.fineY + 1) % 8) := by
  have hy := s.coarseY_lt
  have hty := s.tableY_lt
  have hfine := s.fineY_lt
  have hraw := s.raw_eq
  apply fields_of (q := s.raw / 0x8000) s.coarseX_lt _ s.tableX_lt _ (Nat.mod_lt _ (by decide))
  · rw [raw_stepY]
    split_ifs <;> omega
  · split_ifs <;> omega
  · split_ifs <;> omega

theorem column_stepX (s : Scroll) : s.stepX.column = (s.column + 1) % 64 := by
  have hx := s.coarseX_lt
  have htx := s.tableX_lt
  rw [column, column, s.fields_stepX.coarseX, s.fields_stepX.tableX]
  split_ifs <;> omega

theorem coarseY_stepX (s : Scroll) : s.stepX.coarseY = s.coarseY := s.fields_stepX.coarseY

theorem row_stepX (s : Scroll) : s.stepX.row = s.row := by
  rw [row, row, s.fields_stepX.tableY, s.fields_stepX.coarseY, s.fields_stepX.fineY]

theorem column_stepY (s : Scroll) : s.stepY.column = s.column := by
  rw [column, column, s.fields_stepY.tableX, s.fields_stepY.coarseX]

theorem coarseY_stepY_le (s : Scroll) (h : s.coarseY ≤ 29) : s.stepY.coarseY ≤ 29 := by
  rw [s.fields_stepY.coarseY]
  split_ifs <;> omega

theorem row_stepY (s : Scroll) (h : s.coarseY ≤ 29) : s.stepY.row = (s.row + 1) % 480 := by
  have hfine := s.fineY_lt
  have hty := s.tableY_lt
  rw [row, row, s.fields_stepY.tableY, s.fields_stepY.coarseY, s.fields_stepY.fineY]
  split_ifs <;> omega

/-! Copies. -/

theorem fields_copyX (s t : Scroll) :
    (s.copyX t).Fields t.coarseX s.coarseY t.tableX s.tableY s.fineY := by
  have hraw := s.raw_eq
  apply fields_of (q := s.raw / 0x8000) t.coarseX_lt s.coarseY_lt t.tableX_lt s.tableY_lt
    s.fineY_lt
  simp only [copyX]
  omega

theorem fields_copyY (s t : Scroll) :
    (s.copyY t).Fields s.coarseX t.coarseY s.tableX t.tableY t.fineY := by
  apply fields_of (q := 0) s.coarseX_lt t.coarseY_lt s.tableX_lt t.tableY_lt t.fineY_lt
  simp only [copyY]
  omega

theorem column_copyX (s t : Scroll) : (s.copyX t).column = t.column := by
  rw [column, column, (s.fields_copyX t).tableX, (s.fields_copyX t).coarseX]

theorem coarseY_copyX (s t : Scroll) : (s.copyX t).coarseY = s.coarseY :=
  (s.fields_copyX t).coarseY

theorem row_copyX (s t : Scroll) : (s.copyX t).row = s.row := by
  rw [row, row, (s.fields_copyX t).tableY, (s.fields_copyX t).coarseY, (s.fields_copyX t).fineY]

theorem column_copyY (s t : Scroll) : (s.copyY t).column = s.column := by
  rw [column, column, (s.fields_copyY t).tableX, (s.fields_copyY t).coarseX]

theorem coarseY_copyY (s t : Scroll) : (s.copyY t).coarseY = t.coarseY :=
  (s.fields_copyY t).coarseY

theorem row_copyY (s t : Scroll) : (s.copyY t).row = t.row := by
  rw [row, row, (s.fields_copyY t).tableY, (s.fields_copyY t).coarseY, (s.fields_copyY t).fineY]

/-! Addresses. -/

def nametable (column row : Nat) : Nat := column / 32 + row / 240 * 2

theorem nametable_column_row (s : Scroll) (h : s.coarseY ≤ 29) :
    nametable s.column s.row = s.raw / 0x400 % 4 := by
  have hf := s.fineY_lt
  have hx := s.coarseX_lt
  have hr : s.row / 240 = s.tableY := by
    unfold row
    omega
  have hc : s.column / 32 = s.tableX := by
    unfold column
    omega
  rw [nametable, hr, hc, tableX, tableY]
  omega

theorem row_mod (s : Scroll) (h : s.coarseY ≤ 29) : s.row % 240 = s.coarseY * 8 + s.fineY := by
  have := s.fineY_lt
  have := s.tableY_lt
  unfold row
  omega

theorem column_mod (s : Scroll) : s.column % 32 = s.coarseX := by
  have := s.coarseX_lt
  unfold column
  omega

theorem tileAddress_eq (s : Scroll) (h : s.coarseY ≤ 29) : s.tileAddress =
    0x2000 + nametable s.column s.row * 0x400 + s.row % 240 / 8 * 32 + s.column % 32 := by
  have hf := s.fineY_lt
  have hy : (s.coarseY * 8 + s.fineY) / 8 = s.coarseY := by omega
  rw [nametable_column_row s h, row_mod s h, column_mod, hy]
  simp only [tileAddress, coarseX, coarseY]
  omega

theorem attributeAddress_eq (s : Scroll) (h : s.coarseY ≤ 29) : s.attributeAddress =
    0x23C0 + nametable s.column s.row * 0x400 + s.row % 240 / 32 * 8 + s.column % 32 / 4 := by
  have hf := s.fineY_lt
  have hy : (s.coarseY * 8 + s.fineY) / 32 = s.coarseY / 4 := by omega
  rw [nametable_column_row s h, row_mod s h, column_mod, hy]
  rfl

end Famicom.Ppu.Scroll
