import Famicom.Proofs.Ppu.Dot
import Famicom.Proofs.Ppu.TileMap

/-! One line of tiles in the pipeline. Its gathering dots are counted from dot 321 of the line
before, which is number 0; dot 337 is number 16, and the count goes on with 17 in dot 2 of the line
itself. After dot `c` the latches are for tile `c / 8`, and the shifters hold the pixels from
`c - 16` on. -/
namespace Famicom.Ppu

/-! The shifters. -/

/-- Dot by dot a shifter shows a row of tiles. -/
def Shows (s : UInt16) (rows : Nat → UInt8) (c : Nat) : Prop :=
  ∀ j < 16 - c % 8, 16 ≤ c + j → s.toNat.testBit (15 - j) =
    (rows ((c + j - 16) / 8)).toNat.testBit (7 - (c + j - 16) % 8)

theorem shows_zero (s : UInt16) (rows : Nat → UInt8) : Shows s rows 0 := by
  intro j hj hc
  omega

theorem testBit_shift (s : UInt16) (j : Nat) (hj : j < 15) :
    (s <<< 1).toNat.testBit (15 - j) = s.toNat.testBit (15 - (j + 1)) := by
  have h : 15 - j = 15 - (j + 1) + 1 := by omega
  have hone : (1 : UInt16).toNat % 16 = 1 := rfl
  rw [UInt16.toNat_shiftLeft, hone, Nat.testBit_mod_two_pow, Nat.testBit_shiftLeft, h]
  simp
  omega

theorem testBit_fill (s : UInt16) (v : UInt8) {j : Nat} (hj : j < 16) :
    (Background.fill s v).toNat.testBit (15 - j) =
      if j < 8 then s.toNat.testBit (15 - j) else v.toNat.testBit (15 - j) := by
  have hmask : ∀ j < 16, (0xFF00 : UInt16).toNat.testBit (15 - j) = decide (j < 8) := by decide
  rw [Background.fill, UInt16.toNat_or, UInt16.toNat_and, UInt8.toNat_toUInt16, Nat.testBit_or,
    Nat.testBit_and, hmask j hj]
  by_cases h8 : j < 8
  · have hv : v.toNat.testBit (15 - j) = false := by
      apply Nat.testBit_lt_two_pow
      calc v.toNat < 2 ^ 8 := v.toNat_lt
        _ ≤ 2 ^ (15 - j) := Nat.pow_le_pow_right (by decide) (by omega)
    simp [h8, hv]
  · simp [h8]

theorem Shows.shift {s : UInt16} {rows : Nat → UInt8} {c : Nat} (h : Shows s rows c)
    (hc : (c + 1) % 8 ≠ 0) : Shows (s <<< 1) rows (c + 1) := by
  intro j hj h16
  have hnext : c + (j + 1) = c + 1 + j := by omega
  rw [testBit_shift s j (by omega), h (j + 1) (by omega) (by omega), hnext]

theorem Shows.load {s : UInt16} {rows : Nat → UInt8} {c : Nat} (h : Shows s rows c)
    (hc : (c + 1) % 8 = 0) : Shows (Background.fill (s <<< 1) (rows (c / 8))) rows (c + 1) := by
  intro j hj h16
  rw [testBit_fill _ _ (by omega)]
  split_ifs with h8
  · have hnext : c + (j + 1) = c + 1 + j := by omega
    rw [testBit_shift s j (by omega), h (j + 1) (by omega) (by omega), hnext]
  · have htile : (c + 1 + j - 16) / 8 = c / 8 := by omega
    have hbit : 7 - (c + 1 + j - 16) % 8 = 15 - j := by omega
    rw [htile, hbit]

theorem tap_eq (s : UInt16) {x : UInt8} (hx : x.toNat < 8) :
    Background.tap s x = if s.toNat.testBit (15 - x.toNat) then 1 else 0 := by
  have hsub : (15 - x.toUInt16).toNat % 16 = 15 - x.toNat := by
    rw [UInt16.toNat_sub_of_le, UInt8.toNat_toUInt16]
    · change (15 - x.toNat) % 16 = 15 - x.toNat
      omega
    · rw [UInt16.le_iff_toNat_le, UInt8.toNat_toUInt16]
      change x.toNat ≤ 15
      omega
  apply UInt8.toNat_inj.mp
  rw [Background.tap, UInt16.toNat_toUInt8, UInt16.toNat_and, UInt16.toNat_shiftRight, hsub]
  change (s.toNat >>> (15 - x.toNat) &&& 1) % 2 ^ 8 = _
  rw [Nat.and_one_is_mod, Nat.testBit_eq_decide_div_mod_eq, Nat.shiftRight_eq_div_pow]
  obtain h | h := Nat.mod_two_eq_zero_or_one (s.toNat / 2 ^ (15 - x.toNat)) <;> simp [h]

theorem Shows.tap {s : UInt16} {rows : Nat → UInt8} {c : Nat} (h : Shows s rows c) {x : UInt8}
    (hx : x.toNat < 8) (hc : 16 ≤ c) : Background.tap s x =
      TileMap.bit (rows ((c + x.toNat - 16) / 8)) ((c + x.toNat - 16) % 8) := by
  rw [tap_eq s hx, h x.toNat (by omega) (by omega), TileMap.bit]

/-! What a gathering dot does to each latch. -/

namespace Background
variable (b : Background) (shows : Bool) (v : Scroll) (phase : Nat) (data : UInt8)

theorem gather_tile : (b.gather shows v phase data).tile = if phase = 0 then data else b.tile := by
  rcases phase with _ | _ | _ | _ | _ | _ | _ | _ <;> cases shows <;> rfl

theorem gather_attr : (b.gather shows v phase data).attr =
    if phase = 2 then v.attributeBits data else b.attr := by
  rcases phase with _ | _ | _ | _ | _ | _ | _ | _ <;> cases shows <;> rfl

theorem gather_lo : (b.gather shows v phase data).lo = if phase = 4 then data else b.lo := by
  rcases phase with _ | _ | _ | _ | _ | _ | _ | _ <;> cases shows <;> rfl

theorem gather_hi : (b.gather shows v phase data).hi = if phase = 6 then data else b.hi := by
  rcases phase with _ | _ | _ | _ | _ | _ | _ | _ <;> cases shows <;> rfl

theorem gather_shifters : ∃ tile attr lo hi, b.gather true v phase data =
    { if phase = 0 then b.shift.load else b.shift with tile, attr, lo, hi } := by
  rcases phase with _ | _ | _ | _ | _ | _ | _ | _ <;> exact ⟨_, _, _, _, rfl⟩

end Background

/-! A line of tiles. -/

/-- Both palette bits of a tile are as wide as the tile. -/
def spread (palette mask : UInt8) : UInt8 := if palette &&& mask = 0 then 0 else 0xFF

/-- Where tile `i` of a line begins that starts in tile column `column`. -/
def tileX (column i : Nat) : Nat := 8 * ((column + i) % 64)

variable (m : Nat → UInt8) (table column row : Nat)

structure Shown (c : Nat) (b : Background) : Prop where
  patternLo : Shows b.patternLo (fun i => TileMap.row m table (tileX column i) row) c
  patternHi : Shows b.patternHi (fun i => TileMap.row m (table + 8) (tileX column i) row) c
  attrLo : Shows b.attrLo (fun i => spread (TileMap.palette m (tileX column i) row) 1) c
  attrHi : Shows b.attrHi (fun i => spread (TileMap.palette m (tileX column i) row) 2) c

structure Latched (c : Nat) (b : Background) : Prop where
  tile : b.tile = TileMap.tile m (tileX column (c / 8)) row
  attr : 2 ≤ c % 8 → b.attr = TileMap.palette m (tileX column (c / 8)) row
  lo : 4 ≤ c % 8 → b.lo = TileMap.row m table (tileX column (c / 8)) row
  hi : 6 ≤ c % 8 → b.hi = TileMap.row m (table + 8) (tileX column (c / 8)) row

/-- The position is on the tile to be fetched next, the one of the dot after `c`. -/
structure Points (c : Nat) (v : Scroll) : Prop where
  column_eq : v.column = (column + (c + 1) / 8) % 64
  row_eq : v.row = row
  coarseY_le : v.coarseY ≤ 29

variable {m table column row} {c : Nat} {b : Background} {v : Scroll}

theorem Shown.next (hs : Shown m table column row c b) (hl : Latched m table column row c b)
    (data : UInt8) :
    Shown m table column row (c + 1) (b.gather true v ((c + 1) % 8) data) := by
  obtain ⟨tile, attr, lo, hi, hb⟩ := b.gather_shifters v ((c + 1) % 8) data
  rw [hb]
  split_ifs with hc
  · have h7 : c % 8 = 7 := by omega
    refine ⟨?_, ?_, ?_, ?_⟩
    · change Shows (Background.fill (b.patternLo <<< 1) b.lo) _ _
      rw [hl.lo (by omega)]
      exact hs.patternLo.load hc
    · change Shows (Background.fill (b.patternHi <<< 1) b.hi) _ _
      rw [hl.hi (by omega)]
      exact hs.patternHi.load hc
    · change Shows (Background.fill (b.attrLo <<< 1) (spread b.attr 1)) _ _
      rw [hl.attr (by omega)]
      exact hs.attrLo.load hc
    · change Shows (Background.fill (b.attrHi <<< 1) (spread b.attr 2)) _ _
      rw [hl.attr (by omega)]
      exact hs.attrHi.load hc
  · exact ⟨hs.patternLo.shift hc, hs.patternHi.shift hc, hs.attrLo.shift hc, hs.attrHi.shift hc⟩

abbrev Background.reply (m : Nat → UInt8) (table c : Nat) (b : Background) (v : Scroll) :
    UInt8 :=
  (b.address? table v (c % 8)).elim 0 m

theorem Points.tileX_eq (h : Points column row c v) :
    tileX column ((c + 1) / 8) = 8 * v.column := by
  rw [tileX, h.column_eq]

theorem Latched.next (hl : Latched m table column row c b) (hv : Points column row c v) :
    Latched m table column row (c + 1)
      (b.gather true v ((c + 1) % 8) (Background.reply m table (c + 1) b v)) := by
  have hx := hv.tileX_eq
  -- But for phase 0 the latches are still for the tile that the position is on.
  have hsame : (c + 1) % 8 ≠ 0 → tileX column (c / 8) = 8 * v.column := by
    intro hc
    have hcount : c / 8 = (c + 1) / 8 := by omega
    rw [hcount, hx]
  have htile : (c + 1) % 8 ≠ 0 → b.tile = TileMap.tile m (8 * v.column) v.row := by
    intro hc
    rw [hl.tile, hv.row_eq, hsame hc]
  constructor
  · rw [Background.gather_tile, hx]
    split_ifs with h0
    · rw [Background.reply, h0, ← hv.row_eq]
      exact TileMap.tile_scroll m v hv.coarseY_le
    · rw [htile h0, hv.row_eq]
  · intro h2
    rw [Background.gather_attr, hx]
    split_ifs with hc
    · rw [Background.reply, hc, ← hv.row_eq]
      exact TileMap.palette_scroll m v hv.coarseY_le
    · rw [hl.attr (by omega), hsame (by omega)]
  · intro h4
    rw [Background.gather_lo, hx]
    split_ifs with hc
    · rw [Background.reply, hc, ← hv.row_eq]
      exact TileMap.row_scroll m v b.tile table (htile (by omega))
    · rw [hl.lo (by omega), hsame (by omega)]
  · intro h6
    rw [Background.gather_hi, hx]
    split_ifs with hc
    · rw [Background.reply, hc, ← hv.row_eq,
        ← TileMap.row_scroll m v b.tile (table + 8) (htile (by omega))]
      change m (table + b.tile.toNat * 16 + v.fineY + 8) = _
      congr 1
      omega
    · rw [hl.hi (by omega), hsame (by omega)]

theorem Points.next (hv : Points column row c v) :
    Points column row (c + 1) (if (c + 1) % 8 = 7 then v.stepX else v) := by
  obtain ⟨hc, hr, hy⟩ := hv
  split_ifs with h7
  · refine ⟨?_, ?_, ?_⟩
    · rw [v.column_stepX, hc]
      omega
    · rw [v.row_stepX, hr]
    · rw [v.coarseY_stepX]
      exact hy
  · refine ⟨?_, hr, hy⟩
    rw [hc]
    omega

variable (m table column row) in
structure Fetching (c : Nat) (b : Background) (v : Scroll) : Prop where
  shown : Shown m table column row c b
  latched : Latched m table column row c b
  points : Points column row c v

theorem Fetching.next (h : Fetching m table column row c b v) :
    Fetching m table column row (c + 1)
      (b.gather true v ((c + 1) % 8) (Background.reply m table (c + 1) b v))
      (if (c + 1) % 8 = 7 then v.stepX else v) where
  shown := h.shown.next h.latched _
  latched := h.latched.next h.points
  points := h.points.next

/-- The first tile of a line; what the shifters hold before it is never shown. -/
theorem Fetching.first (hv : Points column row 0 v) :
    Fetching m table column row 0 (b.gather true v 0 (Background.reply m table 0 b v)) v where
  shown := ⟨shows_zero _ _, shows_zero _ _, shows_zero _ _, shows_zero _ _⟩
  latched := by
    refine ⟨?_, fun h => ?_, fun h => ?_, fun h => ?_⟩
    · rw [Background.gather_tile, ← hv.row_eq]
      change m v.tileAddress = TileMap.tile m (tileX column ((0 + 1) / 8)) v.row
      rw [hv.tileX_eq]
      exact TileMap.tile_scroll m v hv.coarseY_le
    all_goals omega
  points := hv

/-- Between two lines the third tile is fetched again, to the same end. -/
theorem Fetching.again (h : Fetching m table column row 16 b v) :
    Fetching m table column row 16 { b with tile := m v.tileAddress } v where
  shown := ⟨h.shown.patternLo, h.shown.patternHi, h.shown.attrLo, h.shown.attrHi⟩
  latched := by
    refine ⟨?_, fun h => ?_, fun h => ?_, fun h => ?_⟩
    · change m v.tileAddress = TileMap.tile m (tileX column ((16 + 1) / 8)) row
      rw [h.points.tileX_eq, ← h.points.row_eq]
      exact TileMap.tile_scroll m v h.points.coarseY_le
    all_goals omega
  points := h.points

/-! What is seen. -/

theorem bit_spread (palette mask : UInt8) {i : Nat} (hi : i < 8) :
    TileMap.bit (spread palette mask) i = if palette &&& mask = 0 then 0 else 1 := by
  have h : ∀ i < 8, TileMap.bit 0xFF i = 1 := by decide
  unfold spread
  split_ifs
  · simp [TileMap.bit]
  · exact h i hi

theorem bit_spread_pair (data : UInt8) {i : Nat} (hi : i < 8) :
    TileMap.bit (spread (data &&& 3) 2) i <<< 1 ||| TileMap.bit (spread (data &&& 3) 1) i =
      data &&& 3 := by
  have h : ∀ n < 256, (if UInt8.ofNat n &&& 3 &&& 2 = 0 then (0 : UInt8) else 1) <<< 1 |||
      (if UInt8.ofNat n &&& 3 &&& 1 = 0 then (0 : UInt8) else 1) = UInt8.ofNat n &&& 3 := by
    decide +kernel
  rw [bit_spread _ _ hi, bit_spread _ _ hi]
  simpa using h data.toNat data.toNat_lt

/-- The pixel of a line that shows `x` from the top of the shifters. -/
def pixelX (column c x : Nat) : Nat := (8 * column + (c + x - 16)) % 512

theorem tileX_pixelX (column c x : Nat) :
    tileX column ((c + x - 16) / 8) / 8 = pixelX column c x / 8 := by
  rw [tileX, pixelX]
  omega

theorem Shown.colour_eq (h : Shown m table column row c b) {x : UInt8} (hx : x.toNat < 8)
    (hc : 16 ≤ c) :
    b.colour x = TileMap.colour m table (pixelX column c x.toNat) row := by
  have hb : (c + x.toNat - 16) % 8 = pixelX column c x.toNat % 8 := by
    rw [pixelX]
    omega
  rw [Background.colour, h.patternHi.tap hx hc, h.patternLo.tap hx hc, TileMap.bit_pair, hb,
    TileMap.row_column m _ row (tileX_pixelX column c x.toNat),
    TileMap.row_column m _ row (tileX_pixelX column c x.toNat), TileMap.colour]

theorem Shown.palette_eq (h : Shown m table column row c b) {x : UInt8} (hx : x.toNat < 8)
    (hc : 16 ≤ c) :
    b.palette x = TileMap.palette m (pixelX column c x.toNat) row := by
  rw [Background.palette, h.attrHi.tap hx hc, h.attrLo.tap hx hc,
    TileMap.palette_column m row (tileX_pixelX column c x.toNat), TileMap.palette]
  exact bit_spread_pair _ (Nat.mod_lt _ (by decide))

end Famicom.Ppu
