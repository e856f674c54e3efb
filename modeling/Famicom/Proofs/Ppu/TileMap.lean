import Famicom.Ppu
import Famicom.Proofs.Scroll

/-! The background as a map of 512 × 480 pixels in picture memory, which is what a scroll position
points into: four nametables of 32 × 30 tiles. -/
namespace Famicom.Ppu.TileMap
variable (m : Nat → UInt8)

/-- Where the nametable of a pixel begins: there are two by two of them, 256 × 240 pixels each. -/
def nametable (x y : Nat) : Nat := 0x2000 + (x / 256 + y / 240 * 2) * 0x400

def tile (x y : Nat) : UInt8 := m (nametable x y + y % 240 / 8 * 32 + x % 256 / 8)

/-- An attribute byte is for 32 × 32 pixels, two bits of it for each quadrant. -/
def palette (x y : Nat) : UInt8 :=
  let quadrant := y % 240 / 16 % 2 * 2 + x % 256 / 16 % 2
  m (nametable x y + 0x3C0 + y % 240 / 32 * 8 + x % 256 / 32) >>> UInt8.ofNat (quadrant * 2) &&& 3

/-- A row of a tile, in the plane that begins at `table`. -/
def row (table x y : Nat) : UInt8 := m (table + (tile m x y).toNat * 16 + y % 8)

def bit (v : UInt8) (x : Nat) : UInt8 := if v.toNat.testBit (7 - x) then 1 else 0

theorem bit_pair (v w : UInt8) (i : Nat) :
    bit v i <<< 1 ||| bit w i = bit v i * 2 + bit w i := by
  unfold bit
  split_ifs <;> rfl

def colour (table x y : Nat) : UInt8 :=
  bit (row m (table + 8) x y) (x % 8) * 2 + bit (row m table x y) (x % 8)

/-! All but the colour is the same over the width of a tile. -/

theorem tile_column {x x' : Nat} (y : Nat) (h : x / 8 = x' / 8) : tile m x y = tile m x' y := by
  have ht : x / 256 = x' / 256 := by omega
  have hx : x % 256 / 8 = x' % 256 / 8 := by omega
  rw [tile, tile, nametable, nametable, ht, hx]

theorem row_column {x x' : Nat} (table y : Nat) (h : x / 8 = x' / 8) :
    row m table x y = row m table x' y := by
  rw [row, row, tile_column m y h]

theorem palette_column {x x' : Nat} (y : Nat) (h : x / 8 = x' / 8) :
    palette m x y = palette m x' y := by
  have ht : x / 256 = x' / 256 := by omega
  have h16 : x % 256 / 16 = x' % 256 / 16 := by omega
  have h32 : x % 256 / 32 = x' % 256 / 32 := by omega
  simp only [palette, nametable, ht, h16, h32]

/-! What is fetched at a scroll position. -/

theorem tile_scroll (v : Scroll) (h : v.coarseY ≤ 29) :
    m v.tileAddress = tile m (8 * v.column) v.row := by
  have ht : 8 * v.column / 256 = v.column / 32 := by omega
  have hx : 8 * v.column % 256 / 8 = v.column % 32 := by omega
  rw [v.tileAddress_eq h, tile, nametable, ht, hx, Scroll.nametable]

theorem row_scroll (v : Scroll) (tile : UInt8) (table : Nat)
    (h : tile = TileMap.tile m (8 * v.column) v.row) :
    m (table + tile.toNat * 16 + v.fineY) = row m table (8 * v.column) v.row := by
  rw [row, h, v.fineY_eq]

theorem attributeBits_eq (v : Scroll) (data : UInt8) : v.attributeBits data =
    data >>> UInt8.ofNat ((v.coarseY / 2 % 2 * 2 + v.coarseX / 2 % 2) * 2) &&& 3 := by
  unfold Scroll.attributeBits
  obtain hy | hy := Nat.mod_two_eq_zero_or_one (v.coarseY / 2) <;>
    obtain hx | hx := Nat.mod_two_eq_zero_or_one (v.coarseX / 2) <;>
      simp only [hy, hx]
  · simp
  · simp
  · simp
  · apply UInt8.eq_of_toBitVec_eq
    ext i hi
    simp

theorem palette_scroll (v : Scroll) (h : v.coarseY ≤ 29) :
    v.attributeBits (m v.attributeAddress) = palette m (8 * v.column) v.row := by
  have hf := v.fineY_lt
  have ht : 8 * v.column / 256 = v.column / 32 := by omega
  have hx : 8 * v.column % 256 / 32 = v.column % 32 / 4 := by omega
  have hqx : 8 * v.column % 256 / 16 % 2 = v.coarseX / 2 % 2 := by
    rw [← v.column_mod]
    omega
  have hqy : v.row % 240 / 16 % 2 = v.coarseY / 2 % 2 := by
    rw [v.row_mod h]
    omega
  have ha : v.attributeAddress = nametable (8 * v.column) v.row + 0x3C0 + v.row % 240 / 32 * 8 +
      8 * v.column % 256 / 32 := by
    rw [v.attributeAddress_eq h, nametable, ht, hx, Scroll.nametable]
    omega
  simp only [palette]
  rw [attributeBits_eq, hqx, hqy, ← ha]

end Famicom.Ppu.TileMap
