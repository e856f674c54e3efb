import Famicom.Proofs.Ppu.TileMap

/-! The sprites of a line, as sprite memory lists them: 64 entries of four bytes, the row above the
sprite, its tile, its attributes and its leftmost column. Earlier entries are in front, and beyond
the first eight on a line there are none. -/
namespace Famicom.Ppu

structure SpritePixel where
  colour : UInt8
  palette : UInt8
  behind : Bool
  /-- It is one of entry 0. -/
  first : Bool
deriving DecidableEq

/-- Everything that decides how sprites look. -/
structure Lineup where
  oam : Ram 256
  tall : Bool
  /-- Where the patterns of small sprites begin. -/
  table : Nat
  memory : Nat → UInt8

namespace Lineup
variable (l : Lineup)

def height : Nat := if l.tall then 16 else 8

/-! An entry. -/

def top (i : Nat) : Nat := (Ram.read l.oam (i * 4)).toNat

def tile (i : Nat) : Nat := (Ram.read l.oam (i * 4 + 1)).toNat

def attr (i : Nat) : UInt8 := Ram.read l.oam (i * 4 + 2)

def left (i : Nat) : Nat := (Ram.read l.oam (i * 4 + 3)).toNat

def onLine (y i : Nat) : Bool := l.top i < y && y - 1 - l.top i < l.height

def row (y i : Nat) : Nat :=
  let row := y - 1 - l.top i
  if Byte.has (l.attr i) 0x80 then l.height - 1 - row else row

/-- Where the low plane of a sprite's row is; the high plane follows at 8. A tall sprite is two
tiles, and the first bit of its number is that of the table. -/
def address (y i : Nat) : Nat :=
  if l.tall then
    l.tile i % 2 * 0x1000 + (l.tile i / 2 * 2 + l.row y i / 8) * 16 + l.row y i % 8
  else l.table + l.tile i * 16 + l.row y i

/-- The column of the tile that is `x` from the left of the sprite. -/
def column (x i : Nat) : Nat := if Byte.has (l.attr i) 0x40 then 7 - x else x

def colour (x y i : Nat) : UInt8 :=
  TileMap.bit (l.memory (l.address y i + 8)) (l.column (x - l.left i) i) * 2 +
    TileMap.bit (l.memory (l.address y i)) (l.column (x - l.left i) i)

/-- What an entry shows at a place; its transparent pixels do not count. -/
def pixel? (x y i : Nat) : Option SpritePixel :=
  if l.left i ≤ x ∧ x - l.left i < 8 ∧ l.colour x y i ≠ 0 then
    some {
      colour := l.colour x y i
      palette := l.attr i &&& 3
      behind := Byte.has (l.attr i) 0x20
      first := i == 0 }
  else none

/-! A line. -/

/-- The first eight on a line, of the first `n` entries. -/
def among (y n : Nat) : List Nat := ((List.range n).filter (l.onLine y)).take 8

def front? (x y : Nat) : Option SpritePixel := (l.among y 64).findSome? (l.pixel? x y)

theorem among_first (n : Nat) : l.among 0 n = [] := by
  have h : (List.range n).filter (l.onLine 0) = [] := by
    rw [List.filter_eq_nil_iff]
    intro i _
    simp [onLine]
  rw [among, h, List.take_nil]

theorem among_zero (y : Nat) : l.among y 0 = [] := rfl

theorem length_among_le (y n : Nat) : (l.among y n).length ≤ 8 := List.length_take_le _ _

theorem among_succ (y n : Nat) : l.among y (n + 1) =
    if (l.among y n).length < 8 ∧ l.onLine y n then l.among y n ++ [n] else l.among y n := by
  rw [among, List.range_succ, List.filter_append, List.take_append, ← among]
  by_cases hline : l.onLine y n
  · rw [List.filter_cons_of_pos hline, List.filter_nil]
    have hlen : (l.among y n).length = min 8 ((List.range n).filter (l.onLine y)).length :=
      List.length_take
    by_cases hroom : (l.among y n).length < 8
    · rw [if_pos ⟨hroom, hline⟩, List.take_of_length_le]
      simp
      omega
    · have hfull : 8 - ((List.range n).filter (l.onLine y)).length = 0 := by omega
      rw [if_neg (fun h => hroom h.1), hfull, List.take_zero, List.append_nil]
  · rw [List.filter_cons_of_neg hline, List.filter_nil, List.take_nil, List.append_nil, if_neg]
    exact fun h => hline h.2

/-- How many of the first `n` entries are on a line. -/
def crowd (y n : Nat) : Nat := (List.range n).countP (l.onLine y)

theorem crowd_succ (y n : Nat) :
    l.crowd y (n + 1) = l.crowd y n + if l.onLine y n then 1 else 0 := by
  rw [crowd, List.range_succ, List.countP_append, List.countP_singleton]
  rfl

theorem crowd_eq (y n : Nat) : l.crowd (y + 1) n =
    (List.range n).countP fun i => l.top i ≤ y && y - l.top i < l.height := by
  rw [crowd]
  congr 1
  funext i
  rw [onLine, Nat.add_sub_cancel, decide_eq_decide.mpr Nat.lt_add_one_iff]

theorem length_among (y n : Nat) : (l.among y n).length = min 8 (l.crowd y n) := by
  rw [among, List.length_take, crowd, List.countP_eq_length_filter]

theorem onLine_of_mem {y n i : Nat} (h : i ∈ l.among y n) : l.onLine y i :=
  (List.mem_filter.mp (List.mem_of_mem_take h)).2

theorem among_pairwise (y n : Nat) : (l.among y n).Pairwise (· < ·) :=
  (List.pairwise_lt_range.filter _).sublist (List.take_sublist _ _)

end Lineup
end Famicom.Ppu
