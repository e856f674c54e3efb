import Famicom.Byte
import Famicom.Ram

/-! Sprites: eight of them are chosen on each line, fetched, and shown on the next. -/
namespace Famicom.Ppu

structure Sprite where
  lo : UInt8 := 0
  hi : UInt8 := 0
  attr : UInt8 := 0
  /-- Dots left before it is shifted out. -/
  wait : Nat := 0
  /-- It is the first entry of sprite memory. -/
  first : Bool := false
deriving DecidableEq

namespace Sprite

@[inline] def colour (s : Sprite) : UInt8 := (s.hi >>> 7) <<< 1 ||| s.lo >>> 7

@[inline] def palette (s : Sprite) : UInt8 := s.attr &&& 3

@[inline] def behind (s : Sprite) : Bool := Byte.has s.attr 0x20

@[inline] def solid (s : Sprite) : Bool := s.wait == 0 && s.colour != 0

def advance (s : Sprite) : Sprite :=
  if s.wait ≠ 0 then { s with wait := s.wait - 1 }
  else { s with lo := s.lo <<< 1, hi := s.hi <<< 1 }

end Sprite

/-- Choice of sprites for a line, and the slots they are shown from. -/
structure SpriteUnit where
  /-- The entries chosen, four bytes each: row, tile, attributes, column. -/
  chosen : Ram 32 := Vector.replicate 32 0xFF
  /-- The entry to be looked at next. -/
  index : Nat := 0
  count : Nat := 0
  firstChosen : Bool := false
  /-- The entry being fetched, from its row on. -/
  row : UInt8 := 0xFF
  tile : UInt8 := 0xFF
  attr : UInt8 := 0xFF
  column : UInt8 := 0xFF
  slots : Vector Sprite 8 := Vector.replicate 8 {}
  /-- How many slots are shown. -/
  shown : Nat := 0
deriving DecidableEq

namespace SpriteUnit

def begin (u : SpriteUnit) : SpriteUnit := { u with index := 0, count := 0, firstChosen := false }

def clear (u : SpriteUnit) (i : Nat) : SpriteUnit := { u with chosen := Ram.write u.chosen i 0xFF }

/-- Whether a sprite whose top is `row` reaches the line below `line`. -/
@[inline] def covers (row : UInt8) (line height : Nat) : Bool :=
  row.toNat ≤ line && line - row.toNat < height

def choose (u : SpriteUnit) (oam : Ram 256) : SpriteUnit :=
  let source := u.index * 4
  let target := u.count * 4
  let chosen := Ram.write u.chosen target (Ram.read oam source)
  let chosen := Ram.write chosen (target + 1) (Ram.read oam (source + 1))
  let chosen := Ram.write chosen (target + 2) (Ram.read oam (source + 2))
  let chosen := Ram.write chosen (target + 3) (Ram.read oam (source + 3))
  { u with chosen, count := u.count + 1, firstChosen := u.firstChosen || u.index == 0 }

/-- The entry to be looked at is on the next line, but eight are chosen already. -/
@[inline] def overflows (u : SpriteUnit) (oam : Ram 256) (line height : Nat) : Bool :=
  u.index < 64 && 8 ≤ u.count && covers (Ram.read oam (u.index * 4)) line height

def evaluate (u : SpriteUnit) (oam : Ram 256) (line height : Nat) : SpriteUnit :=
  if u.index < 64 then
    let next := u.index + 1
    let u :=
      if u.count < 8 && covers (Ram.read oam (u.index * 4)) line height then u.choose oam else u
    { u with index := next }
  else u

/-- Takes up the entry for a slot; the first is also where the count is settled. -/
def take (u : SpriteUnit) (slot : Nat) : SpriteUnit :=
  { u with
    row := Ram.read u.chosen (slot * 4)
    tile := Ram.read u.chosen (slot * 4 + 1)
    attr := Ram.read u.chosen (slot * 4 + 2)
    column := Ram.read u.chosen (slot * 4 + 3)
    shown := if slot = 0 then u.count else u.shown }

/-- Where the low plane of the entry being fetched is stored; the high plane follows at 8. A slot
without an entry fetches the top row of the last tile. Tall sprites take the pattern table from
their tile number. -/
def patternAddress (u : SpriteUnit) (tall : Bool) (table line slot : Nat) : Nat :=
  let filled := slot < u.count
  let flip := filled && Byte.has u.attr 0x80
  let row := if filled then (line + 256 - u.row.toNat) % 16 else 0
  let tile := u.tile.toNat
  if tall then
    let row := if flip then 15 - row else row
    tile % 2 * 0x1000 + (tile / 2 * 2 + row / 8) * 16 + row % 8
  else
    let row := if flip then 7 - row % 8 else row % 8
    table + tile * 16 + row

/-- A slot without an entry stays transparent; sprites are turned left to right as they load. -/
def plane (u : SpriteUnit) (slot : Nat) (data : UInt8) : UInt8 :=
  if u.count ≤ slot then 0 else if Byte.has u.attr 0x40 then Byte.reverse data else data

theorem slot_lt (slot : Nat) : slot % 8 < 8 := Nat.mod_lt _ (by decide)

@[inline] def modifySlot (u : SpriteUnit) (slot : Nat) (f : Sprite → Sprite) : SpriteUnit :=
  have := slot_lt slot
  { u with slots := u.slots.set (slot % 8) (f u.slots[slot % 8]) }

def loadLo (u : SpriteUnit) (slot : Nat) (data : UInt8) : SpriteUnit :=
  u.modifySlot slot fun s => { s with lo := u.plane slot data }

def loadHi (u : SpriteUnit) (slot : Nat) (data : UInt8) : SpriteUnit :=
  u.modifySlot slot fun s => { s with hi := u.plane slot data }

def place (u : SpriteUnit) (slot : Nat) : SpriteUnit :=
  u.modifySlot slot fun s => { s with
    attr := u.attr
    wait := u.column.toNat
    first := slot == 0 && u.firstChosen }

def firstSolid (slots : Vector Sprite 8) (i : Nat) : (n : Nat) → Option Sprite
  | 0 => none
  | n + 1 =>
    if h : i < 8 then
      if slots[i].solid then some slots[i] else firstSolid slots (i + 1) n
    else none

@[inline] def winner (u : SpriteUnit) : Option Sprite := firstSolid u.slots 0 u.shown

def advanceFirst (slots : Vector Sprite 8) : (n : Nat) → Vector Sprite 8
  | 0 => slots
  | n + 1 =>
    if h : n < 8 then advanceFirst (slots.set n slots[n].advance) n else advanceFirst slots n

@[inline] def advance (u : SpriteUnit) : SpriteUnit :=
  { u with slots := advanceFirst u.slots u.shown }

end SpriteUnit
end Famicom.Ppu
