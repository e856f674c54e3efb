import Famicom.Proofs.Cartridge.LineCounter
import Famicom.Proofs.Ppu.StrictDot

/-! Line 12 of the picture bus over a line. It is up in the dots that fetch from the upper pattern
table and down in the others that fetch, so of all that is in memory it shows nothing. -/
namespace Famicom.Ppu

open Cartridge

/-- Tiles are fetched, sprites are one tile high, and the pattern tables are these. -/
structure Arranged (p : Ppu) (background sprites : Nat) : Prop where
  rendering_eq : p.rendering = true
  tallSprites_eq : p.tallSprites = false
  backgroundTable_eq : p.backgroundTable = background
  spriteTable_eq : p.spriteTable = sprites

theorem Arranged.settled {p q : Ppu} {background sprites : Nat} (h : p.Arranged background sprites)
    (hq : Settled p q) : q.Arranged background sprites where
  rendering_eq := hq.rendering_eq.trans h.rendering_eq
  tallSprites_eq := by
    rw [tallSprites, hq.ctrl_eq]
    exact h.tallSprites_eq
  backgroundTable_eq := hq.backgroundTable_eq.trans h.backgroundTable_eq
  spriteTable_eq := by
    rw [spriteTable, hq.ctrl_eq]
    exact h.spriteTable_eq

/-- Line 12 in dot `d` of a line on which tiles are fetched, by how it is in either table. -/
def level (background sprites : Bool) (d : Nat) : Option Bool :=
  if gathers d then
    match (d - 1) % 8 with
    | 0 | 2 => some false
    | 4 | 6 => some background
    | _ => none
  else if 257 ≤ d && d ≤ 320 then
    match (d - 257) % 8 with
    | 4 | 6 => some sprites
    | _ => none
  else if d = 338 || d = 340 then some false
  else none

section Level
variable (background sprites : Bool) {d : Nat}

theorem level_of_gathers (h : 2 ≤ d ∧ d ≤ 257 ∨ 321 ≤ d ∧ d ≤ 337) : level background sprites d =
    if d % 8 = 1 ∨ d % 8 = 3 then some false
    else if d % 8 = 5 ∨ d % 8 = 7 then some background
    else none := by
  rw [level, if_pos (gathers_of d h)]
  have hr : (d - 1) % 8 < 8 := Nat.mod_lt _ (by decide)
  have hphase : d % 8 = ((d - 1) % 8 + 1) % 8 := by omega
  rw [hphase]
  generalize (d - 1) % 8 = r at hr
  interval_cases r <;> rfl

theorem level_of_sprites (h : 258 ≤ d ∧ d ≤ 320) : level background sprites d =
    if d % 8 = 5 ∨ d % 8 = 7 then some sprites else none := by
  have hd : (257 ≤ d && d ≤ 320) = true := by
    rw [Bool.and_eq_true, decide_eq_true_eq, decide_eq_true_eq]
    omega
  rw [level, not_gathers_of d (by omega), if_neg Bool.false_ne_true, if_pos hd]
  have hr : (d - 257) % 8 < 8 := Nat.mod_lt _ (by decide)
  have hphase : d % 8 = ((d - 257) % 8 + 1) % 8 := by omega
  rw [hphase]
  generalize (d - 257) % 8 = r at hr
  interval_cases r <;> rfl

/-- The last two fetches of a line are of a number that is fetched again. -/
theorem level_of_rest (h : d ≤ 1 ∨ 338 ≤ d) : level background sprites d =
    if d = 338 ∨ d = 340 then some false else none := by
  have hd : ¬(257 ≤ d && d ≤ 320) = true := by
    rw [Bool.and_eq_true, decide_eq_true_eq, decide_eq_true_eq]
    omega
  rw [level, not_gathers_of d (by omega), if_neg Bool.false_ne_true, if_neg hd]
  simp only [Bool.or_eq_true, decide_eq_true_eq]

theorem dot_cases (d : Nat) : (2 ≤ d ∧ d ≤ 257 ∨ 321 ≤ d ∧ d ≤ 337) ∨ (258 ≤ d ∧ d ≤ 320) ∨
    (d ≤ 1 ∨ 338 ≤ d) := by
  omega

end Level

/-! An address within a table is in the same half as the table. -/

theorem line12_nametable {a : Nat} (h : 0x2000 ≤ a) (h' : a < 0x3000) :
    line12 (a % 0x4000) = false := by
  rw [line12, decide_eq_false_iff_not]
  omega

theorem line12_tileAddress (s : Scroll) : line12 (s.tileAddress % 0x4000) = false :=
  line12_nametable (by unfold Scroll.tileAddress; omega) s.tileAddress_lt

theorem line12_attributeAddress (s : Scroll) : line12 (s.attributeAddress % 0x4000) = false :=
  line12_nametable (by unfold Scroll.attributeAddress; omega) s.attributeAddress_lt

theorem line12_table {table : Nat} (h : table = 0 ∨ table = 0x1000) {n : Nat} (hn : n < 0x1000) :
    line12 ((table + n) % 0x4000) = line12 table := by
  unfold line12
  rw [decide_eq_decide]
  omega

theorem backgroundTable_cases (p : Ppu) : p.backgroundTable = 0 ∨ p.backgroundTable = 0x1000 := by
  unfold backgroundTable
  split_ifs
  · exact .inr rfl
  · exact .inl rfl

theorem spriteTable_cases (p : Ppu) : p.spriteTable = 0 ∨ p.spriteTable = 0x1000 := by
  unfold spriteTable
  split_ifs
  · exact .inr rfl
  · exact .inl rfl

theorem line12_background (p : Ppu) {n : Nat} (hn : n ≤ 8) :
    line12 ((p.background.patternAddress p.backgroundTable p.v.fineY + n) % 0x4000) =
      line12 p.backgroundTable := by
  have htile := p.background.tile.toNat_lt
  have hy := p.v.fineY_lt
  rw [Background.patternAddress, Nat.add_assoc, Nat.add_assoc]
  exact line12_table p.backgroundTable_cases (by omega)

theorem line12_sprite (p : Ppu) (slot : Nat) {n : Nat} (hn : n ≤ 8) :
    line12 ((p.sprites.patternAddress false p.spriteTable p.scanline slot + n) % 0x4000) =
      line12 p.spriteTable := by
  have htile := p.sprites.tile.toNat_lt
  unfold SpriteUnit.patternAddress
  simp only [Bool.false_eq_true, if_false]
  rw [Nat.add_assoc, Nat.add_assoc]
  exact line12_table p.spriteTable_cases (by split_ifs <;> omega)

/-- Line 12 in the next dot; on the other lines nothing is fetched. -/
def lineLevel (p : Ppu) (background sprites : Bool) : Option Bool :=
  if p.onRenderLine then level background sprites p.dot else none

theorem Arranged.level_eq {p : Ppu} {background sprites : Nat} (h : p.Arranged background sprites) :
    (p.fetch?.map fun a => line12 (a % 0x4000)) =
      p.lineLevel (line12 background) (line12 sprites) := by
  have hlow := p.line12_background (Nat.zero_le 8)
  have hhigh := p.line12_background (Nat.le_refl 8)
  have hslow := p.line12_sprite (slotOf p.dot) (Nat.zero_le 8)
  have hshigh := p.line12_sprite (slotOf p.dot) (Nat.le_refl 8)
  have htile := line12_tileAddress p.v
  have hattr := line12_attributeAddress p.v
  rw [h.backgroundTable_eq] at hlow hhigh
  rw [h.spriteTable_eq] at hslow hshigh
  have hr : (p.dot - 1) % 8 < 8 := Nat.mod_lt _ (by decide)
  have hs : (p.dot - 257) % 8 < 8 := Nat.mod_lt _ (by decide)
  unfold fetch? lineLevel level
  rw [h.rendering_eq, h.tallSprites_eq, h.backgroundTable_eq, h.spriteTable_eq, Bool.true_and]
  dsimp only
  cases p.onRenderLine
  · rfl
  simp only [Bool.not_true, Bool.false_eq_true, if_false, if_true]
  split_ifs with hg hd hlast
  · generalize (p.dot - 1) % 8 = r at hr
    interval_cases r
    · exact congrArg some htile
    · rfl
    · exact congrArg some hattr
    · rfl
    · exact congrArg some hlow
    · rfl
    · exact congrArg some hhigh
    · rfl
  · generalize (p.dot - 257) % 8 = r at hs
    interval_cases r
    · rfl
    · rfl
    · rfl
    · rfl
    · exact congrArg some hslow
    · rfl
    · exact congrArg some hshigh
    · rfl
  · exact congrArg some htile
  · rfl

end Famicom.Ppu
