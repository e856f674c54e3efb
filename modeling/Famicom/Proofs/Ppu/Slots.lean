import Famicom.Proofs.Ppu.Dot
import Famicom.Proofs.Ppu.Lineup
import Mathlib.Logic.Function.Iterate

/-! From sprite memory to a line, in three phases: entries are chosen, their patterns are fetched
into slots, and the slots are shifted out on the next line. Each phase is told by how many of its
dots have passed, and compares with the lineup of that line. -/
namespace Famicom.Ppu

/-! Shifting out. -/

def shl (v : UInt8) : UInt8 := v <<< 1

theorem testBit_shl (v : UInt8) {i : Nat} (hi : i < 8) :
    (shl v).toNat.testBit i = (decide (1 ≤ i) && v.toNat.testBit (i - 1)) := by
  have hone : (1 : UInt8).toNat % 8 = 1 := rfl
  rw [shl, UInt8.toNat_shiftLeft, hone, Nat.testBit_mod_two_pow, Nat.testBit_shiftLeft]
  simp [hi]

theorem testBit_iterate_shl (v : UInt8) (n : Nat) {i : Nat} (hi : i < 8) :
    (shl^[n] v).toNat.testBit i = (decide (n ≤ i) && v.toNat.testBit (i - n)) := by
  induction n generalizing v with
  | zero => simp
  | succ n ih =>
    rw [Function.iterate_succ_apply, ih]
    by_cases hn : n ≤ i
    · rw [testBit_shl v (by omega), Nat.sub_sub, ← Bool.and_assoc, ← Bool.decide_and]
      congr 2
      simp only [eq_iff_iff]
      omega
    · have hn' : ¬n + 1 ≤ i := by omega
      simp [hn, hn']

theorem shr_seven (v : UInt8) : v >>> 7 = if v.toNat.testBit 7 then 1 else 0 := by
  have h : ∀ n < 256, UInt8.ofNat n >>> 7 =
      if (UInt8.ofNat n).toNat.testBit 7 then 1 else 0 := by decide +kernel
  simpa using h v.toNat v.toNat_lt

theorem iterate_shl_shr (v : UInt8) (n : Nat) :
    (shl^[n] v) >>> 7 = if n < 8 then TileMap.bit v n else 0 := by
  rw [shr_seven, testBit_iterate_shl v n (by decide)]
  by_cases hn : n < 8
  · simp [TileMap.bit, hn, Nat.le_of_lt_succ hn]
  · have h7 : ¬n ≤ 7 := by omega
    simp [hn, h7]

theorem bit_reverse (v : UInt8) {i : Nat} (hi : i < 8) :
    TileMap.bit (Byte.reverse v) i = TileMap.bit v (7 - i) := by
  have h : ∀ n < 256, ∀ i < 8,
      TileMap.bit (Byte.reverse (UInt8.ofNat n)) i = TileMap.bit (UInt8.ofNat n) (7 - i) := by
    decide +kernel
  simpa using h v.toNat v.toNat_lt i hi

namespace Sprite

theorem iterate_advance (s : Sprite) (n : Nat) : Sprite.advance^[n] s = { s with
    wait := s.wait - n
    lo := shl^[n - s.wait] s.lo
    hi := shl^[n - s.wait] s.hi } := by
  induction n with
  | zero => simp
  | succ n ih =>
    rw [Function.iterate_succ_apply', ih, Sprite.advance]
    by_cases h : s.wait - n ≠ 0
    · have hnow : n - s.wait = 0 := by omega
      have hnext : n + 1 - s.wait = 0 := by omega
      rw [if_pos h, hnow, hnext, Nat.sub_sub]
    · have hwait : s.wait - n = s.wait - (n + 1) := by omega
      have hout : n + 1 - s.wait = n - s.wait + 1 := by omega
      rw [if_neg h, hout, Function.iterate_succ_apply', Function.iterate_succ_apply', hwait]
      rfl

def pixel (s : Sprite) : SpritePixel where
  colour := s.colour
  palette := s.palette
  behind := s.behind
  first := s.first

end Sprite

namespace SpriteUnit

/-! Slots. -/

def slot (u : SpriteUnit) (i : Nat) : Sprite :=
  have := slot_lt i
  u.slots[i % 8]

theorem slot_modifySlot (u : SpriteUnit) (i j : Nat) (f : Sprite → Sprite) :
    (u.modifySlot i f).slot j = if i % 8 = j % 8 then f (u.slot j) else u.slot j := by
  simp only [slot, modifySlot, Vector.getElem_set]
  split_ifs with h
  · simp only [h]
  · rfl

theorem getElem_advanceFirst (slots : Vector Sprite 8) (n i : Nat) (hi : i < 8) :
    (advanceFirst slots n)[i] = if i < n then slots[i].advance else slots[i] := by
  induction n generalizing slots with
  | zero => simp [advanceFirst]
  | succ n ih =>
    unfold advanceFirst
    by_cases hn : n < 8
    · simp only [hn, dif_pos, ih, Vector.getElem_set]
      by_cases hin : n = i
      · subst hin
        simp
      · rw [if_neg hin]
        have hlt : i < n + 1 ↔ i < n := by omega
        simp only [hlt]
    · simp only [hn, dif_neg, not_false_eq_true, ih]
      rw [if_pos (by omega), if_pos (by omega)]

theorem slot_advance (u : SpriteUnit) {i : Nat} (hi : i < 8) :
    u.advance.slot i = if i < u.shown then (u.slot i).advance else u.slot i := by
  simp only [slot, advance, getElem_advanceFirst, Nat.mod_eq_of_lt hi]

theorem firstSolid_eq (slots : Vector Sprite 8) (entries : List Nat) (f : Nat → Sprite) (i : Nat)
    (hlen : i + entries.length ≤ 8)
    (h : ∀ j (hj : j < entries.length), slots[i + j] = f entries[j]) :
    firstSolid slots i entries.length =
      entries.findSome? fun k => if (f k).solid then some (f k) else none := by
  induction entries generalizing i with
  | nil => rfl
  | cons k entries ih =>
    rw [List.length_cons] at hlen
    have hk : slots[i] = f k := h 0 (by simp)
    rw [List.length_cons, firstSolid, dif_pos (by omega), List.findSome?_cons, hk]
    cases hs : (f k).solid
    · simp only [Bool.false_eq_true, if_false]
      apply ih (i + 1) (by omega)
      intro j hj
      have hj' := h (j + 1) (by simpa using hj)
      simp only [List.getElem_cons_succ] at hj'
      rw [← hj']
      congr 1
      omega
    · simp

/-! Choosing. -/

structure Chose (l : Lineup) (entries : List Nat) (u : SpriteUnit) : Prop where
  count_eq : u.count = entries.length
  first_eq : u.firstChosen = (entries.head? == some 0)
  entry : ∀ j (hj : j < entries.length), ∀ b < 4,
    Ram.read u.chosen (j * 4 + b) = Ram.read l.oam (entries[j] * 4 + b)

variable {l : Lineup} {entries : List Nat} {u : SpriteUnit}

theorem chose_begin (l : Lineup) (u : SpriteUnit) : Chose l [] u.begin where
  count_eq := rfl
  first_eq := rfl
  entry _ hj := absurd hj (Nat.not_lt_zero _)

theorem Chose.clear (h : Chose l [] u) (i : Nat) : Chose l [] (u.clear i) where
  count_eq := h.count_eq
  first_eq := h.first_eq
  entry _ hj := absurd hj (Nat.not_lt_zero _)

theorem read_choose (u : SpriteUnit) (oam : Ram 256) {j b : Nat} (hcount : u.count < 8)
    (hj : j ≤ u.count) (hb : b < 4) : Ram.read (u.choose oam).chosen (j * 4 + b) =
      if j = u.count then Ram.read oam (u.index * 4 + b) else Ram.read u.chosen (j * 4 + b) := by
  simp only [choose, Ram.read_write]
  interval_cases b <;> split_ifs <;> first | rfl | omega

theorem Chose.choose (h : Chose l entries u) (hroom : entries.length < 8)
    (hfirst : u.index = 0 → entries = []) :
    Chose l (entries ++ [u.index]) (u.choose l.oam) where
  count_eq := by
    rw [List.length_append, ← h.count_eq]
    rfl
  first_eq := by
    change (u.firstChosen || u.index == 0) = _
    rw [h.first_eq]
    cases entries with
    | nil => simp
    | cons k entries =>
      have hindex : u.index ≠ 0 := fun h0 => List.cons_ne_nil _ _ (hfirst h0)
      simp [hindex]
  entry j hj b hb := by
    rw [List.length_append, List.length_singleton] at hj
    have hcount := h.count_eq
    rw [read_choose u l.oam (by omega) (by omega) hb]
    split_ifs with hlast
    · rw [List.getElem_append_right (by omega)]
      simp
    · rw [List.getElem_append_left (by omega), h.entry j (by omega) b hb]

theorem covers_eq (l : Lineup) (line i : Nat) :
    covers (Ram.read l.oam (i * 4)) line l.height = l.onLine (line + 1) i := by
  simp only [covers, Lineup.onLine, Lineup.top, Nat.add_sub_cancel, Nat.lt_add_one_iff]

theorem index_evaluate (oam : Ram 256) (line height : Nat) (h : u.index < 64) :
    (u.evaluate oam line height).index = u.index + 1 := by
  simp [evaluate, h]

theorem evaluate_done (oam : Ram 256) (line height : Nat) (h : 64 ≤ u.index) :
    u.evaluate oam line height = u := by
  rw [evaluate, if_neg (Nat.not_lt.mpr h)]

theorem Chose.evaluate {line : Nat} (h : Chose l (l.among (line + 1) u.index) u)
    (hi : u.index < 64) :
    Chose l (l.among (line + 1) (u.index + 1)) (u.evaluate l.oam line l.height) := by
  have hcount := h.count_eq
  rw [SpriteUnit.evaluate, if_pos hi, covers_eq, l.among_succ, ← hcount]
  by_cases htake : u.count < 8 ∧ l.onLine (line + 1) u.index
  · rw [if_pos htake, if_pos (by simpa using htake)]
    have hc := h.choose (hcount ▸ htake.1) (fun h0 => by rw [h0, l.among_zero])
    exact ⟨hc.count_eq, hc.first_eq, hc.entry⟩
  · rw [if_neg htake, if_neg (by simpa using htake)]
    exact ⟨h.count_eq, h.first_eq, h.entry⟩

end SpriteUnit

/-! Fetching. -/

namespace Lineup

def plane (l : Lineup) (i : Nat) (data : UInt8) : UInt8 :=
  if Byte.has (l.attr i) 0x40 then Byte.reverse data else data

/-- An entry in a slot, at the beginning of line `y`. -/
def sprite (l : Lineup) (y i : Nat) : Sprite where
  lo := l.plane i (l.memory (l.address y i))
  hi := l.plane i (l.memory (l.address y i + 8))
  attr := l.attr i
  wait := l.left i
  first := i == 0

theorem bit_plane (l : Lineup) (i : Nat) (data : UInt8) {x : Nat} (hx : x < 8) :
    TileMap.bit (l.plane i data) x = TileMap.bit data (l.column x i) := by
  unfold plane column
  split_ifs
  · exact bit_reverse data hx
  · rfl

/-- After `x` dots of its line a slot shows the pixel of its entry in column `x`. -/
theorem pixel_sprite (l : Lineup) (x y i : Nat) :
    (if (Sprite.advance^[x] (l.sprite y i)).solid then
      some (Sprite.advance^[x] (l.sprite y i)).pixel else none) = l.pixel? x y i := by
  have hwait : (l.sprite y i).wait = l.left i := rfl
  have hcolour : (Sprite.advance^[x] (l.sprite y i)).colour =
      if x - l.left i < 8 then l.colour x y i else 0 := by
    rw [Sprite.iterate_advance, Sprite.colour, iterate_shl_shr, iterate_shl_shr, hwait]
    split_ifs with h
    · rw [TileMap.bit_pair, sprite, colour, l.bit_plane i _ h, l.bit_plane i _ h]
    · rfl
  have hsolid : (Sprite.advance^[x] (l.sprite y i)).solid =
      (l.left i - x == 0 && (Sprite.advance^[x] (l.sprite y i)).colour != 0) := by
    rw [Sprite.solid, Sprite.iterate_advance]
    rfl
  rw [hsolid, pixel?, Sprite.pixel, hcolour]
  by_cases hin : l.left i ≤ x ∧ x - l.left i < 8
  · rw [Sprite.iterate_advance]
    have h0 : l.left i - x = 0 := by omega
    simp [hin, h0, Sprite.palette, Sprite.behind, sprite]
  · rw [if_neg, if_neg]
    · exact fun h => hin ⟨h.1, h.2.1⟩
    · simp only [Bool.and_eq_true, beq_iff_eq, bne_iff_ne, not_and, not_not]
      intro h
      rw [if_neg (by omega)]

end Lineup
namespace SpriteUnit

structure Latched (l : Lineup) (i : Nat) (u : SpriteUnit) : Prop where
  row_eq : u.row.toNat = l.top i
  tile_eq : u.tile.toNat = l.tile i
  attr_eq : u.attr = l.attr i
  column_eq : u.column.toNat = l.left i

theorem Chose.take {l : Lineup} {entries : List Nat} {u : SpriteUnit} (h : Chose l entries u)
    {slot : Nat} (hslot : slot < entries.length) : Latched l entries[slot] (u.take slot) where
  row_eq := congrArg UInt8.toNat (h.entry slot hslot 0 (by decide))
  tile_eq := congrArg UInt8.toNat (h.entry slot hslot 1 (by decide))
  attr_eq := h.entry slot hslot 2 (by decide)
  column_eq := congrArg UInt8.toNat (h.entry slot hslot 3 (by decide))

def address? (u : SpriteUnit) (tall : Bool) (table line phase slot : Nat) : Option Nat :=
  match phase with
  | 4 => some (u.patternAddress tall table line slot)
  | 6 => some (u.patternAddress tall table line slot + 8)
  | _ => none

theorem Latched.patternAddress_eq {l : Lineup} {i : Nat} {u : SpriteUnit} (h : Latched l i u)
    {line slot : Nat} (hslot : slot < u.count) (hline : l.onLine (line + 1) i) :
    u.patternAddress l.tall l.table line slot = l.address (line + 1) i := by
  simp only [Lineup.onLine, Bool.and_eq_true, decide_eq_true_eq, Nat.add_sub_cancel] at hline
  obtain ⟨htop, hheight⟩ := hline
  have hrow : (line + 256 - l.top i) % 16 = line - l.top i := by
    have h16 : l.height ≤ 16 := by
      unfold Lineup.height
      split_ifs <;> decide
    omega
  simp only [SpriteUnit.patternAddress, hslot, decide_true, Bool.true_and, if_true, h.row_eq,
    h.tile_eq, h.attr_eq, hrow, Lineup.address, Lineup.row, Nat.add_sub_cancel]
  unfold Lineup.height at *
  cases htall : l.tall
  · have h8 : line - l.top i < 8 := by simpa [htall] using hheight
    simp [Nat.mod_eq_of_lt h8]
  · simp

/-! What a fetching dot does to each part. -/

def filled (u : SpriteUnit) (phase slot : Nat) (data : UInt8) (s : Sprite) : Sprite :=
  match phase with
  | 4 => { s with lo := u.plane slot data }
  | 6 => { s with hi := u.plane slot data }
  | 7 => { s with
      attr := u.attr
      wait := u.column.toNat
      first := slot == 0 && u.firstChosen }
  | _ => s

section
variable {l : Lineup} {entries : List Nat} {u : SpriteUnit} (phase slot : Nat) (data : UInt8)

theorem slot_fetch (u : SpriteUnit) (j : Nat) : (u.fetch phase slot data).slot j =
    if slot % 8 = j % 8 then u.filled phase slot data (u.slot j) else u.slot j := by
  rcases phase with _ | _ | _ | _ | _ | _ | _ | _ | phase
  case succ.succ.succ.succ.zero => exact slot_modifySlot ..
  case succ.succ.succ.succ.succ.succ.zero => exact slot_modifySlot ..
  case succ.succ.succ.succ.succ.succ.succ.zero => exact slot_modifySlot ..
  all_goals exact (ite_self (u.slot j)).symm

theorem lo_filled (u : SpriteUnit) (s : Sprite) : (u.filled phase slot data s).lo =
    if phase = 4 then u.plane slot data else s.lo := by
  rcases phase with _ | _ | _ | _ | _ | _ | _ | _ | phase <;> rfl

theorem hi_filled (u : SpriteUnit) (s : Sprite) : (u.filled phase slot data s).hi =
    if phase = 6 then u.plane slot data else s.hi := by
  rcases phase with _ | _ | _ | _ | _ | _ | _ | _ | phase <;> rfl

theorem shown_fetch (u : SpriteUnit) : (u.fetch phase slot data).shown =
    if phase = 0 ∧ slot = 0 then u.count else u.shown := by
  rcases phase with _ | _ | _ | _ | _ | _ | _ | _ | phase
  · simp [fetch, take]
  all_goals simp [fetch, loadLo, loadHi, place, modifySlot]

theorem Chose.fetch (h : Chose l entries u) : Chose l entries (u.fetch phase slot data) := by
  obtain ⟨hcount, hfirst, hentry⟩ := h
  rcases phase with _ | _ | _ | _ | _ | _ | _ | _ | phase <;> exact ⟨hcount, hfirst, hentry⟩

theorem Latched.fetch {i : Nat} (h : Latched l i u) (hphase : phase ≠ 0) :
    Latched l i (u.fetch phase slot data) := by
  obtain ⟨hrow, htile, hattr, hcolumn⟩ := h
  rcases phase with _ | _ | _ | _ | _ | _ | _ | _ | phase
  · exact absurd rfl hphase
  all_goals exact ⟨hrow, htile, hattr, hcolumn⟩

end

/-- After `n` fetching dots, where the entries chosen are those on line `y`. -/
structure Loading (l : Lineup) (y n : Nat) (u : SpriteUnit) : Prop where
  chose : Chose l (l.among y 64) u
  shown_eq : 1 ≤ n → u.shown = (l.among y 64).length
  loaded : ∀ j (hj : j < (l.among y 64).length), j < n / 8 →
    u.slot j = l.sprite y (l.among y 64)[j]
  latched : ∀ hj : n / 8 < (l.among y 64).length, 1 ≤ n % 8 → Latched l (l.among y 64)[n / 8] u
  lo : ∀ hj : n / 8 < (l.among y 64).length, 5 ≤ n % 8 →
    (u.slot (n / 8)).lo = (l.sprite y (l.among y 64)[n / 8]).lo
  hi : ∀ hj : n / 8 < (l.among y 64).length, 7 ≤ n % 8 →
    (u.slot (n / 8)).hi = (l.sprite y (l.among y 64)[n / 8]).hi

theorem Chose.loading {l : Lineup} {y : Nat} {u : SpriteUnit} (h : Chose l (l.among y 64) u) :
    Loading l y 0 u where
  chose := h
  shown_eq := by omega
  loaded j _ hn := by omega
  latched _ hn := by omega
  lo _ hn := by omega
  hi _ hn := by omega

theorem Chose.first_slot {l : Lineup} {y n : Nat} {u : SpriteUnit} (h : Chose l (l.among y n) u)
    {slot : Nat} (hslot : slot < (l.among y n).length) :
    (slot == 0 && u.firstChosen) = ((l.among y n)[slot] == 0) := by
  have hsorted := List.pairwise_iff_getElem.mp (l.among_pairwise y n)
  rw [h.first_eq, List.head?_eq_getElem?, List.getElem?_eq_getElem (by omega)]
  by_cases h0 : slot = 0
  · simp [h0]
  · have hlt := hsorted 0 slot (by omega) hslot (by omega)
    rw [beq_false_of_ne h0, Bool.false_and, beq_false_of_ne (by omega)]

section
variable {l : Lineup} {y n line : Nat} {u : SpriteUnit}

abbrev reply (l : Lineup) (line n : Nat) (u : SpriteUnit) : UInt8 :=
  (u.address? l.tall l.table line (n % 8) (n / 8)).elim 0 l.memory

theorem plane_eq {i slot : Nat} (h : Latched l i u) (hslot : slot < u.count) (data : UInt8) :
    u.plane slot data = l.plane i data := by
  rw [plane, if_neg (by omega), h.attr_eq, Lineup.plane]

theorem Loading.planes (h : Loading l y n u) (hy : y = 0 ∨ y = line + 1)
    (hj : n / 8 < (l.among y 64).length) :
    (n % 8 = 4 → u.plane (n / 8) (reply l line n u) = (l.sprite y (l.among y 64)[n / 8]).lo) ∧
    (n % 8 = 6 → u.plane (n / 8) (reply l line n u) = (l.sprite y (l.among y 64)[n / 8]).hi) := by
  have hline := l.onLine_of_mem (List.getElem_mem hj)
  have hy' : y = line + 1 := by
    cases hy with
    | inl h0 =>
      rw [h0, l.among_first] at hj
      exact absurd hj (Nat.not_lt_zero _)
    | inr hy => exact hy
  have hslot : n / 8 < u.count := h.chose.count_eq ▸ hj
  constructor
  · intro hphase
    have hl := h.latched hj (by omega)
    rw [plane_eq hl hslot, reply, hphase]
    change l.plane _ (l.memory (u.patternAddress l.tall l.table line (n / 8))) = _
    rw [hl.patternAddress_eq hslot (hy' ▸ hline), ← hy']
    rfl
  · intro hphase
    have hl := h.latched hj (by omega)
    rw [plane_eq hl hslot, reply, hphase]
    change l.plane _ (l.memory (u.patternAddress l.tall l.table line (n / 8) + 8)) = _
    rw [hl.patternAddress_eq hslot (hy' ▸ hline), ← hy']
    rfl

theorem Loading.next (h : Loading l y n u) (hy : y = 0 ∨ y = line + 1) (hn : n < 64) :
    Loading l y (n + 1) (u.fetch (n % 8) (n / 8) (reply l line n u)) where
  chose := h.chose.fetch _ _ _
  shown_eq _ := by
    rw [shown_fetch]
    split_ifs
    · exact h.chose.count_eq
    · exact h.shown_eq (by omega)
  loaded j hj hlt := by
    have hlen := l.length_among_le y 64
    rw [slot_fetch]
    -- The slot in hand is loaded with its eighth dot; the ones before it are left alone.
    by_cases hcur : n / 8 = j
    · subst hcur
      have hl := h.latched hj (by omega)
      have hphase : n % 8 = 7 := by omega
      rw [if_pos rfl, hphase]
      change Sprite.mk (u.slot (n / 8)).lo (u.slot (n / 8)).hi u.attr u.column.toNat
        (n / 8 == 0 && u.firstChosen) = _
      rw [h.lo hj (by omega), h.hi hj (by omega), hl.attr_eq, hl.column_eq, h.chose.first_slot hj]
      rfl
    · rw [if_neg (by omega)]
      exact h.loaded j hj (by omega)
  latched hj hphase := by
    have hsame : (n + 1) / 8 = n / 8 := by omega
    simp only [hsame] at hj ⊢
    by_cases h0 : n % 8 = 0
    · rw [h0]
      exact h.chose.take hj
    · exact (h.latched hj (by omega)).fetch _ _ _ h0
  lo hj hphase := by
    have hsame : (n + 1) / 8 = n / 8 := by omega
    simp only [hsame] at hj ⊢
    rw [slot_fetch, if_pos rfl, lo_filled]
    split_ifs with h4
    · exact (h.planes hy hj).1 h4
    · exact h.lo hj (by omega)
  hi hj hphase := by
    have hsame : (n + 1) / 8 = n / 8 := by omega
    simp only [hsame] at hj ⊢
    rw [slot_fetch, if_pos rfl, hi_filled]
    split_ifs with h6
    · exact (h.planes hy hj).2 h6
    · exact h.hi hj (by omega)

end

/-! Showing. -/

structure Showing (l : Lineup) (y x : Nat) (u : SpriteUnit) : Prop where
  shown_eq : u.shown = (l.among y 64).length
  slot_eq : ∀ j (hj : j < (l.among y 64).length),
    u.slot j = Sprite.advance^[x] (l.sprite y (l.among y 64)[j])

section
variable {l : Lineup} {y x : Nat} {u : SpriteUnit}

theorem Loading.showing (h : Loading l y 64 u) : Showing l y 0 u where
  shown_eq := h.shown_eq (by decide)
  slot_eq j hj := h.loaded j hj (by have := l.length_among_le y 64; omega)

theorem Showing.next (h : Showing l y x u) : Showing l y (x + 1) u.advance where
  shown_eq := h.shown_eq
  slot_eq j hj := by
    have hlen := l.length_among_le y 64
    rw [slot_advance u (by omega), h.shown_eq, if_pos hj, h.slot_eq j hj,
      Function.iterate_succ_apply']

theorem Showing.winner_eq (h : Showing l y x u) : u.winner.map Sprite.pixel = l.front? x y := by
  have hlen := l.length_among_le y 64
  have hslots : ∀ j (hj : j < (l.among y 64).length),
      u.slots[0 + j] = Sprite.advance^[x] (l.sprite y (l.among y 64)[j]) := by
    intro j hj
    have hj8 : j % 8 = j := Nat.mod_eq_of_lt (by omega)
    rw [← h.slot_eq j hj]
    simp only [slot, Nat.zero_add, hj8]
  rw [winner, h.shown_eq, firstSolid_eq u.slots (l.among y 64)
    (fun i => Sprite.advance^[x] (l.sprite y i)) 0 (by omega) hslots, Lineup.front?,
    List.map_findSome?]
  congr 1
  funext i
  rw [← l.pixel_sprite x y i]
  simp only [Function.comp]
  split_ifs <;> rfl

end
end SpriteUnit
end Famicom.Ppu
