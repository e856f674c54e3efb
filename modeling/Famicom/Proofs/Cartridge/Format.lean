import Famicom.Proofs.Bytes
import Famicom.Proofs.Cartridge.Image
import Famicom.Proofs.Strict
import Mathlib.Data.Nat.Bitwise
import Mathlib.Tactic.SplitIfs

/-! Which images are accepted, told from their bytes. An image has to begin with a header, to be as
long as that declares and to name a board that there is; it is refused for the first of these that
it fails. Of an accepted image nothing counts but the first half of the header and the bytes that
are declared to be program and characters. -/
namespace Famicom.Cartridge

/-! The format. -/

def byteAt (image : Array UInt8) (i : Nat) : UInt8 := image[i]?.getD 0

def Signed (image : Array UInt8) : Prop :=
  16 ≤ image.size ∧ image.extract 0 4 = #[0x4E, 0x45, 0x53, 0x1A]

def programStart (image : Array UInt8) : Nat :=
  16 + if (byteAt image 6).toNat.testBit 2 then 512 else 0

def charactersStart (image : Array UInt8) : Nat :=
  programStart image + 16384 * (byteAt image 4).toNat

def declaredSize (image : Array UInt8) : Nat :=
  16 + (if (byteAt image 6).toNat.testBit 2 then 512 else 0) + 16384 * (byteAt image 4).toNat +
    8192 * (byteAt image 5).toNat

def declaredMapper (image : Array UInt8) : Nat :=
  (byteAt image 7 &&& (0xF0 : UInt8) ||| byteAt image 6 >>> (4 : UInt8)).toNat

def supported : List Nat := [0, 1, 2, 3, 4, 7]

/-! The header as a function of eight bytes. -/

/-- The header that bytes 4 to 7 encode. -/
def encoded (byte : Nat → UInt8) : Header where
  prgBanks := (byte 4).toNat
  chrBanks := (byte 5).toNat
  mapperId := (byte 7).toNat / 16 * 16 + (byte 6).toNat / 16
  vertical := Byte.has (byte 6) 0x01
  battery := Byte.has (byte 6) 0x02
  trainer := Byte.has (byte 6) 0x04
  fourScreen := Byte.has (byte 6) 0x08

section Header
variable {image : Array UInt8}

theorem byteAt_eq {i : Nat} (h : i < image.size) : byteAt image i = image[i] := by
  rw [byteAt, Array.getElem?_eq_getElem h, Option.getD_some]

theorem magic_iff (h : 16 ≤ image.size) : image.extract 0 4 = #[0x4E, 0x45, 0x53, 0x1A] ↔
    byteAt image 0 = 0x4E ∧ byteAt image 1 = 0x45 ∧ byteAt image 2 = 0x53 ∧
      byteAt image 3 = 0x1A := by
  have hget (i : Nat) (hi : i < 4) : byteAt image i = (image.extract 0 4)[i]?.getD 0 := by
    rw [Array.getElem?_extract, if_pos (by omega), Nat.zero_add, byteAt]
  constructor
  · intro hmagic
    rw [hget 0 (by decide), hget 1 (by decide), hget 2 (by decide), hget 3 (by decide), hmagic]
    exact ⟨rfl, rfl, rfl, rfl⟩
  · rintro ⟨h0, h1, h2, h3⟩
    apply Array.ext
    · rw [Array.size_extract]
      simp
      omega
    · intro i hi hi'
      have hi4 : i < 4 := hi'
      rw [Array.getElem_extract, ← byteAt_eq]
      match i with
      | 0 => exact h0
      | 1 => exact h1
      | 2 => exact h2
      | 3 => exact h3

theorem parse_signed (h : Signed image) : Header.parse image = .ok (encoded (byteAt image)) := by
  obtain ⟨hsize, hmagic⟩ := h
  rw [magic_iff hsize, byteAt_eq (by omega), byteAt_eq (by omega), byteAt_eq (by omega),
    byteAt_eq (by omega)] at hmagic
  rw [Header.parse, dif_pos hsize, if_pos hmagic, encoded, byteAt_eq (by omega),
    byteAt_eq (by omega), byteAt_eq (by omega), byteAt_eq (by omega)]

theorem parse_unsigned (h : ¬Signed image) : Header.parse image = .error .badMagic := by
  unfold Header.parse
  split_ifs with hsize hmagic
  · simp only [← byteAt_eq] at hmagic
    exact absurd ⟨hsize, (magic_iff hsize).mpr hmagic⟩ h
  · rfl
  · rfl

theorem prgStart_encoded : (encoded (byteAt image)).prgStart = programStart image := by
  have htrains : Byte.has (byteAt image 6) 0x04 = (byteAt image 6).toNat.testBit 2 :=
    Byte.has_eq_testBit _ 2 (by decide)
  rw [Header.prgStart, encoded, htrains, programStart]
  split_ifs <;> rfl

theorem prgSize_encoded :
    (encoded (byteAt image)).prgSize = 16384 * (byteAt image 4).toNat := Nat.mul_comm _ _

theorem chrSize_encoded :
    (encoded (byteAt image)).chrSize = 8192 * (byteAt image 5).toNat := Nat.mul_comm _ _

theorem imageSize_encoded : (encoded (byteAt image)).imageSize = declaredSize image := by
  rw [Header.imageSize, prgStart_encoded, prgSize_encoded, chrSize_encoded, programStart,
    declaredSize]

theorem mapperId_encoded : (encoded (byteAt image)).mapperId = declaredMapper image := by
  have hmask : ∀ n < 256, (UInt8.ofNat n &&& 0xF0).toNat = n / 16 * 16 := by decide +kernel
  have hhigh : (byteAt image 7 &&& 0xF0).toNat = ((byteAt image 7).toNat / 16) <<< 4 := by
    simpa [Nat.shiftLeft_eq] using hmask _ (byteAt image 7).toNat_lt
  have hlow : (byteAt image 6 >>> 4).toNat = (byteAt image 6).toNat / 16 := by
    rw [UInt8.toNat_shiftRight]
    exact Nat.shiftRight_eq_div_pow _ 4
  have hlt := (byteAt image 6).toNat_lt
  rw [declaredMapper, UInt8.toNat_or, hhigh, hlow, ← Nat.shiftLeft_add_eq_or_of_lt (by omega),
    Nat.shiftLeft_eq]
  rfl

end Header

/-! Loading. -/

theorem isSome_ofMapper (id : Nat) (wiring : Mirroring) (size : Nat) :
    (Board.ofMapper? id wiring size).isSome = true ↔ id ∈ supported := by
  unfold Board.ofMapper?
  split
  case h_7 h0 h1 h2 h3 h4 h7 =>
    simp only [supported, List.mem_cons, List.not_mem_nil, or_false, Option.isSome_none,
      Bool.false_eq_true, false_iff]
    exact fun hid => hid.elim h0 (·.elim h1 (·.elim h2 (·.elim h3 (·.elim h4 h7))))
  all_goals simp [supported]

section Load
variable {image : Array UInt8}

theorem load_unsigned (h : ¬Signed image) : load image = .error .badMagic := by
  rw [load, parse_unsigned h]
  rfl

theorem load_short (h : Signed image) (hsize : image.size < declaredSize image) :
    load image = .error (.truncated (declaredSize image) image.size) := by
  rw [← imageSize_encoded] at hsize ⊢
  unfold load
  rw [parse_signed h]
  exact if_pos hsize

theorem load_unsupported (h : Signed image) (hsize : declaredSize image ≤ image.size)
    (hid : declaredMapper image ∉ supported) :
    load image = .error (.unsupportedMapper (declaredMapper image)) := by
  rw [← imageSize_encoded] at hsize
  rw [← isSome_ofMapper _ (encoded (byteAt image)).mirroring
    (chips image (encoded (byteAt image))).prgRom.size, Bool.not_eq_true, Option.isSome_eq_false_iff,
    Option.isNone_iff_eq_none, ← mapperId_encoded] at hid
  rw [load_eq (parse_signed h) hsize, hid, mapperId_encoded]

theorem load_supported (h : Signed image) (hsize : declaredSize image ≤ image.size)
    (hid : declaredMapper image ∈ supported) : ∃ board, load image = .ok {
      header := encoded (byteAt image)
      storage := chips image (encoded (byteAt image))
      board } := by
  rw [← imageSize_encoded] at hsize
  rw [← isSome_ofMapper _ (encoded (byteAt image)).mirroring
    (chips image (encoded (byteAt image))).prgRom.size, ← mapperId_encoded] at hid
  obtain ⟨board, hboard⟩ := Option.isSome_iff_exists.mp hid
  rw [load_eq (parse_signed h) hsize, hboard]
  exact ⟨board, rfl⟩

theorem load_cases (h : Signed image) :
    image.size < declaredSize image ∧
      load image = .error (.truncated (declaredSize image) image.size) ∨
    declaredSize image ≤ image.size ∧ declaredMapper image ∉ supported ∧
      load image = .error (.unsupportedMapper (declaredMapper image)) ∨
    declaredSize image ≤ image.size ∧ declaredMapper image ∈ supported ∧
      ∃ c, load image = .ok c := by
  by_cases hsize : image.size < declaredSize image
  · exact .inl ⟨hsize, load_short h hsize⟩
  · have hfits := Nat.le_of_not_lt hsize
    by_cases hid : declaredMapper image ∈ supported
    · obtain ⟨board, hload⟩ := load_supported h hfits hid
      exact .inr (.inr ⟨hfits, hid, _, hload⟩)
    · exact .inr (.inl ⟨hfits, hid, load_unsupported h hfits hid⟩)

end Load

/-! Two images. -/

theorem extract_congr {α : Type} {a b : Array α} {i j : Nat} (ha : j ≤ a.size) (hb : j ≤ b.size)
    (h : ∀ k, i ≤ k → k < j → a[k]? = b[k]?) : a.extract i j = b.extract i j := by
  apply Array.ext_getElem?
  intro k
  rw [Array.getElem?_extract, Array.getElem?_extract, Nat.min_eq_left ha, Nat.min_eq_left hb]
  split_ifs with hk
  · exact h (i + k) (by omega) (by omega)
  · rfl

/-- Two images that have in common the bytes that count. -/
def Agree (image other : Array UInt8) : Prop :=
  ∀ i, i < 8 ∨ programStart image ≤ i ∧ i < declaredSize image → other[i]? = image[i]?

section Agree
variable {image other : Array UInt8}

theorem encoded_agree (h : Agree image other) :
    encoded (byteAt other) = encoded (byteAt image) := by
  have hbyte (i : Nat) (hi : i < 8) : byteAt other i = byteAt image i := by
    rw [byteAt, byteAt, h i (.inl hi)]
  rw [encoded, encoded, hbyte 4 (by decide), hbyte 5 (by decide), hbyte 6 (by decide),
    hbyte 7 (by decide)]

theorem signed_agree (h : Agree image other) (hsigned : Signed image) (hsize : 16 ≤ other.size) :
    Signed other := by
  refine ⟨hsize, hsigned.2 ▸ ?_⟩
  exact extract_congr (by omega) (Nat.le_trans (by decide) hsigned.1)
    fun k _ hk => h k (.inl (Nat.lt_trans hk (by decide)))

theorem chips_agree (h : Agree image other) (himage : declaredSize image ≤ image.size)
    (hother : declaredSize image ≤ other.size) :
    chips other (encoded (byteAt image)) = chips image (encoded (byteAt image)) := by
  have hsize := @imageSize_encoded image
  have hstart := @prgStart_encoded image
  rw [Header.imageSize] at hsize
  have hprogram : program other (encoded (byteAt image)) = program image (encoded (byteAt image)) :=
    extract_congr (by omega) (by omega) fun k hk hk' => h k (.inr (by omega))
  have hcharacters : characters other (encoded (byteAt image)) =
      characters image (encoded (byteAt image)) :=
    extract_congr (by omega) (by omega) fun k hk hk' => h k (.inr (by omega))
  rw [chips, chips, hprogram, hcharacters]

theorem load_agree (h : Agree image other) (hsigned : Signed image)
    (himage : declaredSize image ≤ image.size) (hother : declaredSize image ≤ other.size)
    {c : Cartridge} (hc : load image = .ok c) : load other = .ok c := by
  have hloaded := load_iff.mp hc
  have hheader : c.header = encoded (byteAt image) :=
    Except.ok.inj (hloaded.parsed.symm.trans (parse_signed hsigned))
  have hlong : 16 ≤ other.size := by
    unfold declaredSize at hother
    omega
  apply load_iff.mpr
  constructor
  · rw [parse_signed (signed_agree h hsigned hlong), encoded_agree h, hheader]
  · rw [hheader, imageSize_encoded]
    exact hother
  · rw [hloaded.storage_eq, hheader, chips_agree h himage hother]
  · exact hloaded.board_eq

end Agree

/-! Loading on a machine that stops at a fault: sums and products have to fit 32 bits, and what is
cut out of an image has to be in it. -/

def strictParse (image : Array UInt8) : Strict (Except LoadError Header) :=
  if image.size < 16 then pure (.error .badMagic)
  else do
    let magic ← Strict.slice image 0 4
    if magic = #[0x4E, 0x45, 0x53, 0x1A] then
      let prgBanks ← Strict.getAt image 4
      let chrBanks ← Strict.getAt image 5
      let lo ← Strict.getAt image 6
      let hi ← Strict.getAt image 7
      pure (.ok {
        prgBanks := prgBanks.toNat
        chrBanks := chrBanks.toNat
        mapperId := hi.toNat / 16 * 16 + lo.toNat / 16
        vertical := Byte.has lo 0x01
        battery := Byte.has lo 0x02
        trainer := Byte.has lo 0x04
        fourScreen := Byte.has lo 0x08 })
    else pure (.error .badMagic)

/-- Where the program begins, where the characters do, and where they end. -/
def strictBounds (h : Header) : Strict (Nat × Nat × Nat) := do
  let start ← Strict.add 32 16 (if h.trainer then 512 else 0)
  let prgSize ← Strict.mul 32 h.prgBanks 0x4000
  let chrSize ← Strict.mul 32 h.chrBanks 0x2000
  let middle ← Strict.add 32 start prgSize
  let stop ← Strict.add 32 middle chrSize
  pure (start, middle, stop)

def strictCharacters (image : Array UInt8) (h : Header) (i j : Nat) : Strict (Array UInt8) :=
  if h.chrBanks = 0 then pure (Array.replicate 0x2000 0) else Strict.slice image i j

def strictLoad (image : Array UInt8) : Strict (Except LoadError Cartridge) := do
  match ← strictParse image with
  | .error e => pure (.error e)
  | .ok h =>
    let (start, middle, stop) ← strictBounds h
    if image.size < stop then pure (.error (.truncated stop image.size))
    else
      let prgRom ← Strict.slice image start middle
      let chr ← strictCharacters image h middle stop
      match Board.ofMapper? h.mapperId h.mirroring prgRom.size with
      | none => pure (.error (.unsupportedMapper h.mapperId))
      | some board =>
        pure (.ok { header := h, storage := { prgRom, chr, chrWritable := h.chrBanks == 0 }, board })

theorem strictParse_ok (image : Array UInt8) : strictParse image = .ok (Header.parse image) := by
  unfold strictParse
  split_ifs with hshort
  · rw [parse_unsigned fun h => absurd h.1 (by omega)]
    rfl
  · have hsize : 16 ≤ image.size := Nat.le_of_not_lt hshort
    rw [Strict.slice_ok image (by decide) (by omega), Strict.ok_bind]
    split_ifs with hmagic
    · have hget (i : Nat) (hi : i < 16) : Strict.getAt image i = .ok (byteAt image i) := by
        rw [Strict.getAt_ok image (by omega), byteAt_eq]
      rw [parse_signed ⟨hsize, hmagic⟩, hget 4 (by decide), hget 5 (by decide), hget 6 (by decide),
        hget 7 (by decide)]
      rfl
    · rw [parse_unsigned fun h => hmagic h.2]
      rfl

theorem strictBounds_ok {h : Header} (hprg : h.prgBanks < 256) (hchr : h.chrBanks < 256) :
    strictBounds h = .ok (h.prgStart, h.prgStart + h.prgSize, h.imageSize) := by
  have hstart : Strict.add 32 16 (if h.trainer then 512 else 0) = .ok h.prgStart := by
    rw [Header.prgStart]
    cases h.trainer <;> rfl
  have hle : h.prgStart ≤ 528 := by
    unfold Header.prgStart
    split_ifs <;> decide
  have hprgSize : Strict.mul 32 h.prgBanks 0x4000 = .ok h.prgSize := Strict.mul_ok (by omega)
  have hchrSize : Strict.mul 32 h.chrBanks 0x2000 = .ok h.chrSize := Strict.mul_ok (by omega)
  have hmiddle : Strict.add 32 h.prgStart h.prgSize = .ok (h.prgStart + h.prgSize) :=
    Strict.add_ok (by unfold Header.prgSize; omega)
  have hstop : Strict.add 32 (h.prgStart + h.prgSize) h.chrSize = .ok h.imageSize :=
    Strict.add_ok (by unfold Header.prgSize Header.chrSize; omega)
  rw [strictBounds, hstart, Strict.ok_bind, hprgSize, Strict.ok_bind, hchrSize, Strict.ok_bind,
    hmiddle, Strict.ok_bind, hstop, Strict.ok_bind, Strict.pure_eq]

theorem strictCharacters_ok {image : Array UInt8} {h : Header} (hfits : h.imageSize ≤ image.size) :
    strictCharacters image h (h.prgStart + h.prgSize) h.imageSize = .ok (chips image h).chr := by
  unfold strictCharacters chips
  split_ifs
  · rfl
  · exact Strict.slice_ok image (Nat.le_add_right _ _) hfits

theorem strictLoad_ok (image : Array UInt8) : strictLoad image = .ok (load image) := by
  unfold strictLoad
  rw [strictParse_ok, Strict.ok_bind]
  by_cases hsigned : Signed image
  · have hparse := parse_signed hsigned
    have hbounds := strictBounds_ok (h := encoded (byteAt image)) (byteAt image 4).toNat_lt
      (byteAt image 5).toNat_lt
    generalize encoded (byteAt image) = h at hparse hbounds
    rw [hparse]
    dsimp only
    rw [hbounds, Strict.ok_bind]
    by_cases hsize : image.size < h.imageSize
    · rw [if_pos hsize, load, hparse]
      exact congrArg Except.ok (if_pos hsize).symm
    · have hfits := Nat.le_of_not_lt hsize
      have hprogram : h.prgStart + h.prgSize ≤ image.size :=
        Nat.le_trans (Nat.le_add_right _ _) hfits
      rw [if_neg hsize, load_eq hparse hfits, Strict.slice_ok image (Nat.le_add_right _ _) hprogram,
        Strict.ok_bind, strictCharacters_ok hfits, Strict.ok_bind]
      change _ = Except.ok (match Board.ofMapper? h.mapperId h.mirroring
        (image.extract h.prgStart (h.prgStart + h.prgSize)).size with | none => _ | some board => _)
      cases Board.ofMapper? h.mapperId h.mirroring
        (image.extract h.prgStart (h.prgStart + h.prgSize)).size <;> rfl
  · rw [parse_unsigned hsigned, load_unsigned hsigned]
    rfl

/-- An image is accepted or refused by its format alone, and the loader never reaches outside it.
What is on an accepted cartridge is what its image declares; another image with the same eight first
bytes and the same program and characters gives the same cartridge, and so the same fingerprint. -/
theorem format_exact (image : Array UInt8) :
    (load image = .error .badMagic ↔ ¬Signed image) ∧
    strictLoad image = .ok (load image) ∧
    (Signed image →
      (load image = .error (.truncated (declaredSize image) image.size) ↔
        image.size < declaredSize image) ∧
      (declaredSize image ≤ image.size →
        (load image = .error (.unsupportedMapper (declaredMapper image)) ↔
          declaredMapper image ∉ supported) ∧
        (declaredMapper image ∈ supported → ∃ c, load image = .ok c ∧
          c.storage.prgRom = image.extract (programStart image) (charactersStart image) ∧
          c.storage.chr = (if byteAt image 5 = 0 then Array.replicate 8192 0
            else image.extract (charactersStart image) (declaredSize image)) ∧
          c.storage.chrWritable = (byteAt image 5 == 0) ∧
          ∀ other, declaredSize image ≤ other.size →
            (∀ i, i < 8 ∨ programStart image ≤ i ∧ i < declaredSize image →
              other[i]? = image[i]?) →
            load other = .ok c))) := by
  refine ⟨⟨fun hbad hsigned => ?_, load_unsigned⟩, strictLoad_ok image, fun hsigned =>
    ⟨⟨fun hshort => ?_, load_short hsigned⟩, fun hsize =>
      ⟨⟨fun hnone hid => ?_, load_unsupported hsigned hsize⟩, fun hid => ?_⟩⟩⟩
  · obtain ⟨-, h⟩ | ⟨-, -, h⟩ | ⟨-, -, c, h⟩ := load_cases hsigned <;> rw [hbad] at h <;> cases h
  · obtain ⟨hlt, -⟩ | ⟨-, -, h⟩ | ⟨-, -, c, h⟩ := load_cases hsigned
    · exact hlt
    · rw [hshort] at h
      cases h
    · rw [hshort] at h
      cases h
  · obtain ⟨board, hload⟩ := load_supported hsigned hsize hid
    rw [hnone] at hload
    cases hload
  · obtain ⟨board, hload⟩ := load_supported hsigned hsize hid
    refine ⟨_, hload, ?_, ?_, ?_, fun other hother hagree => ?_⟩
    · simp only [chips, program, prgStart_encoded, prgSize_encoded, charactersStart]
    · have hempty : byteAt image 5 = 0 ↔ (encoded (byteAt image)).chrBanks = 0 :=
        UInt8.toNat_inj.symm
      simp only [hempty, ← imageSize_encoded, charactersStart, ← prgStart_encoded,
        ← prgSize_encoded]
      rfl
    · rw [Bool.eq_iff_iff, beq_iff_eq, ← UInt8.toNat_inj]
      exact beq_iff_eq
    · exact load_agree hagree hsigned hsize hother hload

/-- One bank of program behind a trainer, and more than was declared. -/
def trained (filler : UInt8) (rest : Array UInt8) : Array UInt8 :=
  #[0x4E, 0x45, 0x53, 0x1A, 1, 0, 0x04, 0] ++
    (Array.replicate 520 filler ++ (Array.replicate 0x4000 0xEA ++ rest))

section Trained
variable (filler : UInt8) (rest : Array UInt8)

theorem size_trained : (trained filler rest).size = 16912 + rest.size := by
  simp [trained]
  omega

theorem head_trained {i : Nat} (hi : i < 8) :
    (trained filler rest)[i]? = #[0x4E, 0x45, 0x53, 0x1A, 1, 0, 0x04, 0][i]? :=
  Array.getElem?_append_left hi

theorem program_trained {i : Nat} (hi : i < 0x4000) :
    (trained filler rest)[528 + i]? = some 0xEA := by
  rw [trained, Array.getElem?_append_right (Nat.le_trans (by decide) (Nat.le_add_right 528 i)),
    Array.getElem?_append_right (by simp; omega), Array.getElem?_append_left (by simp; omega),
    Array.getElem?_replicate, if_pos (by simp; omega)]

theorem byteAt_trained {i : Nat} (hi : i < 8) : byteAt (trained filler rest) i =
    #[0x4E, 0x45, 0x53, 0x1A, 1, 0, 0x04, 0][i]?.getD 0 := by
  rw [byteAt, head_trained filler rest hi]

theorem programStart_trained : programStart (trained filler rest) = 528 := by
  rw [programStart, byteAt_trained _ _ (by decide)]
  rfl

theorem charactersStart_trained : charactersStart (trained filler rest) = 16912 := by
  rw [charactersStart, programStart_trained, byteAt_trained _ _ (by decide)]
  rfl

theorem declaredSize_trained : declaredSize (trained filler rest) = 16912 := by
  rw [declaredSize, byteAt_trained _ _ (by decide), byteAt_trained _ _ (by decide),
    byteAt_trained _ _ (by decide)]
  rfl

theorem declaredMapper_trained : declaredMapper (trained filler rest) = 0 := by
  rw [declaredMapper, byteAt_trained _ _ (by decide), byteAt_trained _ _ (by decide)]
  rfl

theorem signed_trained : Signed (trained filler rest) := by
  have hsize : 16 ≤ (trained filler rest).size := by
    rw [size_trained]
    omega
  exact ⟨hsize, (magic_iff hsize).mpr ⟨byteAt_trained _ _ (by decide),
    byteAt_trained _ _ (by decide), byteAt_trained _ _ (by decide),
    byteAt_trained _ _ (by decide)⟩⟩

end Trained

/-- Neither the trainer nor what follows the program makes a difference. -/
theorem format_exact_trained : ∃ c, load (trained 0x00 #[]) = .ok c ∧
    load (trained 0xFF #[1, 2, 3]) = .ok c ∧ c.storage.prgRom = Array.replicate 0x4000 0xEA := by
  obtain ⟨-, -, haccepted⟩ := format_exact (trained 0x00 #[])
  have hsize : declaredSize (trained 0x00 #[]) ≤ (trained 0x00 #[]).size := by
    rw [declaredSize_trained, size_trained]
    decide
  have hid : declaredMapper (trained 0x00 #[]) ∈ supported := by
    rw [declaredMapper_trained]
    decide
  obtain ⟨c, hload, hprogram, -, -, hother⟩ := ((haccepted (signed_trained _ _)).2 hsize).2 hid
  rw [programStart_trained, charactersStart_trained] at hprogram
  rw [declaredSize_trained, programStart_trained] at hother
  refine ⟨c, hload, hother _ (by rw [size_trained]; decide) fun i hi => ?_, hprogram.trans ?_⟩
  · obtain hi | hi := hi
    · rw [head_trained _ _ hi, head_trained _ _ hi]
    · obtain ⟨k, rfl⟩ := Nat.exists_eq_add_of_le hi.1
      rw [program_trained _ _ (by omega), program_trained _ _ (by omega)]
  · apply Array.ext_getElem?
    intro k
    rw [Array.getElem?_extract, size_trained, Array.getElem?_replicate]
    by_cases hk : k < 0x4000
    · rw [if_pos (by simp; omega), if_pos hk, program_trained _ _ hk]
    · rw [if_neg (by simp; omega), if_neg hk]

end Famicom.Cartridge
