import Famicom.Proofs.Bytes
import Famicom.Proofs.Console.Run
import Mathlib.Data.Nat.Count

/-! Samples read in pieces. A read ends as soon as enough samples have come due, and writes for each
the mix after the fewest ticks in which it has, four bytes long; so that two reads give what one
would. -/
namespace Famicom.Console

/-- Whether the tick after the first `i` says that a sample is due. -/
def due (c : Console) (i : Nat) : Bool := (c.ticked i).tick.1

/-- How many samples come due in the first `t` ticks. -/
def dueIn (c : Console) (t : Nat) : Nat := Nat.count (fun i => c.due i = true) t

/-- The fewest ticks in which `n` samples come due are `t`. -/
structure Takes (c : Console) (n t : Nat) : Prop where
  dueIn_eq : c.dueIn t = n
  least : ∀ i < t, c.dueIn i < n

section Due
variable {c d : Console} {m n s t : Nat}

theorem dueIn_add (c : Console) (s t : Nat) :
    c.dueIn (s + t) = c.dueIn s + (c.ticked s).dueIn t := by
  unfold dueIn due
  simp only [Nat.count_add, ticked_add]

theorem dueIn_succ (c : Console) (t : Nat) :
    c.dueIn (t + 1) = c.tick.2.dueIn t + if c.tick.1 then 1 else 0 := Nat.count_succ' _ t

namespace Takes

theorem zero (c : Console) : Takes c 0 0 := ⟨rfl, fun i hi => absurd hi i.not_lt_zero⟩

theorem trans (h : Takes c m s) (h' : Takes (c.ticked s) n t) : Takes c (m + n) (s + t) where
  dueIn_eq := by rw [dueIn_add, h.dueIn_eq, h'.dueIn_eq]
  least i hi := by
    obtain hearly | hlate := Nat.lt_or_ge i s
    · exact Nat.lt_add_right n (h.least i hearly)
    · obtain ⟨j, rfl⟩ := Nat.exists_eq_add_of_le hlate
      rw [dueIn_add, h.dueIn_eq]
      exact Nat.add_lt_add_left (h'.least j (by omega)) m

theorem unique (h : Takes c n s) (h' : Takes c n t) : s = t := by
  obtain hlt | heq | hlt := Nat.lt_trichotomy s t
  · exact absurd h.dueIn_eq (Nat.ne_of_lt (h'.least s hlt))
  · exact heq
  · exact absurd h'.dueIn_eq (Nat.ne_of_lt (h.least t hlt))

theorem exists_le (h : n ≤ c.dueIn t) : ∃ s ≤ t, Takes c n s := by
  induction t with
  | zero =>
    obtain rfl : n = 0 := Nat.le_zero.mp h
    exact ⟨0, Nat.le_refl 0, zero c⟩
  | succ t ih =>
    obtain hlate | hearly := Nat.lt_or_ge (c.dueIn t) n
    · have hstep : c.dueIn (t + 1) ≤ c.dueIn t + 1 := by
        rw [dueIn, dueIn, Nat.count_succ]
        split_ifs <;> omega
      refine ⟨t + 1, Nat.le_refl _, ⟨by omega, fun i hi => ?_⟩⟩
      have hmono : c.dueIn i ≤ c.dueIn t := Nat.count_monotone _ (Nat.le_of_lt_succ hi)
      exact Nat.lt_of_le_of_lt hmono hlate
    · obtain ⟨s, hs, htakes⟩ := ih hearly
      exact ⟨s, Nat.le_succ_of_le hs, htakes⟩

theorem one (h : c.tick.1 = true) : Takes c 1 1 where
  dueIn_eq := by
    rw [dueIn_succ, h]
    rfl
  least i hi := by
    obtain rfl : i = 0 := Nat.lt_one_iff.mp hi
    exact Nat.one_pos

theorem succ_iff (hn : 0 < n) (h : c.tick.1 = false) :
    Takes c n (t + 1) ↔ Takes c.tick.2 n t := by
  have hdue (i : Nat) : c.dueIn (i + 1) = c.tick.2.dueIn i := by
    rw [dueIn_succ, h]
    rfl
  constructor
  · intro hc
    refine ⟨(hdue t).symm.trans hc.dueIn_eq, fun i hi => ?_⟩
    rw [← hdue]
    exact hc.least (i + 1) (Nat.succ_lt_succ hi)
  · intro hc
    refine ⟨(hdue t).trans hc.dueIn_eq, fun i hi => ?_⟩
    cases i with
    | zero => exact hn
    | succ i =>
      rw [hdue]
      exact hc.least i (Nat.lt_of_succ_lt_succ hi)

end Takes

/-! The search for the next sample. -/

theorem runToSample?_takes (h : c.runToSample? = some d) : ∃ t, Takes c 1 t ∧ d = c.ticked t := by
  refine runToSample?.partial_correctness (fun c d => ∃ t, Takes c 1 t ∧ d = c.ticked t) ?_ c d h
  intro search ih c d h
  dsimp only at h
  split_ifs at h with hdue
  · exact ⟨1, .one hdue, (Option.some.inj h).symm⟩
  · obtain ⟨t, htakes, rfl⟩ := ih _ _ h
    have hnone : c.tick.1 = false := Bool.eq_false_iff.mpr hdue
    exact ⟨t + 1, (Takes.succ_iff Nat.one_pos hnone).mpr htakes, rfl⟩

theorem runToSample?_of_takes (h : Takes c 1 t) : c.runToSample? = some (c.ticked t) := by
  induction t generalizing c with
  | zero => exact absurd h.dueIn_eq Nat.zero_ne_one
  | succ t ih =>
    rw [runToSample?]
    cases hdue : c.tick.1 with
    | true =>
      rw [h.unique (.one hdue)]
      rfl
    | false => exact ih ((Takes.succ_iff Nat.one_pos hdue).mp h)

end Due

def frameOf (c : Console) : Array UInt8 := (stereo c.bus.apu.sample).toArray

theorem size_frameOf (c : Console) : c.frameOf.size = 4 := rfl

section Append
variable (c : Console) (out : Array UInt8)

theorem appendSamples?_succ (n : Nat) : c.appendSamples? out (n + 1) =
    c.runToSample?.bind fun d => d.appendSamples? (out ++ d.frameOf) n := by
  have hframe (d : Console) : out ++ d.frameOf = out ++ stereo d.bus.apu.sample := by
    apply Array.toList_inj.mp
    rw [Array.toList_append, Array.toList_appendList, frameOf]
  simp only [hframe]
  rfl

theorem appendSamples?_eq (n : Nat) : c.appendSamples? out n =
    (c.appendSamples? #[] n).map fun x => (out ++ x.1, x.2) := by
  induction n generalizing c out with
  | zero => rw [appendSamples?, appendSamples?, Option.map_some, Array.append_empty]
  | succ n ih =>
    rw [appendSamples?_succ, appendSamples?_succ, Option.map_bind]
    congr 1
    funext d
    rw [Function.comp_apply, ih, ih d (#[] ++ d.frameOf), Option.map_map, Array.empty_append]
    simp only [Function.comp_def, Array.append_assoc]

theorem appendSamples?_add (m n : Nat) : c.appendSamples? out (m + n) =
    (c.appendSamples? out m).bind fun x => x.2.appendSamples? x.1 n := by
  induction m generalizing c out with
  | zero => rw [Nat.zero_add, appendSamples?, Option.bind_some]
  | succ m ih =>
    rw [Nat.succ_add, appendSamples?_succ, appendSamples?_succ, Option.bind_assoc]
    congr 1
    funext d
    exact ih d _

end Append

theorem appendSamples?_cases {c d : Console} {out : Array UInt8} {n : Nat}
    (h : c.appendSamples? #[] (n + 1) = some (out, d)) : ∃ e rest, c.runToSample? = some e ∧
      e.appendSamples? #[] n = some (rest, d) ∧ out = e.frameOf ++ rest := by
  rw [appendSamples?_succ, Option.bind_eq_some_iff] at h
  obtain ⟨e, he, h⟩ := h
  rw [appendSamples?_eq, Option.map_eq_some_iff] at h
  obtain ⟨⟨rest, d'⟩, hrest, h⟩ := h
  obtain ⟨hout, rfl⟩ := Prod.mk.inj h
  exact ⟨e, rest, he, hrest, hout.symm.trans (by rw [Array.empty_append])⟩

/-- The frames are the mixes after the fewest ticks in which the samples come due. -/
structure Appended (c : Console) (n : Nat) (out : Array UInt8) (d : Console) : Prop where
  reached : ∃ t, Takes c n t ∧ d = c.ticked t
  size_eq : out.size = 4 * n
  frame : ∀ k < n, ∃ t, Takes c (k + 1) t ∧
    out.extract (4 * k) (4 * k + 4) = (c.ticked t).frameOf

theorem appended {c d : Console} {out : Array UInt8} {n : Nat}
    (h : c.appendSamples? #[] n = some (out, d)) : Appended c n out d := by
  induction n generalizing c out with
  | zero =>
    obtain ⟨rfl, rfl⟩ := Prod.mk.inj (Option.some.inj h)
    exact ⟨⟨0, .zero c, rfl⟩, rfl, fun k hk => absurd hk (Nat.not_lt_zero k)⟩
  | succ n ih =>
    obtain ⟨e, rest, he, hrest, rfl⟩ := appendSamples?_cases h
    obtain ⟨s, hs, rfl⟩ := runToSample?_takes he
    obtain ⟨⟨t, ht, rfl⟩, hsize, hframe⟩ := ih hrest
    have hlater {k j : Nat} (hj : Takes (c.ticked s) k j) : Takes c (k + 1) (s + j) := by
      rw [Nat.add_comm k]
      exact hs.trans hj
    refine ⟨⟨s + t, hlater ht, (c.ticked_add s t).symm⟩, ?_, fun k hk => ?_⟩
    · rw [Array.size_append, size_frameOf, hsize]
      omega
    · rw [Array.extract_append, size_frameOf]
      cases k with
      | zero =>
        have hfirst : (c.ticked s).frameOf.extract 0 4 = (c.ticked s).frameOf := Array.extract_size
        exact ⟨s, hs, by rw [hfirst, Array.extract_zero, Array.append_empty]⟩
      | succ k =>
        obtain ⟨j, hj, hframe⟩ := hframe k (Nat.lt_of_succ_lt_succ hk)
        have hpast : (c.ticked s).frameOf.extract (4 * (k + 1)) (4 * (k + 1) + 4) = #[] :=
          Array.extract_empty_of_size_le_start (by rw [size_frameOf]; omega)
        refine ⟨s + j, hlater hj, ?_⟩
        rw [hpast, Array.empty_append, Nat.mul_succ, Nat.add_sub_cancel, ticked_add, ← hframe]
        rfl

theorem appendSamples?_some {c : Console} {n t : Nat} (h : n ≤ c.dueIn t) (out : Array UInt8) :
    ∃ x, c.appendSamples? out n = some x := by
  induction n generalizing c t out with
  | zero => exact ⟨_, rfl⟩
  | succ n ih =>
    obtain ⟨s, hs, htakes⟩ := Takes.exists_le (c := c) (n := 1) (t := t) (by omega)
    have hrest : n ≤ (c.ticked s).dueIn (t - s) := by
      have hadd := c.dueIn_add s (t - s)
      rw [Nat.add_sub_of_le hs, htakes.dueIn_eq] at hadd
      omega
    rw [appendSamples?_succ, runToSample?_of_takes htakes]
    exact ih hrest _

/-! Buffers. -/

/-- What a read leaves in a buffer. -/
structure Filled (c : Console) (buffer : Array UInt8) (n : Nat) (filled : Array UInt8)
    (d : Console) : Prop where
  reached : ∃ t, Takes c (buffer.size / 4) t ∧ d = c.ticked t
  count : n = 4 * (buffer.size / 4)
  size_eq : filled.size = buffer.size
  rest : ∀ i, n ≤ i → filled[i]? = buffer[i]?
  /-- A sample goes to both channels, its low byte first. -/
  frame : ∀ k < buffer.size / 4, ∃ t lo hi, Takes c (k + 1) t ∧
    lo.toNat + 256 * hi.toNat = (c.ticked t).bus.apu.sample.toUInt16.toNat ∧
    filled.extract (4 * k) (4 * k + 4) = #[lo, hi, lo, hi]

theorem Filled.eq_append {c d : Console} {buffer out : Array UInt8} {n : Nat}
    (h : Filled c buffer n out d) : out = out.extract 0 n ++ buffer.extract n := by
  have hn : n ≤ out.size := by
    rw [h.count, h.size_eq]
    omega
  have hfront : (out.extract 0 n).size = n := by
    rw [Array.size_extract]
    omega
  apply Array.ext_getElem?
  intro i
  obtain hearly | hlate := Nat.lt_or_ge i n
  · rw [Array.getElem?_append_left (by omega), Array.getElem?_extract, if_pos (by omega),
      Nat.zero_add]
  · rw [Array.getElem?_append_right (by omega), hfront, h.rest i hlate,
      Array.getElem?_extract, Nat.add_sub_of_le hlate]
    split_ifs with hin
    · rfl
    · exact Array.getElem?_eq_none (by omega)

theorem readSamples?_eq (c : Console) (buffer : Array UInt8) : c.readSamples? buffer =
    (c.appendSamples? #[] (buffer.size / 4)).map fun x =>
      (4 * (buffer.size / 4), x.1 ++ buffer.extract (4 * (buffer.size / 4)), x.2) := by
  unfold readSamples?
  dsimp only
  cases c.appendSamples? #[] (buffer.size / 4) <;> rfl

theorem filled {c d : Console} {buffer out : Array UInt8} {n : Nat}
    (h : c.readSamples? buffer = some (n, out, d)) : Filled c buffer n out d := by
  rw [readSamples?_eq, Option.map_eq_some_iff] at h
  obtain ⟨⟨frames, d'⟩, happend, h⟩ := h
  rw [Prod.mk.injEq, Prod.mk.injEq] at h
  obtain ⟨rfl, rfl, rfl⟩ := h
  obtain ⟨hreached, hsize, hframe⟩ := appended happend
  refine ⟨hreached, rfl, ?_, fun i hi => ?_, fun k hk => ?_⟩
  · rw [Array.size_append, Array.size_extract, hsize]
    omega
  · rw [Array.getElem?_append_right (hsize ▸ hi), Array.getElem?_extract, hsize]
    split_ifs with hin
    · congr 1
      omega
    · rw [Array.getElem?_eq_none (by omega)]
  · obtain ⟨t, ht, hbytes⟩ := hframe k hk
    refine ⟨t, Byte.low (c.ticked t).bus.apu.sample.toUInt16,
      Byte.high (c.ticked t).bus.apu.sample.toUInt16, ht, ?_, ?_⟩
    · rw [Byte.toNat_low, Byte.toNat_high]
      exact Nat.mod_add_div _ _
    · have hpast : (buffer.extract (4 * (buffer.size / 4))).extract (4 * k - frames.size)
          (4 * k + 4 - frames.size) = #[] := Array.extract_eq_empty_of_le (by omega)
      rw [Array.extract_append, hbytes, hpast, Array.append_empty]
      rfl

/-- A read comes to its end just where enough samples come due. -/
theorem readSamples?_some_iff {c : Console} {buffer : Array UInt8} :
    (∃ x, c.readSamples? buffer = some x) ↔ ∃ t, buffer.size / 4 ≤ c.dueIn t := by
  constructor
  · rintro ⟨⟨n, out, d⟩, h⟩
    obtain ⟨t, htakes, -⟩ := (filled h).reached
    exact ⟨t, Nat.le_of_eq htakes.dueIn_eq.symm⟩
  · rintro ⟨t, ht⟩
    obtain ⟨x, hx⟩ := appendSamples?_some ht #[]
    exact ⟨_, by rw [readSamples?_eq, hx, Option.map_some]⟩

theorem extract_front {out : Array UInt8} {n : Nat} (h : out.size = n) (rest : Array UInt8) :
    (out ++ rest).extract 0 n = out := by
  rw [← h, Array.extract_append_left, Array.extract_size]

/-- Two reads give what one read of all their frames gives. -/
theorem readSamples?_pieces (c : Console) (first second whole : Array UInt8)
    (hsize : whole.size = 4 * (first.size / 4 + second.size / 4)) : c.readSamples? whole =
      (c.readSamples? first).bind fun (n, x, d) => (d.readSamples? second).map fun (m, y, e) =>
        (n + m, x.extract 0 n ++ y.extract 0 m, e) := by
  have hframes : whole.size / 4 = first.size / 4 + second.size / 4 := by omega
  have hnone : whole.extract (4 * (first.size / 4 + second.size / 4)) = #[] :=
    Array.extract_empty_of_size_le_start (by omega)
  simp only [readSamples?_eq, hframes, hnone, appendSamples?_add]
  cases hfirst : c.appendSamples? #[] (first.size / 4) with
  | none => rfl
  | some x =>
    obtain ⟨x, d⟩ := x
    have hx := (appended hfirst).size_eq
    simp only [Option.bind_some, Option.map_some, Option.map_map]
    rw [appendSamples?_eq]
    cases hsecond : d.appendSamples? #[] (second.size / 4) with
    | none => rfl
    | some y =>
      obtain ⟨y, e⟩ := y
      have hy := (appended hsecond).size_eq
      simp only [Option.map_some, Function.comp_apply, extract_front hx, extract_front hy,
        Array.append_empty, Nat.mul_add]

theorem readSamples?_pieces_some {c : Console} {first second whole : Array UInt8} {t : Nat}
    (hsize : whole.size = 4 * (first.size / 4 + second.size / 4))
    (hdue : first.size / 4 + second.size / 4 ≤ c.dueIn t) : ∃ x d y e,
      c.readSamples? first = some (4 * (first.size / 4), x, d) ∧
      d.readSamples? second = some (4 * (second.size / 4), y, e) ∧
      c.readSamples? whole = some (4 * (first.size / 4) + 4 * (second.size / 4),
        x.extract 0 (4 * (first.size / 4)) ++ y.extract 0 (4 * (second.size / 4)), e) := by
  have hframes : whole.size / 4 = first.size / 4 + second.size / 4 := by omega
  obtain ⟨z, hwhole⟩ := readSamples?_some_iff.mpr ⟨t, hframes ▸ hdue⟩
  have hpieces := (c.readSamples?_pieces first second whole hsize).symm.trans hwhole
  obtain ⟨⟨n, x, d⟩, hfirst, hpieces⟩ := Option.bind_eq_some_iff.mp hpieces
  obtain ⟨⟨m, y, e⟩, hsecond, rfl⟩ := Option.map_eq_some_iff.mp hpieces
  obtain rfl := (filled hfirst).count
  obtain rfl := (filled hsecond).count
  exact ⟨x, d, y, e, hfirst, hsecond, hwhole⟩

end Famicom.Console
