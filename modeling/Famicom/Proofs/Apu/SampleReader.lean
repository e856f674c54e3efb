import Famicom.Proofs.Apu.WellFormed
import Famicom.Proofs.Console.SoundEvents

/-! The addresses that the delta channel reads. A sample is told by the registers as they were last
written; from the moment it is started the reader walks it byte by byte, whenever bytes are asked
for and however late they come, and never leaves cartridge ROM. -/
namespace Famicom.Apu

@[ext] structure Sample where
  start : Nat
  length : Nat
  loop : Bool
  irq : Bool

namespace Sample

def ofRegisters (control address length : UInt8) : Sample where
  start := 0xC000 + 64 * address.toNat
  length := 16 * length.toNat + 1
  loop := Byte.has control 0x40
  irq := Byte.has control 0x80

variable (p : Sample)

/-- The address of byte `i`. After the last address comes the first of cartridge ROM. -/
def byteAddress (i : Nat) : Nat :=
  if p.start + i ≤ 0xFFFF then p.start + i else p.start + i - 0x8000

def place (n : Nat) : Nat := if p.loop then n % p.length else n

def remains (n : Nat) : Bool := p.loop || decide (n < p.length)

def interrupts (n : Nat) : Bool := !p.loop && p.irq && n == p.length

structure Bounded : Prop where
  start_le : p.start ≤ 0xFFC0
  length_pos : 0 < p.length
  length_le : p.length ≤ 0xFF1

theorem ofRegisters_bounded (control address length : UInt8) :
    (ofRegisters control address length).Bounded := by
  have haddress := address.toNat_lt
  have hlength := length.toNat_lt
  constructor <;> simp only [ofRegisters] <;> omega

variable {p} {n : Nat}

theorem place_zero : p.place 0 = 0 := by
  unfold place
  split_ifs
  · exact Nat.zero_mod _
  · rfl

theorem remains_iff (hp : p.Bounded) : p.remains n = true ↔ p.place n < p.length := by
  cases hloop : p.loop with
  | false => simp [remains, place, hloop]
  | true => simp [remains, place, hloop, Nat.mod_lt _ hp.length_pos]

theorem interrupts_midway (h : p.place n < p.length) : p.interrupts n = false := by
  cases hloop : p.loop with
  | false =>
    have hn : n ≠ p.length := by
      simp only [place, hloop, Bool.false_eq_true, if_false] at h
      exact Nat.ne_of_lt h
    simp [interrupts, hn]
  | true => simp [interrupts, hloop]

theorem interrupts_last (hloop : p.loop = false) (h : p.place n = p.length) :
    p.interrupts n = p.irq := by
  simp only [place, hloop, Bool.false_eq_true, if_false] at h
  simp [interrupts, hloop, h]

theorem byteAddress_zero (hp : p.Bounded) : p.byteAddress 0 = p.start := by
  have hstart := hp.start_le
  rw [byteAddress, if_pos (by omega), Nat.add_zero]

theorem byteAddress_succ (hp : p.Bounded) {i : Nat} (h : i < p.length) :
    p.byteAddress (i + 1) =
      if p.byteAddress i = 0xFFFF then 0x8000 else p.byteAddress i + 1 := by
  obtain ⟨hstart, -, hlength⟩ := hp
  unfold byteAddress
  by_cases hlow : p.start + i ≤ 0xFFFF
  · rw [if_pos hlow]
    split_ifs <;> omega
  · rw [if_neg hlow, if_neg (by omega), if_neg (by omega)]
    omega

theorem place_succ (h : p.place n + 1 < p.length) : p.place (n + 1) = p.place n + 1 := by
  unfold place at *
  split_ifs with hloop
  · rw [if_pos hloop] at h
    rw [← Nat.mod_add_mod, Nat.mod_eq_of_lt h]
  · rfl

theorem place_last (h : p.place n + 1 = p.length) :
    p.place (n + 1) = if p.loop then 0 else p.length := by
  unfold place at *
  split_ifs with hloop
  · rw [if_pos hloop] at h
    rw [← Nat.mod_add_mod, h, Nat.mod_self]
  · rwa [if_neg hloop] at h

end Sample

namespace Dmc

def sample (d : Dmc) : Sample where
  start := d.sampleAddress.toNat
  length := d.sampleLength
  loop := d.loop
  irq := d.irqEnabled

/-- `n` bytes of sample `p` have been read. -/
structure Reads (p : Sample) (d : Dmc) (n : Nat) : Prop where
  sample_eq : d.sample = p
  address_eq : d.address.toNat = p.byteAddress (p.place n)
  place_le : p.place n ≤ p.length
  remaining_eq : d.remaining = p.length - p.place n
  irq_eq : d.irq = p.interrupts n

theorem clockTimer_eq (d : Dmc) : ∃ timer level shift bits silent bufferEmpty,
    d.clockTimer = { d with timer, level, shift, bits, silent, bufferEmpty } := by
  unfold clockTimer
  dsimp only
  split_ifs <;> exact ⟨_, _, _, _, _, _, rfl⟩

namespace Reads
variable {p : Sample} {d : Dmc} {n : Nat}

theorem clockTimer (h : Reads p d n) : Reads p d.clockTimer n := by
  obtain ⟨_, _, _, _, _, _, hclock⟩ := d.clockTimer_eq
  rw [hclock]
  exact ⟨h.sample_eq, h.address_eq, h.place_le, h.remaining_eq, h.irq_eq⟩

theorem active_iff (h : Reads p d n) : d.active = true ↔ p.place n < p.length := by
  rw [active, bne_iff_ne, h.remaining_eq]
  exact Nat.sub_ne_zero_iff_lt

theorem wants_eq (hp : p.Bounded) (h : Reads p d n) :
    d.wants = (d.bufferEmpty && p.remains n) := by
  rw [wants, Bool.eq_iff_iff.mpr (h.active_iff.trans (p.remains_iff hp).symm)]

theorem restart (hp : p.Bounded) (hsample : d.sample = p) (hplace : p.place n = 0)
    (hirq : d.irq = false) : Reads p d.restart n := by
  subst hsample
  refine ⟨rfl, ?_, ?_, ?_, ?_⟩
  · rw [hplace, d.sample.byteAddress_zero hp]
    rfl
  · rw [hplace]
    exact Nat.zero_le _
  · rw [hplace]
    rfl
  · exact hirq.trans (d.sample.interrupts_midway (hplace ▸ hp.length_pos)).symm

theorem deliver (hp : p.Bounded) (h : Reads p d n) (hwants : d.wants = true) (v : UInt8) :
    Reads p (d.deliver v) (n + 1) := by
  obtain rfl := h.sample_eq
  have hplace := h.active_iff.mp (Bool.and_eq_true_iff.mp hwants).2
  have hremaining := h.remaining_eq
  have hirq := h.irq_eq.trans (d.sample.interrupts_midway hplace)
  have hnext : (if d.address = 0xFFFF then 0x8000 else d.address + 1 : UInt16).toNat =
      d.sample.byteAddress (d.sample.place n + 1) := by
    rw [toNat_next, h.address_eq, d.sample.byteAddress_succ hp hplace]
  rw [Dmc.deliver, if_pos hwants]
  dsimp only
  by_cases hlast : d.sample.place n + 1 = d.sample.length
  · have hplace' := d.sample.place_last hlast
    rw [if_neg (by omega)]
    by_cases hloop : d.loop = true
    · rw [if_pos hloop]
      exact restart hp rfl (hplace'.trans (if_pos hloop)) hirq
    · replace hplace' := hplace'.trans (if_neg hloop)
      rw [if_neg hloop]
      refine ⟨rfl, ?_, by omega, by dsimp only; omega, ?_⟩
      · rw [hplace', ← hlast]
        exact hnext
      · rw [d.sample.interrupts_last (Bool.eq_false_iff.mpr hloop) hplace', hirq]
        rfl
  · have hmore : d.sample.place n + 1 < d.sample.length := Nat.lt_of_le_of_ne hplace hlast
    have hplace' := d.sample.place_succ hmore
    rw [if_pos (by omega)]
    exact ⟨rfl, by rw [hplace', hnext], by omega, by dsimp only; omega,
      hirq.trans (d.sample.interrupts_midway (by omega)).symm⟩

theorem setEnabled (hp : d.sample.Bounded) (h : d.active = false) :
    Reads d.sample (d.setEnabled true) 0 := by
  have hremaining : d.remaining = 0 := by simpa [active] using h
  have hset : d.setEnabled true = { d with irq := false }.restart := by
    simp [Dmc.setEnabled, hremaining]
  rw [hset]
  exact restart hp rfl Sample.place_zero rfl

end Reads
end Dmc

/-! The registers. -/

def sampleOf (es : List Event) : Sample :=
  .ofRegisters (register es 0x4010) (register es 0x4012) (register es 0x4013)

theorem sampleOf_quiet (es : List Event) {e : Event} (h : e.isWrite = false) :
    sampleOf (es ++ [e]) = sampleOf es := by
  cases e with
  | write a v => cases h
  | clock | readStatus | deliver | takeSample =>
    simp only [sampleOf, register_snoc]
    rfl

theorem sample_run (es : List Event) : (run {} es).dmc.sample = sampleOf es := by
  induction es using List.reverseRecOn with
  | nil => rfl
  | append_singleton es e ih =>
    rw [run_snoc]
    generalize run {} es = s at ih ⊢
    cases e with
    | write a v =>
      have hstart := congrArg Sample.start ih
      have hlength := congrArg Sample.length ih
      have hloop := congrArg Sample.loop ih
      have hirq := congrArg Sample.irq ih
      rw [after, write_dmc, sampleOf, register_snoc, register_snoc, register_snoc]
      by_cases h10 : a = 0x4010
      · subst h10
        exact Sample.ext hstart hlength rfl rfl
      by_cases h12 : a = 0x4012
      · subst h12
        exact Sample.ext (Dmc.toNat_sampleAddress v) hlength hloop hirq
      by_cases h13 : a = 0x4013
      · subst h13
        exact Sample.ext hstart (congrArg (· + 1) (Nat.mul_comm _ _)) hloop hirq
      simp only [Event.written?, h10, h12, h13, if_false, Option.getD_none]
      split_ifs
      · exact ih
      · obtain ⟨_, _, _, hset⟩ := s.dmc.setEnabled_eq (Byte.has v 0x10)
        rw [hset]
        exact ih
      · exact ih
    | clock =>
      obtain ⟨_, _, _, _, _, _, hclock⟩ := s.dmc.clockTimer_eq
      rw [sampleOf_quiet es rfl, after, clock_dmc, hclock]
      exact ih
    | deliver v =>
      rw [sampleOf_quiet es rfl, ← ih]
      by_cases hwants : s.dmc.wants = true
      · obtain ⟨_, _, _, hdeliver⟩ := Dmc.deliver_wanted hwants v
        rw [after, Apu.deliver, hdeliver]
        rfl
      · rw [after, Apu.deliver, Dmc.deliver_unwanted hwants]
    | readStatus | takeSample =>
      rw [sampleOf_quiet es rfl]
      exact ih

/-! Fetches. -/

/-- The address whose byte is delivered, if it was asked for. -/
def fetch? (s : Apu) : Event → Option UInt16
  | .deliver _ => if s.dmc.wants then some s.dmc.address else none
  | .write .. | .clock | .readStatus | .takeSample => none

def fetches (s : Apu) : List Event → List UInt16
  | [] => []
  | e :: es => (s.fetch? e).toList ++ (s.after e).fetches es

theorem fetches_snoc (s : Apu) (es : List Event) (e : Event) :
    s.fetches (es ++ [e]) = s.fetches es ++ ((s.run es).fetch? e).toList := by
  induction es generalizing s with
  | nil => exact List.append_nil _
  | cons e' es ih => rw [List.cons_append, fetches, fetches, ih, List.append_assoc]; rfl

theorem reads_run {p : Sample} {s : Apu} {n : Nat} (hp : p.Bounded) (hs : s.dmc.Reads p n)
    {es : List Event} (hquiet : ∀ e ∈ es, e.isWrite = false) :
    (s.run es).dmc.Reads p (n + (s.fetches es).length) ∧
    (s.fetches es).map (·.toNat) =
      (List.range (s.fetches es).length).map fun i => p.byteAddress (p.place (n + i)) := by
  induction es using List.reverseRecOn with
  | nil => exact ⟨hs, rfl⟩
  | append_singleton es e ih =>
    obtain ⟨hreads, hfetches⟩ := ih fun e he => hquiet e (List.mem_append_left _ he)
    have he : e.isWrite = false := hquiet e (List.mem_append_right _ (List.mem_singleton_self e))
    rw [run_snoc, fetches_snoc]
    generalize s.fetches es = fetched at hreads hfetches ⊢
    generalize s.run es = t at hreads ⊢
    cases e with
    | write a v => cases he
    | clock =>
      rw [after, clock_dmc, fetch?, Option.toList_none, List.append_nil]
      exact ⟨hreads.clockTimer, hfetches⟩
    | readStatus | takeSample =>
      rw [fetch?, Option.toList_none, List.append_nil]
      exact ⟨hreads, hfetches⟩
    | deliver v =>
      rw [after, Apu.deliver, fetch?]
      by_cases hwants : t.dmc.wants = true
      · rw [if_pos hwants, Option.toList_some, List.length_append, List.length_singleton,
          List.map_append, hfetches, List.range_succ, List.map_append, List.map_singleton,
          List.map_singleton, hreads.address_eq]
        exact ⟨hreads.deliver hp hwants v, rfl⟩
      · rw [if_neg hwants, Dmc.deliver_unwanted hwants, Option.toList_none, List.append_nil]
        exact ⟨hreads, hfetches⟩

/-! The processor's part. -/

/-- The byte comes from cartridge ROM, where nothing notices a read. -/
theorem serveDmc_eq {b : Bus} (h : Follows {} b.apu) :
    b.serveDmc = (b.apu.dmc.address, { b with
      openBus := b.peek b.apu.dmc.address
      apu := { b.apu with dmc := b.apu.dmc.deliver (b.peek b.apu.dmc.address) } }) := by
  obtain ⟨es, hes⟩ := h
  have haddress : 0x8000 ≤ b.apu.dmc.address.toNat := hes ▸ (wellFormed_run es).dmc.address_ge
  have hcartridge : (0x4020 : UInt16) ≤ b.apu.dmc.address :=
    UInt16.le_iff_toNat_le.mpr (Nat.le_trans (by decide) haddress)
  have hread : b.read b.apu.dmc.address =
      (b.peek b.apu.dmc.address, { b with openBus := b.peek b.apu.dmc.address }) := by
    rw [← b.read_fst]
    exact Prod.ext rfl (b.read_cartridge hcartridge)
  rw [Bus.serveDmc, hread]
  rfl

/-- From the moment a sample is started, and as long as no register is written, the addresses that
are fetched are those of its bytes in order, over and over if there is a loop. A byte is asked for
whenever the buffer is empty and the sample goes on; at the end of one without a loop an interrupt
is asked for, if that is enabled, and no byte ever again. At any time the byte comes from cartridge
ROM, so that fetching it changes only the channel and the value on the bus. -/
theorem sample_walked (before after : List Event) (enable : UInt8)
    (henable : Byte.has enable 0x10 = true) (hidle : (run {} before).dmc.active = false)
    (hquiet : ∀ e ∈ after, e.isWrite = false) :
    let p := sampleOf before
    let s := (run {} before).write 0x4015 enable
    let fetched := s.fetches after
    let d := (s.run after).dmc
    (fetched.map (·.toNat) = (List.range fetched.length).map fun i => p.byteAddress (p.place i)) ∧
    d.wants = (d.bufferEmpty && (p.loop || decide (fetched.length < p.length))) ∧
    d.irq = (!p.loop && p.irq && fetched.length == p.length) ∧
    (p.loop = false → fetched.length ≤ p.length) ∧
    (p.loop = false → fetched.length = p.length → ∀ later, (∀ e ∈ later, e.isWrite = false) →
      ((s.run after).run later).dmc.wants = false) ∧
    (∀ es, 0x8000 ≤ (run {} es).dmc.address.toNat) ∧
    (∀ (c : Console) (n : Nat), Follows {} (c.run n).bus.apu) ∧
    ∀ b : Bus, Follows {} b.apu →
      b.serveDmc = (b.apu.dmc.address, { b with
        openBus := b.peek b.apu.dmc.address
        apu := { b.apu with dmc := b.apu.dmc.deliver (b.peek b.apu.dmc.address) } }) := by
  intro p s fetched d
  have hp : p.Bounded := Sample.ofRegisters_bounded _ _ _
  have hsample : (run {} before).dmc.sample = p := sample_run before
  have hstart : s.dmc.Reads p 0 := by
    rw [← hsample] at hp ⊢
    rw [write_dmc]
    exact henable ▸ Dmc.Reads.setEnabled hp hidle
  obtain ⟨hreads, hfetches⟩ := reads_run hp hstart hquiet
  simp only [Nat.zero_add] at hreads hfetches
  refine ⟨hfetches, hreads.wants_eq hp, hreads.irq_eq, fun hloop => ?_,
    fun hloop hlength later hlater => ?_, fun es => (wellFormed_run es).dmc.address_ge,
    Console.apu_run, fun b => serveDmc_eq⟩
  · have hplace := hreads.place_le
    rwa [Sample.place, hloop] at hplace
  · obtain ⟨hlast, -⟩ := reads_run hp hreads hlater
    have hover : ¬fetched.length + ((s.run after).fetches later).length < p.length := by omega
    rw [hlast.wants_eq hp, Sample.remains, hloop, decide_eq_false hover]
    exact Bool.and_false _

/-- A sample of one byte at `$FFC0`, with a loop: the byte is fetched a second time when the buffer
has been emptied. -/
theorem sample_walked_again :
    let before : List Event := [.write 0x4010 0x4F, .write 0x4012 0xFF]
    let after : List Event :=
      .deliver 0xAA :: (List.replicate 379 .clock ++ [.deliver 0xAA])
    let s := (run {} before).write 0x4015 0x10
    Byte.has 0x10 0x10 = true ∧ (run {} before).dmc.active = false ∧
    (∀ e ∈ after, e.isWrite = false) ∧
    s.fetches after = [0xFFC0, 0xFFC0] ∧ (s.run after).dmc.irq = false := by
  intro before after s
  have hquiet : ∀ e ∈ after, e.isWrite = false := by decide +kernel
  have hidle : (run {} before).dmc.active = false := by decide +kernel
  have hirq := (sample_walked before after 0x10 rfl hidle hquiet).2.2.1
  have hfetches : s.fetches after = [0xFFC0, 0xFFC0] := by decide +kernel
  exact ⟨rfl, hidle, hquiet, hfetches, hirq.trans (by decide +kernel)⟩

end Famicom.Apu
