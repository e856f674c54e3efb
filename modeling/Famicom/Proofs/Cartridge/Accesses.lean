import Famicom.Cartridge
import Mathlib.Tactic.SplitIfs

/-! What reaches a cartridge: the processor's reads and writes, the accesses of the picture bus, and
the dots. The board makes its own way through them, of the memory chips it has to know the size of
the program alone; and no access alters what is in a ROM. -/
namespace Famicom.Cartridge

inductive Access where
  | cpuRead (a : UInt16)
  | cpuWrite (a : UInt16) (v : UInt8)
  | ppuRead (a : Nat)
  | ppuWrite (a : Nat) (v : UInt8)
  | clock

def after (c : Cartridge) : Access → Cartridge
  | .cpuRead _ => c
  | .cpuWrite a v => c.cpuWrite a v
  | .ppuRead a => (c.ppuRead a).2
  | .ppuWrite a v => c.ppuWrite a v
  | .clock => c.clock

def run (c : Cartridge) (xs : List Access) : Cartridge := xs.foldl after c

theorem run_cons (c : Cartridge) (x : Access) (xs : List Access) :
    c.run (x :: xs) = (c.after x).run xs := rfl

theorem run_snoc (c : Cartridge) (xs : List Access) (x : Access) :
    c.run (xs ++ [x]) = (c.run xs).after x := List.foldl_append

/-! Resets come among the accesses. -/

inductive Event where
  | access (x : Access)
  | reset

def afterEvent (c : Cartridge) : Event → Cartridge
  | .access x => c.after x
  | .reset => c.reset

def history (c : Cartridge) (es : Nat → Event) : Nat → Cartridge
  | 0 => c
  | n + 1 => (c.history es n).afterEvent (es n)

/-! What is written to the registers of the board. -/

structure RegisterWrite where
  address : UInt16
  value : UInt8

def Access.registerWrite? : Access → Option RegisterWrite
  | cpuWrite a v => if a < 0x8000 then none else some ⟨a, v⟩
  | cpuRead _ | ppuRead _ | ppuWrite _ _ | clock => none

/-! The board. -/

namespace Board

def after (b : Board) (size : Nat) : Access → Board
  | .cpuRead _ => b
  | .cpuWrite a v => if a < 0x8000 then b else b.write size a v
  | .ppuRead a | .ppuWrite a _ => b.observe a
  | .clock => b.clock

def run (b : Board) (size : Nat) (xs : List Access) : Board := xs.foldl (after · size) b

theorem run_cons (b : Board) (size : Nat) (x : Access) (xs : List Access) :
    b.run size (x :: xs) = (b.after size x).run size xs := rfl

end Board

theorem observe_eq (c : Cartridge) (a : Nat) :
    c.observe a = { c with board := c.board.observe a } := by
  obtain ⟨_, _, board⟩ := c
  cases board <;> rfl

theorem clock_eq (c : Cartridge) : c.clock = { c with board := c.board.clock } := by
  obtain ⟨_, _, board⟩ := c
  cases board <;> rfl

theorem chrWrite_board (c : Cartridge) (a : Nat) (v : UInt8) :
    (c.chrWrite a v).board = c.board := by
  unfold chrWrite
  split_ifs <;> rfl

theorem not_lt_6000 {a : UInt16} (h : ¬a < 0x8000) : ¬a < 0x6000 :=
  fun hlt => h (UInt16.lt_trans hlt (by decide))

theorem cpuRead_high (c : Cartridge) {a : UInt16} (h : 0x8000 ≤ a) : c.cpuRead a =
    some (c.storage.readPrg (c.board.prgOffset c.storage.prgRom.size a)) := by
  have h8000 : ¬a < 0x8000 := UInt16.not_lt.mpr h
  rw [cpuRead, if_neg (not_lt_6000 h8000), if_neg h8000]

theorem board_after (c : Cartridge) (x : Access) :
    (c.after x).board = c.board.after c.storage.prgRom.size x := by
  cases x with
  | cpuRead a => rfl
  | cpuWrite a v =>
    simp only [after, cpuWrite, Board.after]
    by_cases h : a < 0x8000
    · rw [if_pos h, if_pos h]
      split_ifs <;> rfl
    · rw [if_neg h, if_neg h, if_neg (not_lt_6000 h)]
  | ppuRead a =>
    simp only [after, ppuRead, observe_eq]
    rfl
  | ppuWrite a v =>
    simp only [after, ppuWrite, observe_eq, chrWrite_board]
    rfl
  | clock =>
    rw [after, clock_eq]
    rfl

/-! The memory chips. -/

theorem writeChr_rom (s : Storage) (h : s.chrWritable = false) (offset : Nat) (v : UInt8) :
    s.writeChr offset v = s := by
  rw [Storage.writeChr, dif_pos (.inl h)]

theorem writeChr_eq (s : Storage) (offset : Nat) (v : UInt8) : ∃ chr : Array UInt8,
    chr.size = s.chr.size ∧ s.writeChr offset v = { s with chr } := by
  unfold Storage.writeChr
  split_ifs
  · exact ⟨s.chr, rfl, rfl⟩
  · exact ⟨_, Array.size_set _, rfl⟩

structure Keeps (c d : Cartridge) : Prop where
  header_eq : d.header = c.header
  prgRom_eq : d.storage.prgRom = c.storage.prgRom
  chrWritable_eq : d.storage.chrWritable = c.storage.chrWritable
  chr_size_eq : d.storage.chr.size = c.storage.chr.size
  chr_eq : c.storage.chrWritable = false → d.storage.chr = c.storage.chr

namespace Keeps
variable {c d e : Cartridge}

theorem refl (c : Cartridge) : Keeps c c := ⟨rfl, rfl, rfl, rfl, fun _ => rfl⟩

theorem trans (h : Keeps c d) (h' : Keeps d e) : Keeps c e where
  header_eq := h'.header_eq.trans h.header_eq
  prgRom_eq := h'.prgRom_eq.trans h.prgRom_eq
  chrWritable_eq := h'.chrWritable_eq.trans h.chrWritable_eq
  chr_size_eq := h'.chr_size_eq.trans h.chr_size_eq
  chr_eq hrom := (h'.chr_eq (h.chrWritable_eq.trans hrom)).trans (h.chr_eq hrom)

theorem board (c : Cartridge) (b : Board) : Keeps c { c with board := b } :=
  ⟨rfl, rfl, rfl, rfl, fun _ => rfl⟩

theorem chrWrite (c : Cartridge) (a : Nat) (v : UInt8) : Keeps c (c.chrWrite a v) := by
  unfold Cartridge.chrWrite
  split_ifs
  · obtain ⟨chr, hsize, hwrite⟩ :=
      writeChr_eq c.storage (c.board.chrOffset c.storage.chr.size a) v
    rw [hwrite]
    refine ⟨rfl, rfl, rfl, hsize, fun hrom => ?_⟩
    rw [writeChr_rom _ hrom] at hwrite
    exact (congrArg Storage.chr hwrite).symm
  · exact refl c

end Keeps

theorem keeps_after (c : Cartridge) (x : Access) : Keeps c (c.after x) := by
  cases x with
  | cpuRead a => exact Keeps.refl c
  | cpuWrite a v =>
    simp only [after, cpuWrite]
    split_ifs
    · exact Keeps.refl c
    · exact ⟨rfl, rfl, rfl, rfl, fun _ => rfl⟩
    · exact Keeps.refl c
    · exact Keeps.board c _
  | ppuRead a =>
    simp only [after, ppuRead, observe_eq]
    exact Keeps.board c _
  | ppuWrite a v =>
    simp only [after, ppuWrite, observe_eq]
    exact (Keeps.board c _).trans (Keeps.chrWrite _ a v)
  | clock =>
    rw [after, clock_eq]
    exact Keeps.board c _

theorem keeps_run (c : Cartridge) (xs : List Access) : Keeps c (c.run xs) := by
  induction xs generalizing c with
  | nil => exact Keeps.refl c
  | cons x xs ih => exact (keeps_after c x).trans (ih _)

theorem keeps_history (c : Cartridge) (es : Nat → Event) (n : Nat) :
    Keeps c (c.history es n) := by
  induction n with
  | zero => exact Keeps.refl c
  | succ n ih =>
    apply ih.trans
    rw [history]
    cases es n with
    | access x => exact keeps_after _ x
    | reset => exact Keeps.board _ _

theorem board_run (c : Cartridge) (xs : List Access) :
    (c.run xs).board = c.board.run c.storage.prgRom.size xs := by
  induction xs generalizing c with
  | nil => rfl
  | cons x xs ih => rw [run_cons, ih, board_after, (keeps_after c x).prgRom_eq, Board.run_cons]

end Famicom.Cartridge
