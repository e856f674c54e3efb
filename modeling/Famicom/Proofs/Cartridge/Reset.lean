import Famicom.Proofs.Cartridge.Accesses
import Famicom.Proofs.Cartridge.FixedWindows

/-! What a reset leaves of the past. Of the registers only the arrangement of nametables that an
MMC3 board was told to take; a board that takes none, or one like that of power-on, can then not be
told from a new one that holds the same bytes. -/
namespace Famicom.Cartridge

inductive Answer where
  | byte (v : Option UInt8)
  | taken (yes : Bool)
  | nothing
deriving DecidableEq

def answer (c : Cartridge) : Access → Answer
  | .cpuRead a => .byte (c.cpuRead a)
  | .cpuWrite a _ => .taken (c.cpuTakes a)
  | .ppuRead a => .byte (c.ppuRead a).1
  | .ppuWrite a _ => .taken (ppuTakes a)
  | .clock => .nothing

/-- Two cartridges that no accesses tell apart. -/
def Alike (c d : Cartridge) : Prop :=
  ∀ xs, (c.run xs).mirroring = (d.run xs).mirroring ∧ (c.run xs).irq = (d.run xs).irq ∧
    ∀ x, (c.run xs).answer x = (d.run xs).answer x

/-- The cartridge with the bytes that another has in its RAM. -/
def refilled (c d : Cartridge) : Cartridge :=
  { c with storage := {
      prgRom := c.storage.prgRom
      prgRam := d.storage.prgRam
      chr := if c.storage.chrWritable then d.storage.chr else c.storage.chr
      chrWritable := c.storage.chrWritable } }

/-! Boards that differ in the arrangement of an MMC3 chip alone. -/

namespace Board

def arrange (horizontal : Bool) : Board → Board
  | mmc3 m => mmc3 { m with horizontal }
  | b => b

section Arrange
variable (b : Board) (h : Bool) (size : Nat)

theorem arrange_arrange (h' : Bool) : (b.arrange h).arrange h' = b.arrange h' := by
  cases b <;> rfl

@[simp] theorem arrange_ramReadable : (b.arrange h).ramReadable = b.ramReadable := by
  cases b <;> rfl

@[simp] theorem arrange_ramWritable : (b.arrange h).ramWritable = b.ramWritable := by
  cases b <;> rfl

@[simp] theorem arrange_decodesRam : (b.arrange h).decodesRam = b.decodesRam := by
  cases b <;> rfl

@[simp] theorem arrange_decodesRegisters : (b.arrange h).decodesRegisters = b.decodesRegisters := by
  cases b <;> rfl

@[simp] theorem arrange_prgOffset (a : UInt16) :
    (b.arrange h).prgOffset size a = b.prgOffset size a := by cases b <;> rfl

@[simp] theorem arrange_chrOffset (a : Nat) :
    (b.arrange h).chrOffset size a = b.chrOffset size a := by cases b <;> rfl

@[simp] theorem arrange_irq : (b.arrange h).irq = b.irq := by cases b <;> rfl

@[simp] theorem arrange_observe (a : Nat) : (b.arrange h).observe a = (b.observe a).arrange h := by
  cases b <;> rfl

@[simp] theorem arrange_clock : (b.arrange h).clock = b.clock.arrange h := by cases b <;> rfl

theorem arrange_write (a : UInt16) (v : UInt8) :
    ∃ h', (b.arrange h).write size a v = (b.write size a v).arrange h' := by
  cases b with
  | mmc3 m =>
    refine ⟨(({ m with horizontal := h } : Mmc3).write a v).horizontal, congrArg mmc3 ?_⟩
    unfold Mmc3.write
    dsimp only
    split_ifs <;> rfl
  | nrom | mmc1 | uxrom | cnrom | axrom => exact ⟨h, rfl⟩

theorem exists_arrange_eq : ∃ h, b.arrange h = b := by
  cases b with
  | mmc3 m => exact ⟨m.horizontal, rfl⟩
  | nrom | mmc1 | uxrom | cnrom | axrom => exact ⟨false, rfl⟩

theorem reset_after (x : Access) :
    ∃ h, (b.after size x).reset size = (b.reset size).arrange h := by
  obtain ⟨same, hsame⟩ := (b.reset size).exists_arrange_eq
  cases x with
  | cpuRead => exact ⟨same, hsame.symm⟩
  | cpuWrite a v =>
    simp only [after]
    split_ifs
    · exact ⟨same, hsame.symm⟩
    · cases b with
      | mmc3 m => exact ⟨(m.write a v).horizontal, rfl⟩
      | nrom | mmc1 | uxrom | cnrom | axrom => exact ⟨same, rfl⟩
  | ppuRead | ppuWrite | clock => exact ⟨same, by rw [hsame]; cases b <;> rfl⟩

theorem reset_run (xs : List Access) :
    ∃ h, (b.run size xs).reset size = (b.reset size).arrange h := by
  induction xs generalizing b with
  | nil =>
    obtain ⟨same, hsame⟩ := (b.reset size).exists_arrange_eq
    exact ⟨same, hsame.symm⟩
  | cons x xs ih =>
    obtain ⟨h', hrun⟩ := ih (b.after size x)
    obtain ⟨h, hafter⟩ := b.reset_after size x
    rw [run_cons, hrun, hafter, arrange_arrange]
    exact ⟨h', rfl⟩

theorem reset_ofMapper {id : Nat} {wiring : Mirroring} {b : Board}
    (hb : ofMapper? id wiring size = some b) : b.reset size = b := by
  unfold ofMapper? at hb
  split at hb <;> cases hb <;> rfl

end Arrange
end Board

/-! Cartridges. -/

theorem load_board {image : Array UInt8} {c : Cartridge} (h : load image = .ok c) :
    Board.ofMapper? c.header.mapperId c.header.mirroring c.storage.prgRom.size = some c.board :=
  (load_iff.mp h).board_eq

theorem refilled_eq {c d : Cartridge} (h : Keeps c d) :
    c.refilled d = { d with board := c.board } := by
  have hchr : (if c.storage.chrWritable then d.storage.chr else c.storage.chr) =
      d.storage.chr := by
    split_ifs with hram
    · rfl
    · exact (h.chr_eq (Bool.eq_false_iff.mpr hram)).symm
  rw [refilled, hchr, ← h.header_eq, ← h.prgRom_eq, ← h.chrWritable_eq]

/-- After a reset, a loaded cartridge is a new one with the same bytes but for the arrangement. -/
theorem reset_eq {image : Array UInt8} {c : Cartridge} (h : load image = .ok c)
    (past : List Access) : ∃ horizontal, (c.run past).reset =
      { c.refilled (c.run past) with board := c.board.arrange horizontal } := by
  have hkeeps := keeps_run c past
  obtain ⟨horizontal, hboard⟩ := c.board.reset_run c.storage.prgRom.size past
  rw [Board.reset_ofMapper _ (load_board h)] at hboard
  rw [reset, hkeeps.prgRom_eq, board_run, hboard, refilled_eq hkeeps]
  exact ⟨horizontal, rfl⟩

/-- Two cartridges that are one but for the arrangement that an MMC3 board was told. -/
def Twins (c d : Cartridge) : Prop :=
  ∃ horizontal, d = { c with board := c.board.arrange horizontal }

namespace Twins
variable {c d : Cartridge}

theorem after (h : Twins c d) (x : Access) : Twins (c.after x) (d.after x) := by
  obtain ⟨horizontal, rfl⟩ := h
  cases x with
  | cpuRead a => exact ⟨horizontal, rfl⟩
  | cpuWrite a v =>
    obtain ⟨horizontal', hwrite⟩ :=
      c.board.arrange_write horizontal c.storage.prgRom.size a v
    simp only [Cartridge.after, cpuWrite, Board.arrange_ramWritable, hwrite]
    split_ifs
    · exact ⟨horizontal, rfl⟩
    · exact ⟨horizontal, rfl⟩
    · exact ⟨horizontal, rfl⟩
    · exact ⟨horizontal', rfl⟩
  | ppuRead a =>
    simp only [Cartridge.after, ppuRead, observe_eq, Board.arrange_observe]
    exact ⟨horizontal, rfl⟩
  | ppuWrite a v =>
    simp only [Cartridge.after, ppuWrite, observe_eq, chrWrite, Board.arrange_observe,
      Board.arrange_chrOffset]
    split_ifs <;> exact ⟨horizontal, rfl⟩
  | clock =>
    simp only [Cartridge.after, clock_eq, Board.arrange_clock]
    exact ⟨horizontal, rfl⟩

theorem run (h : Twins c d) (xs : List Access) : Twins (c.run xs) (d.run xs) := by
  induction xs generalizing c d with
  | nil => exact h
  | cons x xs ih => exact ih (h.after x)

theorem answer_eq (h : Twins c d) (x : Access) : d.answer x = c.answer x := by
  obtain ⟨horizontal, rfl⟩ := h
  cases x with
  | cpuRead a => simp [answer, cpuRead]
  | cpuWrite a v => simp [answer, cpuTakes]
  | ppuRead a => simp [answer, ppuRead, observe_eq, chrRead]
  | ppuWrite | clock => rfl

theorem irq_eq (h : Twins c d) : d.irq = c.irq := by
  obtain ⟨horizontal, rfl⟩ := h
  exact c.board.arrange_irq horizontal

theorem mirroring_eq (h : Twins c d) (hfour : c.header.fourScreen = true) :
    d.mirroring = c.mirroring := by
  obtain ⟨horizontal, rfl⟩ := h
  rw [mirroring, mirroring, if_pos hfour, if_pos hfour]

theorem alike (h : Twins c d) (hfour : c.header.fourScreen = true) : Alike d c := fun xs =>
  ⟨(h.run xs).mirroring_eq (by rw [(keeps_run c xs).header_eq, hfour]), (h.run xs).irq_eq,
    (h.run xs).answer_eq⟩

end Twins

theorem Alike.refl (c : Cartridge) : Alike c c := fun _ => ⟨rfl, rfl, fun _ => rfl⟩

theorem reset_mirroring {c : Cartridge} {m : Mmc3} (h : c.board = .mmc3 m) :
    c.reset.mirroring = c.mirroring := by
  rw [mirroring, mirroring, reset, h]
  rfl

theorem Board.mmc3_of_reset {b : Board} {size : Nat} {m : Mmc3} (h : b.reset size = .mmc3 m) :
    ∃ m', b = .mmc3 m' := by
  cases b with
  | mmc3 m' => exact ⟨m', rfl⟩
  | nrom | mmc1 | uxrom | cnrom | axrom => cases h

theorem Mmc3.arrangement_inj {m : Mmc3} {horizontal : Bool}
    (h : ({ m with horizontal } : Mmc3).mirroring = m.mirroring) : horizontal = m.horizontal := by
  unfold mirroring at h
  revert h
  cases horizontal <;> cases m.horizontal <;> simp

/-- A reset forgets all that was done to a loaded cartridge, but not the arrangement that an MMC3
board was told to take. -/
theorem reset_forgets {image : Array UInt8} {c : Cartridge} (h : load image = .ok c)
    (past : List Access) :
    (∀ xs, ((c.run past).reset.run xs).irq = ((c.refilled (c.run past)).run xs).irq ∧
      ∀ x, ((c.run past).reset.run xs).answer x =
        ((c.refilled (c.run past)).run xs).answer x) ∧
    (Alike (c.run past).reset (c.refilled (c.run past)) ↔
      ∀ m, (c.run past).board = .mmc3 m → (c.run past).mirroring = c.mirroring) := by
  have htwins : Twins (c.refilled (c.run past)) (c.run past).reset := reset_eq h past
  refine ⟨fun xs => ⟨(htwins.run xs).irq_eq, (htwins.run xs).answer_eq⟩, fun halike m hm => ?_,
    fun harranged => ?_⟩
  · rw [← reset_mirroring hm]
    exact (halike []).1
  · by_cases hfour : c.header.fourScreen = true
    · exact htwins.alike hfour
    obtain ⟨horizontal, hreset⟩ := htwins
    suffices hsame : c.board.arrange horizontal = c.board by
      rw [hreset, show (c.refilled (c.run past)).board = c.board from rfl, hsame]
      exact Alike.refl _
    cases hboard : c.board with
    | mmc3 m₀ =>
      have hchip : (c.run past).reset.board = .mmc3 { m₀ with horizontal } := by
        rw [hreset]
        exact congrArg (Board.arrange horizontal) hboard
      obtain ⟨m, hm⟩ := Board.mmc3_of_reset hchip
      have hmirroring := harranged m hm
      rw [← reset_mirroring hm, mirroring, hchip, mirroring, hboard, if_neg hfour,
        (show (c.run past).reset.header = c.header from (keeps_run c past).header_eq),
        if_neg hfour] at hmirroring
      rw [Mmc3.arrangement_inj hmirroring]
      rfl
    | nrom | mmc1 | uxrom | cnrom | axrom => rfl

/-- The arrangement is changed and changed back. In between a window of the program is switched,
both RAMs are written, and the interrupt is set up. -/
def rearranged : List Access :=
  [.cpuWrite 0xA000 0, .cpuWrite 0x8000 0x46, .cpuWrite 0x8001 2, .cpuWrite 0x6000 0x77,
    .ppuWrite 0x0123 0x55, .cpuWrite 0xC000 5, .cpuWrite 0xC001 0, .cpuWrite 0xE001 0,
    .ppuRead 0x1000, .clock, .cpuWrite 0xA000 1]

theorem reset_forgets_rearranged : load fourBanksImage = .ok fourBanks ∧
    (fourBanks.run (rearranged.take 1)).mirroring ≠ fourBanks.mirroring ∧
    (fourBanks.run rearranged).board ≠ fourBanks.board ∧
    (fourBanks.run rearranged).reset.cpuRead 0x6000 = some 0x77 ∧
    Alike (fourBanks.run rearranged).reset (fourBanks.refilled (fourBanks.run rearranged)) := by
  have hback : (fourBanks.run rearranged).mirroring = fourBanks.mirroring := by decide +kernel
  refine ⟨load_fourBanksImage, by decide, by decide +kernel, by decide +kernel, ?_⟩
  exact (reset_forgets load_fourBanksImage rearranged).2.mpr fun _ _ => hback

/-- An MMC3 board with nothing on it but character RAM, wired for horizontal pages. -/
def bareImage : Array UInt8 :=
  #[0x4E, 0x45, 0x53, 0x1A, 0, 0, 0x40, 0, 0, 0, 0, 0, 0, 0, 0, 0]

def bare : Cartridge where
  header := {
    prgBanks := 0, chrBanks := 0, mapperId := 4
    vertical := false, battery := false, trainer := false, fourScreen := false }
  storage := { prgRom := #[], chr := Array.replicate 0x2000 0, chrWritable := true }
  board := .mmc3 { horizontal := true }

theorem load_bareImage : load bareImage = .ok bare := by
  apply load_iff.mpr
  constructor
  case fits => decide
  all_goals rfl

/-- A board told to take the other arrangement keeps it, and shows it at once. -/
theorem reset_not_alike : load bareImage = .ok bare ∧
    ¬Alike (bare.run [.cpuWrite 0xA000 0]).reset
      (bare.refilled (bare.run [.cpuWrite 0xA000 0])) := by
  refine ⟨load_bareImage, fun halike => ?_⟩
  have hmirroring : Mirroring.vertical = .horizontal := (halike []).1
  cases hmirroring

end Famicom.Cartridge
