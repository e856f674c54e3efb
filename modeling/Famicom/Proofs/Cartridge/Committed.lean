import Famicom.Proofs.Bytes
import Famicom.Proofs.Cartridge.SerialPort
import Mathlib.Data.List.Induction

/-! What the MMC1 board decodes, from the commands that reached its chip. The registers hold what
was last committed to them, and whatever the board answers is a function of the registers alone: the
windows on the program are stored, but settled again by every command. -/
namespace Famicom.Cartridge.Mmc1

inductive Register where
  | control
  | chr0
  | chr1
  | prg
deriving DecidableEq

def Register.ofAddress (a : UInt16) : Register :=
  if a < 0xA000 then control else if a < 0xC000 then chr0 else if a < 0xE000 then chr1 else prg

def Command.value? (r : Register) : Command → Option UInt8
  | commit a v => if Register.ofAddress a = r then some v else none
  | restore => none

/-- The last value committed to a register, which starts with `start`. -/
def committed (r : Register) (start : UInt8) (cs : List Command) : UInt8 :=
  (cs.filterMap (·.value? r)).getLast?.getD start

def restored (cs : List Command) : Bool :=
  (cs.rtakeWhile fun c => (c.value? .control).isNone).contains .restore

structure Registers where
  control : UInt8
  chr0 : UInt8
  chr1 : UInt8
  prg : UInt8

namespace Registers

def ofCommands (cs : List Command) : Registers where
  control :=
    if restored cs then committed .control 0x0C cs ||| 0x0C else committed .control 0x0C cs
  chr0 := committed .chr0 0 cs
  chr1 := committed .chr1 0 cs
  prg := committed .prg 0 cs

/-! What the registers select, from their numbers. -/

variable (r : Registers)

/-- The banks of 16 KiB at `$8000` and `$C000`, of `n`. -/
def windows (n : Nat) : Nat × Nat :=
  let b := r.prg.toNat % 16 % n
  match r.control.toNat / 4 % 4 with
  | 0 | 1 => (b - b % 2, min (b - b % 2 + 1) (n - 1))
  | 2 => (0, b)
  | _ => (b, n - 1)

def chrOffset (size a : Nat) : Nat :=
  if r.control.toNat / 16 % 2 = 1 then
    (if a < 0x1000 then r.chr0 else r.chr1).toNat % bankCount size 0x1000 * 0x1000 + a % 0x1000
  else r.chr0.toNat / 2 % bankCount size 0x2000 * 0x2000 + a

def mirroring : Mirroring :=
  match r.control.toNat % 4 with
  | 0 => .singleLower
  | 1 => .singleUpper
  | 2 => .vertical
  | _ => .horizontal

end Registers

/-! The last values. -/

theorem committed_commit (r : Register) (start : UInt8) (cs : List Command) (a : UInt16)
    (v : UInt8) : committed r start (cs ++ [.commit a v]) =
      if Register.ofAddress a = r then v else committed r start cs := by
  unfold committed
  rw [List.filterMap_append]
  by_cases h : Register.ofAddress a = r
  · have hsome : (Command.commit a v).value? r = some v := if_pos h
    rw [if_pos h, List.filterMap_cons_some hsome, List.filterMap_nil, List.getLast?_concat,
      Option.getD_some]
  · have hnone : (Command.commit a v).value? r = none := if_neg h
    rw [if_neg h, List.filterMap_cons_none hnone, List.filterMap_nil, List.append_nil]

theorem committed_restore (r : Register) (start : UInt8) (cs : List Command) :
    committed r start (cs ++ [.restore]) = committed r start cs := by
  unfold committed
  rw [List.filterMap_append, List.filterMap_cons_none rfl, List.filterMap_nil, List.append_nil]

theorem restored_commit (cs : List Command) (a : UInt16) (v : UInt8) :
    restored (cs ++ [.commit a v]) = (Register.ofAddress a != .control && restored cs) := by
  unfold restored
  rw [List.rtakeWhile_concat]
  by_cases h : Register.ofAddress a = .control <;> simp [Command.value?, h]

theorem restored_restore (cs : List Command) : restored (cs ++ [.restore]) = true := by
  unfold restored
  rw [List.rtakeWhile_concat]
  simp [Command.value?]

def registers (m : Mmc1) : Registers := ⟨m.control, m.chr0, m.chr1, m.prg⟩

theorem registers_commit (m : Mmc1) (banks : Nat) (a : UInt16) (v : UInt8) :
    (m.commit banks a v).registers =
      match Register.ofAddress a with
      | .control => { m.registers with control := v }
      | .chr0 => { m.registers with chr0 := v }
      | .chr1 => { m.registers with chr1 := v }
      | .prg => { m.registers with prg := v } := by
  unfold commit Register.ofAddress
  split_ifs <;> rfl

theorem ofCommands_commit (cs : List Command) (a : UInt16) (v : UInt8) :
    Registers.ofCommands (cs ++ [.commit a v]) =
      match Register.ofAddress a with
      | .control => { Registers.ofCommands cs with control := v }
      | .chr0 => { Registers.ofCommands cs with chr0 := v }
      | .chr1 => { Registers.ofCommands cs with chr1 := v }
      | .prg => { Registers.ofCommands cs with prg := v } := by
  simp only [Registers.ofCommands, committed_commit, restored_commit]
  cases Register.ofAddress a <;> simp

theorem ofCommands_restore (cs : List Command) : Registers.ofCommands (cs ++ [.restore]) =
    { Registers.ofCommands cs with control := (Registers.ofCommands cs).control ||| 0x0C } := by
  simp only [Registers.ofCommands, committed_restore, restored_restore, if_true]
  split_ifs
  · rw [UInt8.or_assoc, UInt8.or_self]
  · rfl

theorem registers_obeys (banks : Nat) (cs : List Command) :
    (obeys banks (powerOn banks) cs).registers = Registers.ofCommands cs := by
  induction cs using List.reverseRecOn with
  | nil => rfl
  | append_singleton cs c ih =>
    rw [obeys_append]
    cases c with
    | commit a v =>
      rw [ofCommands_commit, ← ih]
      exact registers_commit _ banks a v
    | restore =>
      rw [ofCommands_restore, ← ih]
      rfl

theorem windows_settle (m : Mmc1) (banks : Nat) :
    (m.settle banks).windows = (m.settle banks).selected banks := rfl

theorem windows_obeys (banks : Nat) (cs : List Command) :
    (obeys banks (powerOn banks) cs).windows =
      (obeys banks (powerOn banks) cs).selected banks := by
  induction cs using List.reverseRecOn with
  | nil => exact windows_settle {} banks
  | append_singleton cs c ih =>
    rw [obeys_append]
    cases c <;> exact windows_settle _ banks

/-! The registers as numbers. -/

theorem toNat_bank (v : UInt8) : (v &&& 0x0F).toNat = v.toNat % 16 := by
  rw [UInt8.toNat_and]
  exact Nat.and_two_pow_sub_one_eq_mod _ 4

theorem toNat_low_two (v : UInt8) : (v &&& 3).toNat = v.toNat % 4 := by
  rw [UInt8.toNat_and]
  exact Nat.and_two_pow_sub_one_eq_mod _ 2

theorem toNat_mode (v : UInt8) : (v >>> 2 &&& 3).toNat = v.toNat / 4 % 4 := by
  rw [toNat_low_two, UInt8.toNat_shiftRight]
  exact congrArg (· % 4) (Nat.shiftRight_eq_div_pow _ 2)

theorem toNat_half (v : UInt8) : (v >>> 1).toNat = v.toNat / 2 := by
  rw [UInt8.toNat_shiftRight]
  exact Nat.shiftRight_eq_div_pow _ 1

theorem selected_eq (m : Mmc1) (banks : Nat) : m.selected banks = m.registers.windows banks := by
  have hmode : m.control.toNat / 4 % 4 < 4 := Nat.mod_lt _ (by decide)
  have heven (b : Nat) : b / 2 * 2 = b - b % 2 := by omega
  simp only [selected, UInt8.le_iff_toNat_le, ← UInt8.toNat_inj, toNat_mode, toNat_bank, heven,
    Registers.windows, registers]
  generalize m.control.toNat / 4 % 4 = mode at hmode
  interval_cases mode <;> rfl

theorem chrOffset_eq (m : Mmc1) (size : Nat) {a : Nat} (ha : a < 0x2000) :
    m.chrOffset size a = m.registers.chrOffset size a := by
  have hbit : Byte.has m.control 0x10 = true ↔ m.registers.control.toNat / 16 % 2 = 1 :=
    Byte.has_two_pow m.control (k := 4) (by decide)
  by_cases h : Byte.has m.control 0x10 = true
  · rw [chrOffset, if_pos h, Registers.chrOffset, if_pos (hbit.mp h), Nat.mod_eq_of_lt ha]
    rfl
  · rw [chrOffset, if_neg h, Registers.chrOffset, if_neg (mt hbit.mpr h), Nat.mod_eq_of_lt ha,
      toNat_half]
    rfl

theorem mirroring_eq (m : Mmc1) : m.mirroring = m.registers.mirroring := by
  have hmode : m.control.toNat % 4 < 4 := Nat.mod_lt _ (by decide)
  simp only [mirroring, ← UInt8.toNat_inj, toNat_low_two, Registers.mirroring, registers]
  generalize m.control.toNat % 4 = mode at hmode
  interval_cases mode <;> rfl

/-! The board. -/

theorem run_eq (m : Mmc1) (size : Nat) (xs : List Access) : (Board.mmc1 m).run size xs =
    .mmc1 (take (bankCount size 0x4000) m (xs.filterMap Access.registerWrite?)) := by
  induction xs generalizing m with
  | nil => rfl
  | cons x xs ih =>
    rw [Board.run_cons]
    cases x with
    | cpuWrite a v =>
      by_cases h : a < 0x8000
      · have hnone : (Access.cpuWrite a v).registerWrite? = none := if_pos h
        rw [List.filterMap_cons_none hnone, Board.after, if_pos h, ih]
      · have hsome : (Access.cpuWrite a v).registerWrite? = some ⟨a, v⟩ := if_neg h
        rw [List.filterMap_cons_some hsome, Board.after, if_neg h, take_cons]
        exact ih _
    | cpuRead _ | ppuRead _ | ppuWrite _ _ | clock => exact ih m

theorem board_eq {c : Cartridge}
    (h : c.board = .mmc1 (.powerOn (bankCount c.storage.prgRom.size 0x4000))) (xs : List Access) :
    ∃ m : Mmc1, (c.run xs).board = .mmc1 m ∧
      m.registers = .ofCommands (commands (xs.filterMap Access.registerWrite?)) ∧
      m.windows = m.registers.windows (bankCount c.storage.prgRom.size 0x4000) := by
  have hempty : (powerOn (bankCount c.storage.prgRom.size 0x4000)).Empty := ⟨rfl, rfl⟩
  obtain ⟨shift, count, htake⟩ := take_eq (bankCount c.storage.prgRom.size 0x4000) hempty
    (xs.filterMap Access.registerWrite?)
  refine ⟨_, by rw [board_run, h, run_eq], ?_⟩
  rw [htake, ← selected_eq]
  exact ⟨registers_obeys _ _, windows_obeys _ _⟩

/-- Everything the board decodes is decided by the writes to its chip. -/
theorem determined_by_writes {c : Cartridge}
    (h : c.board = .mmc1 (.powerOn (bankCount c.storage.prgRom.size 0x4000))) (xs : List Access) :
    let r := Registers.ofCommands (commands (xs.filterMap Access.registerWrite?))
    let windows := r.windows (bankCount c.storage.prgRom.size 0x4000)
    (∃ m : Mmc1, (c.run xs).board = .mmc1 m ∧ m.registers = r) ∧
    (∀ a : UInt16, 0x8000 ≤ a → (c.run xs).cpuRead a = some (c.storage.readPrg
      ((if a < 0xC000 then windows.1 else windows.2) * 0x4000 + a.toNat % 0x4000))) ∧
    (∀ a < 0x2000, ((c.run xs).ppuRead a).1 =
      some ((c.run xs).storage.readChr (r.chrOffset c.storage.chr.size a))) ∧
    (c.run xs).mirroring = if c.header.fourScreen then .fourScreen else r.mirroring := by
  obtain ⟨m, hboard, hr, hwindows⟩ := board_eq h xs
  have hkeeps := keeps_run c xs
  intro r windows
  subst r windows
  rw [← hr, ← hwindows]
  refine ⟨⟨m, hboard, rfl⟩, fun a ha => ?_, fun a ha => ?_, ?_⟩
  · have h8000 : ¬a < 0x8000 := UInt16.not_lt.mpr ha
    rw [cpuRead, if_neg (not_lt_6000 h8000), if_neg h8000, hboard]
    simp only [Storage.readPrg, hkeeps.prgRom_eq]
    rfl
  · rw [← hkeeps.chr_size_eq, ← chrOffset_eq m _ ha, ppuRead, observe_eq, hboard]
    exact if_pos ha
  · rw [Cartridge.mirroring, hkeeps.header_eq, hboard, ← mirroring_eq]
    rfl

def numbered : Cartridge where
  header := {
    prgBanks := 4, chrBanks := 0, mapperId := 1
    vertical := false, battery := false, trainer := false, fourScreen := false }
  storage := {
    prgRom := Array.ofFn (n := 0x10000) fun i => UInt8.ofNat (i / 0x4000)
    chr := #[]
    chrWritable := false }
  board := .mmc1 (.powerOn 4)

theorem size_numbered : numbered.storage.prgRom.size = 0x10000 := by simp [numbered]

theorem readPrg_numbered {offset : Nat} (h : offset < 0x10000) :
    numbered.storage.readPrg offset = UInt8.ofNat (offset / 0x4000) := by
  unfold Storage.readPrg
  rw [dif_neg (by rw [size_numbered]; decide)]
  simp only [size_numbered, Nat.mod_eq_of_lt h]
  simp [numbered]

/-- Two bits are discarded, and five choose a bank at `$8000`. -/
def chooseTwo : List Access :=
  [.cpuWrite 0x8000 1, .cpuWrite 0x8000 1, .cpuWrite 0xE000 0x80, .cpuWrite 0x8000 0,
    .cpuWrite 0xA000 1, .cpuWrite 0x6000 0xFF, .cpuWrite 0xC000 0, .cpuRead 0x8000,
    .cpuWrite 0x8000 0, .cpuWrite 0xE000 0]

theorem determined_by_writes_numbered :
    numbered.board = .mmc1 (.powerOn (bankCount numbered.storage.prgRom.size 0x4000)) ∧
      (numbered.run chooseTwo).cpuRead 0x8000 = some 2 ∧
      (numbered.run chooseTwo).cpuRead 0xC000 = some 3 ∧
      (numbered.run chooseTwo).mirroring = .singleLower := by
  have hfresh : numbered.board =
      .mmc1 (.powerOn (bankCount numbered.storage.prgRom.size 0x4000)) := by
    rw [size_numbered]
    rfl
  have hcommands : commands (chooseTwo.filterMap Access.registerWrite?) =
      [.restore, .commit 0xE000 2] := by decide +kernel
  obtain ⟨-, hprg, -, hmirroring⟩ := determined_by_writes hfresh chooseTwo
  rw [hcommands, size_numbered] at hprg
  rw [hcommands] at hmirroring
  refine ⟨hfresh, ?_, ?_, hmirroring⟩
  · rw [hprg 0x8000 (by decide), readPrg_numbered (by decide)]
    decide
  · rw [hprg 0xC000 (by decide), readPrg_numbered (by decide)]
    decide

end Famicom.Cartridge.Mmc1
