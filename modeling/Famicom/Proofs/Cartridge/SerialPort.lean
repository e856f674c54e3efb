import Famicom.Proofs.Cartridge.Accesses
import Mathlib.Data.List.DropRight
import Mathlib.Data.Nat.Digits.Defs
import Mathlib.Tactic.IntervalCases

/-! The serial port of the MMC1 chip. What was written to it is a list of commands: every write with
bit 7 set is one, and so are five others in a row. -/
namespace Famicom.Cartridge

namespace RegisterWrite

def aborts (w : RegisterWrite) : Bool := Byte.has w.value 0x80

def bit (w : RegisterWrite) : Nat := w.value.toNat % 2

end RegisterWrite
namespace Mmc1

/-! What the writes ask for. -/

inductive Command where
  | commit (address : UInt16) (value : UInt8)
  | restore
deriving DecidableEq

/-- Each five writes commit one value, lowest bit first, where the fifth says. -/
def commits : List RegisterWrite → List Command
  | w₀ :: w₁ :: w₂ :: w₃ :: w₄ :: ws =>
    .commit w₄.address (UInt8.ofNat (Nat.ofDigits 2 [w₀.bit, w₁.bit, w₂.bit, w₃.bit, w₄.bit])) ::
      commits ws
  | _ => []

def commands (ws : List RegisterWrite) : List Command :=
  [Command.restore].intercalate ((ws.splitOnP RegisterWrite.aborts).map commits)

/-! The commands of a list of writes. -/

theorem commits_of_length_lt {ws : List RegisterWrite} (h : ws.length < 5) : commits ws = [] := by
  match ws, h with
  | [], _ | [_], _ | [_, _], _ | [_, _, _], _ | [_, _, _, _], _ => rfl

theorem commands_of_not_aborts {ws : List RegisterWrite} (h : ∀ w ∈ ws, w.aborts = false) :
    commands ws = commits ws := by
  rw [commands, List.splitOnP_eq_singleton h, List.map_singleton, List.intercalate_singleton]

theorem commands_abort {ws : List RegisterWrite} (h : ∀ w ∈ ws, w.aborts = false)
    {w : RegisterWrite} (hw : w.aborts = true) (rest : List RegisterWrite) :
    commands (ws ++ w :: rest) = commits ws ++ .restore :: commands rest := by
  have hne := List.splitOnP_ne_nil RegisterWrite.aborts rest
  rw [commands, List.splitOnP_append_cons_of_forall_mem h w hw, List.map_cons, commands]
  cases hsplit : rest.splitOnP RegisterWrite.aborts with
  | nil => exact absurd hsplit hne
  | cons segment segments =>
    rw [List.map_cons, List.intercalate_cons_cons, List.append_assoc]
    rfl

/-! The chip. -/

section Chip
variable (banks : Nat)

def take (m : Mmc1) (ws : List RegisterWrite) : Mmc1 :=
  ws.foldl (fun m w => m.write banks w.address w.value) m

/-- What a command makes of the chip. Nothing is collected after it. -/
def obey (m : Mmc1) : Command → Mmc1
  | .commit a v => { m with shift := 0, count := 0 }.commit banks a v
  | .restore => settle { m with shift := 0, count := 0, control := m.control ||| 0x0C } banks

def obeys (m : Mmc1) (cs : List Command) : Mmc1 := cs.foldl (obey banks) m

structure Empty (m : Mmc1) : Prop where
  shift_eq : m.shift = 0
  count_eq : m.count = 0

theorem empty_obey (m : Mmc1) (c : Command) : (obey banks m c).Empty := by
  cases c with
  | commit a v =>
    simp only [obey, commit, settle]
    split_ifs <;> exact ⟨rfl, rfl⟩
  | restore => exact ⟨rfl, rfl⟩

theorem write_abort (m : Mmc1) {w : RegisterWrite} (h : w.aborts = true) :
    m.write banks w.address w.value = obey banks m .restore := by
  have hbit : Byte.has w.value 0x80 = true := h
  rw [write, if_pos hbit]
  rfl

theorem write_collect (m : Mmc1) {w : RegisterWrite} (h : w.aborts = false) (h4 : m.count ≠ 4) :
    m.write banks w.address w.value =
      { m with shift := m.shift ||| (w.value &&& 1) <<< m.count, count := m.count + 1 } := by
  have hbit : ¬Byte.has w.value 0x80 = true := Bool.eq_false_iff.mp h
  rw [write, if_neg hbit]
  dsimp only
  rw [if_neg h4]

theorem write_last (m : Mmc1) {w : RegisterWrite} (h : w.aborts = false) (h4 : m.count = 4) :
    m.write banks w.address w.value =
      { m with shift := 0, count := 0 }.commit banks w.address
        ((m.shift ||| (w.value &&& 1) <<< 4) &&& 0x1F) := by
  have hbit : ¬Byte.has w.value 0x80 = true := Bool.eq_false_iff.mp h
  rw [write, if_neg hbit]
  dsimp only
  rw [if_pos h4, h4]

theorem and_one_eq (w : RegisterWrite) : w.value &&& 1 = UInt8.ofNat w.bit := by
  apply UInt8.toNat_inj.mp
  have hlt : w.value.toNat % 2 < 256 := by omega
  rw [UInt8.toNat_and, RegisterWrite.bit, UInt8.toNat_ofNat_of_lt' hlt]
  exact Nat.and_one_is_mod _

theorem bit_lt (w : RegisterWrite) : w.bit < 2 := Nat.mod_lt _ (by decide)

theorem value_eq {b₀ b₁ b₂ b₃ b₄ : Nat} (h₀ : b₀ < 2) (h₁ : b₁ < 2) (h₂ : b₂ < 2) (h₃ : b₃ < 2)
    (h₄ : b₄ < 2) :
    ((0 : UInt8) ||| UInt8.ofNat b₀ <<< 0 ||| UInt8.ofNat b₁ <<< 1 ||| UInt8.ofNat b₂ <<< 2 |||
        UInt8.ofNat b₃ <<< 3 ||| UInt8.ofNat b₄ <<< 4) &&& 0x1F =
      UInt8.ofNat (Nat.ofDigits 2 [b₀, b₁, b₂, b₃, b₄]) := by
  interval_cases b₀ <;> interval_cases b₁ <;> interval_cases b₂ <;> interval_cases b₃ <;>
    interval_cases b₄ <;> decide

theorem take_cons (m : Mmc1) (w : RegisterWrite) (ws : List RegisterWrite) :
    take banks m (w :: ws) = take banks (m.write banks w.address w.value) ws := rfl

theorem take_append (m : Mmc1) (ws ws' : List RegisterWrite) :
    take banks m (ws ++ ws') = take banks (take banks m ws) ws' := List.foldl_append

theorem take_five {m : Mmc1} (hm : m.Empty) {w₀ w₁ w₂ w₃ w₄ : RegisterWrite}
    (h : ∀ w ∈ [w₀, w₁, w₂, w₃, w₄], w.aborts = false) :
    take banks m [w₀, w₁, w₂, w₃, w₄] = obey banks m (.commit w₄.address
      (UInt8.ofNat (Nat.ofDigits 2 [w₀.bit, w₁.bit, w₂.bit, w₃.bit, w₄.bit]))) := by
  obtain ⟨control, chr0, chr1, prg, shift, count, windows⟩ := m
  obtain ⟨rfl, rfl⟩ : shift = 0 ∧ count = 0 := ⟨hm.shift_eq, hm.count_eq⟩
  simp only [List.mem_cons, List.not_mem_nil, or_false, forall_eq_or_imp, forall_eq] at h
  obtain ⟨h₀, h₁, h₂, h₃, h₄⟩ := h
  rw [take_cons, write_collect banks _ h₀ (show (0 : UInt8) ≠ 4 by decide),
    take_cons, write_collect banks _ h₁ (show (1 : UInt8) ≠ 4 by decide),
    take_cons, write_collect banks _ h₂ (show (2 : UInt8) ≠ 4 by decide),
    take_cons, write_collect banks _ h₃ (show (3 : UInt8) ≠ 4 by decide),
    take_cons, write_last banks _ h₄ (show (4 : UInt8) = 4 from rfl)]
  simp only [and_one_eq]
  rw [← value_eq (bit_lt w₀) (bit_lt w₁) (bit_lt w₂) (bit_lt w₃) (bit_lt w₄)]
  rfl

/-- A chip like another, but for what it has collected. -/
def Trails (d m : Mmc1) : Prop := ∃ shift count, m = { d with shift, count }

theorem take_short {m d : Mmc1} (hd : Trails d m) {ws : List RegisterWrite}
    (h : ∀ w ∈ ws, w.aborts = false) (hlen : m.count.toNat + ws.length < 5) :
    Trails d (take banks m ws) := by
  induction ws generalizing m with
  | nil => exact hd
  | cons w ws ih =>
    rw [List.length_cons] at hlen
    have h4 : m.count ≠ 4 := by
      intro hm
      rw [hm] at hlen
      exact absurd hlen (by simp +arith)
    have hcount : (m.count + 1).toNat = m.count.toNat + 1 := by
      rw [UInt8.toNat_add, UInt8.toNat_one]
      omega
    rw [take_cons, write_collect banks m (h w List.mem_cons_self) h4]
    refine ih ?_ (fun w' hw' => h w' (List.mem_cons_of_mem w hw')) ?_
    · obtain ⟨shift, count, rfl⟩ := hd
      exact ⟨_, _, rfl⟩
    · show (m.count + 1).toNat + ws.length < 5
      omega

/-- Between two writes that abort, fives in a row are commands and the rest is collected. -/
theorem take_of_not_aborts {m : Mmc1} (hm : m.Empty) {ws : List RegisterWrite}
    (h : ∀ w ∈ ws, w.aborts = false) :
    Trails (obeys banks m (commits ws)) (take banks m ws) := by
  induction ws using commits.induct generalizing m with
  | case1 w₀ w₁ w₂ w₃ w₄ ws ih =>
    have hfive : ∀ w ∈ [w₀, w₁, w₂, w₃, w₄], w.aborts = false :=
      fun w hw => h w (List.mem_append_left ws hw)
    have hrest : ∀ w ∈ ws, w.aborts = false :=
      fun w hw => h w (List.mem_append_right [w₀, w₁, w₂, w₃, w₄] hw)
    rw [show w₀ :: w₁ :: w₂ :: w₃ :: w₄ :: ws = [w₀, w₁, w₂, w₃, w₄] ++ ws from rfl, take_append,
      take_five banks hm hfive]
    exact ih (empty_obey banks m _) hrest
  | case2 ws hws =>
    have hlen : ws.length < 5 := by
      match ws, hws with
      | [], _ | [_], _ | [_, _], _ | [_, _, _], _ | [_, _, _, _], _ => simp
      | w₀ :: w₁ :: w₂ :: w₃ :: w₄ :: ws, hws => exact absurd rfl (hws w₀ w₁ w₂ w₃ w₄ ws)
    rw [commits_of_length_lt hlen]
    refine take_short banks ⟨m.shift, m.count, rfl⟩ h ?_
    rw [hm.count_eq]
    simpa using hlen

theorem obeys_append (m : Mmc1) (cs cs' : List Command) :
    obeys banks m (cs ++ cs') = obeys banks (obeys banks m cs) cs' := List.foldl_append

theorem obey_restore {d m : Mmc1} (h : Trails d m) :
    obey banks m .restore = obey banks d .restore := by
  obtain ⟨shift, count, rfl⟩ := h
  rfl

theorem take_eq {m : Mmc1} (hm : m.Empty) (ws : List RegisterWrite) :
    Trails (obeys banks m (commands ws)) (take banks m ws) := by
  induction hn : ws.length using Nat.strong_induction_on generalizing m ws with
  | _ n ih =>
    cases hfind : ws.find? RegisterWrite.aborts with
    | none =>
      have h : ∀ w ∈ ws, w.aborts = false :=
        fun w hw => Bool.eq_false_iff.mpr (List.find?_eq_none.mp hfind w hw)
      rw [commands_of_not_aborts h]
      exact take_of_not_aborts banks hm h
    | some w =>
      obtain ⟨hw, first, rest, rfl, hnot⟩ := List.find?_eq_some_iff_append.mp hfind
      have hfirst : ∀ w ∈ first, w.aborts = false :=
        fun w hw => by simpa using hnot w hw
      rw [take_append, take_cons, write_abort banks _ hw, commands_abort hfirst hw, obeys_append,
        obey_restore banks (take_of_not_aborts banks hm hfirst)]
      refine ih rest.length ?_ (empty_obey banks _ _) rest rfl
      rw [← hn, List.length_append, List.length_cons]
      omega

end Chip

end Mmc1
end Famicom.Cartridge
