import Famicom.Proofs.Cpu.Stack
import Mathlib.Data.List.Infix

/-! Nested use of the stack. Calls, interrupts and saved registers are brackets around what happens
in between. Whatever the nesting, each closing bracket finds what the opening one saved, as long as
no more is saved at once than the page holds. -/
namespace Famicom.Cpu
open Bus

/-! The brackets. -/

inductive Bracket where
  | jsr (target : UInt16)
  | rts
  | nmi
  | irq
  | brk
  | rti
  | pha
  | pla
  | php
  | plp
deriving DecidableEq

/-- An instruction whose operand was found, without the reads that fetched it. -/
def handle (o : Opcode) (operand : Operand) (s : Registers × Bus) : Registers × Bus :=
  (o.mnemonic.effect.run operand { s.1 with pc := s.1.pc + o.length.toUInt16 } s.2).2

theorem execute_handle (c : Cpu) (b : Bus) :
    let (byte, b₁) := b.read c.registers.pc
    let (located, b₂) := locate (Opcode.decode byte).mode c.registers b₁
    ((c.execute b).1.registers, (c.execute b).2) =
      handle (Opcode.decode byte) located.operand (c.registers, b₂) := by
  unfold execute handle
  dsimp only

namespace Bracket

def step : Bracket → Registers × Bus → Registers × Bus
  | jsr target, s => handle (.decode 0x20) (.memory target) s
  | rts, s => handle (.decode 0x60) .none s
  | nmi, s => s.1.interrupt s.2 s.1.pc nmiVector false
  | irq, s => s.1.interrupt s.2 s.1.pc irqVector false
  | brk, s => handle (.decode 0x00) .none s
  | rti, s => handle (.decode 0x40) .none s
  | pha, s => handle (.decode 0x48) .none s
  | pla, s => handle (.decode 0x68) .none s
  | php, s => handle (.decode 0x08) .none s
  | plp, s => handle (.decode 0x28) .none s

/-- What closes an opening bracket. -/
def closer? : Bracket → Option Bracket
  | jsr _ => some rts
  | nmi | irq | brk => some rti
  | pha => some pla
  | php => some plp
  | rts | rti | pla | plp => none

def moved : Bracket → Int
  | jsr _ => 2
  | nmi | irq | brk => 3
  | pha | php => 1
  | rts => -2
  | rti => -3
  | pla | plp => -1

/-- What an opening bracket saves, as it then lies above the stack pointer. -/
def saved (r : Registers) : Bracket → List UInt8
  | jsr _ => [Byte.low (r.pc + 2), Byte.high (r.pc + 2)]
  | nmi | irq => [r.p.pushed false, Byte.low r.pc, Byte.high r.pc]
  | brk => [r.p.pushed true, Byte.low (r.pc + 2), Byte.high (r.pc + 2)]
  | pha => [r.a]
  | php => [r.p.pushed true]
  | rts | rti | pla | plp => []

/-- What closing gives back, the opening having found `r`. A call goes on behind its three bytes,
an interrupt where it came, and a break one byte further on. -/
def Restored (r r' : Registers) : Bracket → Prop
  | jsr _ => r'.pc = r.pc + 3
  | nmi | irq => r'.pc = r.pc ∧ r'.p = { r.p with unused := true, brk := false }
  | brk => r'.pc = r.pc + 2 ∧ r'.p = { r.p with unused := true, brk := false }
  | pha => r'.a = r.a
  | php => r'.p = { r.p with unused := true, brk := false }
  | rts | rti | pla | plp => True

variable {o c : Bracket}

theorem closer?_moved (h : o.closer? = some c) (r : Registers) :
    o.moved = (saved r o).length ∧ c.moved = -o.moved ∧ c.closer? = none := by
  cases o <;> cases h <;> exact ⟨rfl, rfl, rfl⟩

theorem length_saved (o : Bracket) (r : Registers) : (saved r o).length ≤ 256 := by
  cases o <;> simp [saved]

/-! Opening and closing. -/

seal Bus.read Bus.write

/-- What is known after an opening. -/
structure Opened (o : Bracket) (s s' : Registers × Bus) : Prop where
  sp_eq : s'.1.sp = below s.1.sp (saved s.1 o).length
  holds : Page.Holds s'.2.stack s'.1.sp (saved s.1 o)
  agree : Page.Agree (256 - (saved s.1 o).length) s.1.sp s.2.stack s'.2.stack
  stackOnly : StackOnly s.2 s'.2

theorem Opened.of_pushAll {s s' : Registers × Bus}
    (hsp : s'.1.sp = (s.1.pushAll s.2 (saved s.1 o)).1.sp)
    (hbus : ∃ v, s'.2 = { (s.1.pushAll s.2 (saved s.1 o)).2 with openBus := v }) :
    Opened o s s' := by
  obtain ⟨v, hv⟩ := hbus
  have hstack : s'.2.stack = (s.1.pushAll s.2 (saved s.1 o)).2.stack := by
    rw [hv]
    rfl
  rw [Registers.pushAll_fst] at hsp
  constructor
  · exact hsp
  · rw [hstack, hsp]
    exact s.1.holds_pushAll s.2 (length_saved o s.1)
  · rw [hstack]
    exact s.1.agree_pushAll s.2 _
  · rw [hv]
    exact (s.1.stackOnly_pushAll s.2 _).leave v

theorem opened_interrupt {r : Registers} {b : Bus} {pc back vector : UInt16} {software : Bool}
    (hsaved : saved r o = [r.p.pushed software, Byte.low back, Byte.high back])
    (hvector : 0x4020 ≤ vector) (hvector' : 0x4020 ≤ vector + 1) :
    Opened o (r, b) ({ r with pc }.interrupt b back vector software) := by
  apply Opened.of_pushAll
  · rw [hsaved]
    rfl
  · refine ⟨({ r with pc }.interrupt b back vector software).2.openBus, ?_⟩
    rw [hsaved]
    unfold Registers.interrupt
    dsimp only
    unfold Bus.readWord
    dsimp only
    rw [read_cartridge _ hvector', read_cartridge _ hvector]
    rfl

theorem opened_step (h : o.closer? = some c) (s : Registers × Bus) : Opened o s (o.step s) := by
  obtain ⟨r, b⟩ := s
  cases o with
  | jsr target =>
    have hback : r.pc + 3 - 1 = r.pc + 2 := by
      rw [UInt16.sub_eq_add_neg, UInt16.add_assoc]
      rfl
    apply Opened.of_pushAll
    · rfl
    · refine ⟨((jsr target).step (r, b)).2.openBus, ?_⟩
      rw [saved, ← hback]
      rfl
  | nmi => exact opened_interrupt rfl (by decide) (by decide)
  | irq => exact opened_interrupt rfl (by decide) (by decide)
  | brk =>
    have hback : r.pc + 1 + 1 = r.pc + 2 := UInt16.add_assoc r.pc 1 1
    have hsaved : saved r brk =
        [r.p.pushed true, Byte.low (r.pc + 1 + 1), Byte.high (r.pc + 1 + 1)] := by
      rw [hback, saved]
    exact opened_interrupt hsaved (by decide) (by decide)
  | pha | php =>
    apply Opened.of_pushAll
    · rfl
    · exact ⟨_, rfl⟩
  | rts | rti | pla | plp => cases h

/-- A closing bracket that finds what the opening one saved gives it back. -/
structure Closed (o : Bracket) (r : Registers) (s s' : Registers × Bus) : Prop where
  sp_eq : s'.1.sp = above s.1.sp (saved r o).length
  stack_eq : s'.2.stack = s.2.stack
  restored : Restored r s'.1 o

theorem restored_pushed (p : Status) (software : Bool) :
    Status.restored (p.pushed software) = { p with unused := true, brk := false } := by
  rw [Status.restored, Status.pushed, Status.ofByte_toByte]

section Held
variable {r : Registers} {b : Bus} {p : Status} {software : Bool} {back : UInt16} {v : UInt8}

theorem rts_held (h : Page.Holds b.stack r.sp [Byte.low back, Byte.high back]) :
    rts.step (r, b) =
      ({ r with pc := back + 1, sp := above r.sp 2 }, { b with openBus := Byte.high back }) := by
  have hword := Registers.pullWord_held (r := { r with pc := r.pc + 1 }) h
  change (Effect.ret.run .none { r with pc := r.pc + 1 } b).2 = _
  simp only [Effect.run, hword]

theorem rti_held
    (h : Page.Holds b.stack r.sp [p.pushed software, Byte.low back, Byte.high back]) :
    rti.step (r, b) =
      ({ r with p := { p with unused := true, brk := false }, pc := back, sp := above r.sp 3 },
        { b with openBus := Byte.high back }) := by
  have hpull := Registers.pull_held (r := { r with pc := r.pc + 1 }) h
  have hword := Registers.pullWord_held
    (r := { r with p := .restored (p.pushed software), pc := r.pc + 1, sp := above r.sp 1 })
    (b := { b with openBus := p.pushed software }) h.2
  rw [← restored_pushed p software]
  change (Effect.retInterrupt.run .none { r with pc := r.pc + 1 } b).2 = _
  simp only [Effect.run, hpull, hword, above_above]

theorem pla_held (h : Page.Holds b.stack r.sp [v]) : pla.step (r, b) =
    ({ r with pc := r.pc + 1, sp := above r.sp 1 }.setA v, { b with openBus := v }) := by
  have hpull := Registers.pull_held (r := { r with pc := r.pc + 1 }) h
  change ((Effect.pull Registers.setA).run .none { r with pc := r.pc + 1 } b).2 = _
  simp only [Effect.run, hpull]

theorem plp_held (h : Page.Holds b.stack r.sp [p.pushed software]) : plp.step (r, b) =
    ({ r with pc := r.pc + 1, p := { p with unused := true, brk := false }, sp := above r.sp 1 },
      { b with openBus := p.pushed software }) := by
  have hpull := Registers.pull_held (r := { r with pc := r.pc + 1 }) h
  rw [← restored_pushed p software]
  change (Mnemonic.plp.effect.run .none { r with pc := r.pc + 1 } b).2 = _
  simp only [Mnemonic.effect, Effect.run, hpull]

end Held

theorem closed_step (h : o.closer? = some c) {r : Registers} {s : Registers × Bus}
    (hs : Page.Holds s.2.stack s.1.sp (saved r o)) : Closed o r s (c.step s) := by
  obtain ⟨r', b⟩ := s
  cases o with
  | jsr target =>
    cases h
    rw [rts_held hs]
    exact ⟨rfl, rfl, UInt16.add_assoc r.pc 2 1⟩
  | nmi | irq =>
    cases h
    rw [rti_held hs]
    exact ⟨rfl, rfl, rfl, rfl⟩
  | brk =>
    cases h
    rw [rti_held hs]
    exact ⟨rfl, rfl, rfl, rfl⟩
  | pha =>
    cases h
    rw [pla_held hs]
    exact ⟨rfl, rfl, rfl⟩
  | php =>
    cases h
    rw [plp_held hs]
    exact ⟨rfl, rfl, rfl⟩
  | rts | rti | pla | plp => cases h

theorem stackOnly_step (o : Bracket) (s : Registers × Bus) : StackOnly s.2 (o.step s).2 := by
  obtain ⟨r, b⟩ := s
  cases o with
  | jsr target => exact (opened_step rfl _).stackOnly
  | nmi | irq | brk | pha | php => exact (opened_step rfl _).stackOnly
  | rts => exact Registers.stackOnly_pullWord { r with pc := r.pc + 1 } b
  | rti =>
    exact (Registers.stackOnly_pull { r with pc := r.pc + 1 } b).trans
      (Registers.stackOnly_pullWord _ _)
  | pla | plp => exact Registers.stackOnly_pull { r with pc := r.pc + 1 } b

/-! Sequences. -/

def run (xs : List Bracket) (s : Registers × Bus) : Registers × Bus :=
  xs.foldl (fun s x => x.step s) s

theorem run_append (xs ys : List Bracket) (s : Registers × Bus) :
    run (xs ++ ys) s = run ys (run xs s) := List.foldl_append

theorem stackOnly_run (xs : List Bracket) (s : Registers × Bus) : StackOnly s.2 (run xs s).2 := by
  induction xs generalizing s with
  | nil => exact .refl s.2
  | cons x xs ih => exact (stackOnly_step x s).trans (ih (x.step s))

/-- The bytes that a sequence leaves on the stack. -/
def held : List Bracket → Int
  | [] => 0
  | x :: xs => x.moved + held xs

theorem held_append (xs ys : List Bracket) : held (xs ++ ys) = held xs + held ys := by
  induction xs with
  | nil => exact (Int.zero_add _).symm
  | cons x xs ih => rw [List.cons_append, held, held, ih, Int.add_assoc]

def Fits (n : Nat) (xs : List Bracket) : Prop := ∀ ys, ys <+: xs → held ys ≤ n

/-- Each opening bracket is closed by its own closer, and what is between is closed already. -/
inductive Balanced : List Bracket → Prop
  | nil : Balanced []
  | append {xs ys : List Bracket} (hxs : Balanced xs) (hys : Balanced ys) : Balanced (xs ++ ys)
  | enclose {o c : Bracket} {xs : List Bracket} (h : o.closer? = some c) (hxs : Balanced xs) :
    Balanced (o :: (xs ++ [c]))

section Prefixes
variable {xs ys zs : List Bracket} {n : Nat}

theorem prefix_append_cases (h : zs <+: xs ++ ys) :
    zs <+: xs ∨ ∃ ws, ws <+: ys ∧ zs = xs ++ ws := by
  obtain hle | ⟨ws, rfl⟩ := List.prefix_or_prefix_of_prefix h (List.prefix_append xs ys)
  · exact .inl hle
  · exact .inr ⟨ws, (List.prefix_append_right_inj xs).mp h, rfl⟩

theorem Balanced.held_eq (h : Balanced xs) : held xs = 0 := by
  induction h with
  | nil => rfl
  | append _ _ ihx ihy => rw [held_append, ihx, ihy, Int.add_zero]
  | @enclose o c xs h _ ih =>
    obtain ⟨-, hmoved, -⟩ := closer?_moved h {}
    rw [held, held_append, ih, held, held, hmoved]
    omega

theorem Balanced.held_nonneg (h : Balanced xs) (hz : zs <+: xs) : 0 ≤ held zs := by
  induction h generalizing zs with
  | nil =>
    rw [List.prefix_nil.mp hz]
    exact Int.le_refl 0
  | append hx _ ihx ihy =>
    obtain hle | ⟨ws, hws, rfl⟩ := prefix_append_cases hz
    · exact ihx hle
    · rw [held_append, hx.held_eq, Int.zero_add]
      exact ihy hws
  | @enclose o c xs h hxs ih =>
    obtain ⟨hlen, hmoved, -⟩ := closer?_moved h {}
    obtain rfl | ⟨ws, rfl, hws⟩ := List.prefix_cons_iff.mp hz
    · exact Int.le_refl 0
    · rw [held]
      obtain rfl | hws := List.prefix_concat_iff.mp hws
      · rw [held_append, hxs.held_eq, held, held, hmoved]
        omega
      · have := ih hws
        omega

theorem Fits.inside {o : Bracket} {m : Nat} (h : Fits n (xs ++ o :: (ys ++ zs)))
    (hxs : 0 ≤ held xs) (hm : o.moved = m) : m ≤ n ∧ Fits (n - m) ys := by
  have hroom (ws : List Bracket) (hws : ws <+: ys) : m + held ws ≤ n := by
    have hle := h (xs ++ o :: ws) (by
      rw [List.prefix_append_right_inj, List.cons_prefix_cons]
      exact ⟨rfl, hws.trans (List.prefix_append ys zs)⟩)
    rw [held_append, held, hm] at hle
    omega
  have hempty := hroom [] List.nil_prefix
  rw [held] at hempty
  have hmn : m ≤ n := by omega
  refine ⟨hmn, ?_⟩
  intro ws hws
  have := hroom ws hws
  omega

theorem Balanced.exists_opening (h : Balanced xs) {c : Bracket} (hc : c.closer? = none)
    (hz : zs ++ [c] <+: xs) : ∃ before o inside,
      zs = before ++ o :: inside ∧ o.closer? = some c ∧ Balanced inside := by
  -- Over the grammar: the last of `zs ++ [c]` is in one of the parts, or is the outermost closer.
  induction h generalizing zs with
  | nil => simp at hz
  | @append xs ys _ _ ihx ihy =>
    obtain hle | ⟨ws, hws, heq⟩ := prefix_append_cases hz
    · exact ihx hle
    · obtain rfl | ⟨ws, c', rfl⟩ := List.eq_nil_or_concat' ws
      · rw [List.append_nil] at heq
        exact ihx (heq ▸ List.prefix_refl _)
      · rw [← List.append_assoc] at heq
        obtain ⟨rfl, hlast⟩ := List.append_inj' heq rfl
        obtain rfl := List.singleton_inj.mp hlast
        obtain ⟨before, o, inside, rfl, ho, hinside⟩ := ihy hws
        exact ⟨xs ++ before, o, inside, by simp, ho, hinside⟩
  | @enclose o c' xs ho hxs ih =>
    cases zs with
    | nil =>
      obtain ⟨rfl, -⟩ := List.cons_prefix_cons.mp hz
      rw [hc] at ho
      cases ho
    | cons z zs =>
      obtain ⟨rfl, htail⟩ := List.cons_prefix_cons.mp hz
      obtain heq | hle := List.prefix_concat_iff.mp htail
      · obtain ⟨rfl, hlast⟩ := List.append_inj' heq rfl
        obtain rfl := List.singleton_inj.mp hlast
        exact ⟨[], z, zs, rfl, ho, hxs⟩
      · obtain ⟨before, o, inside, rfl, ho, hinside⟩ := ih hle
        exact ⟨z :: before, o, inside, rfl, ho, hinside⟩

end Prefixes

/-! The induction. -/

/-- The stack is as deep as before, and a run that never held more than `n` bytes has left the
rest of the page alone. -/
structure Level (n : Nat) (s s' : Registers × Bus) : Prop where
  sp_eq : s'.1.sp = s.1.sp
  agree : Page.Agree (256 - n) s.1.sp s.2.stack s'.2.stack

theorem Level.trans {n : Nat} {s s' s'' : Registers × Bus} (h : Level n s s')
    (h' : Level n s' s'') : Level n s s'' := by
  constructor
  · exact h'.sp_eq.trans h.sp_eq
  · have hagree := h'.agree
    rw [h.sp_eq] at hagree
    exact h.agree.trans hagree

theorem enclosed {n m : Nat} (ho : o.closer? = some c) (hm : o.moved = m) (hmn : m ≤ n)
    (hn : n ≤ 256) {s s' : Registers × Bus} (h : Level (n - m) (o.step s) s') :
    Level n s (c.step s') ∧ Restored s.1 (c.step s').1 o := by
  have hlen : (saved s.1 o).length = m := by
    have := (closer?_moved ho s.1).1
    omega
  have hopened := opened_step ho s
  -- The bytes saved are among those that the run inside leaves alone: it has `m` less room.
  have hheld : Page.Holds s'.2.stack s'.1.sp (saved s.1 o) := by
    rw [h.sp_eq]
    exact hopened.holds.agree h.agree (by omega)
  obtain ⟨hsp, hstack, hrestored⟩ := closed_step ho hheld
  refine ⟨⟨?_, ?_⟩, hrestored⟩
  · rw [hsp, h.sp_eq, hopened.sp_eq]
    exact (above_below s.1.sp _ 0).trans (above_zero _)
  · have hinside := h.agree
    rw [hopened.sp_eq, hlen] at hinside
    rw [hstack]
    exact (hopened.agree.mono (by omega)).trans (hinside.rise.mono (by omega))

theorem Balanced.level {xs : List Bracket} (h : Balanced xs) {n : Nat} (hn : n ≤ 256)
    (hfits : Fits n xs) (s : Registers × Bus) : Level n s (run xs s) := by
  induction h generalizing n s with
  | nil => exact ⟨rfl, .refl _ _ _⟩
  | @append xs ys hxs hys ihx ihy =>
    have hfitsx : Fits n xs := by
      intro ws hws
      exact hfits ws (hws.trans (List.prefix_append xs ys))
    have hfitsy : Fits n ys := by
      intro ws hws
      have := hfits (xs ++ ws) ((List.prefix_append_right_inj xs).mpr hws)
      rwa [held_append, hxs.held_eq, Int.zero_add] at this
    rw [run_append]
    exact (ihx hn hfitsx s).trans (ihy hn hfitsy (run xs s))
  | @enclose o c xs ho hxs ih =>
    obtain ⟨hlen, -, -⟩ := closer?_moved ho s.1
    have hpair : Fits n ([] ++ o :: (xs ++ [c])) := hfits
    obtain ⟨hmn, hinside⟩ := hpair.inside (Int.le_refl 0) hlen
    have hrun : run (o :: (xs ++ [c])) s = c.step (run xs (o.step s)) := run_append xs [c] _
    rw [hrun]
    exact (enclosed ho hlen hmn hn (ih (by omega) hinside (o.step s))).1

/-- A balanced sequence unwinds whatever it saves. Each closing bracket has its opening one; it
brings the stack pointer back to where that was and restores what it saved; and nothing changes
but the stack and the open bus. -/
theorem stack_unwinds {xs : List Bracket} (h : Balanced xs) (hfits : Fits 256 xs)
    (s : Registers × Bus) :
    (∀ ys c, ys ++ [c] <+: xs → c.closer? = none → ∃ before o inside,
      ys = before ++ o :: inside ∧ o.closer? = some c ∧ Balanced inside) ∧
    (∀ before o inside c, before ++ o :: (inside ++ [c]) <+: xs → o.closer? = some c →
      Balanced inside →
      (run (before ++ o :: (inside ++ [c])) s).1.sp = (run before s).1.sp ∧
      Restored (run before s).1 (run (before ++ o :: (inside ++ [c])) s).1 o) ∧
    ∀ ys, ys <+: xs → StackOnly s.2 (run ys s).2 := by
  refine ⟨?_, ?_, ?_⟩
  · intro ys c hys hc
    exact h.exists_opening hc hys
  · intro before o inside c hpart ho hinside
    obtain ⟨hlen, -, -⟩ := closer?_moved ho {}
    have hfits' : Fits 256 (before ++ o :: (inside ++ [c])) := by
      intro ys hys
      exact hfits ys (hys.trans hpart)
    have hbefore : 0 ≤ held before := h.held_nonneg ((List.prefix_append before _).trans hpart)
    obtain ⟨hmn, hroom⟩ := hfits'.inside hbefore hlen
    have hlevel := hinside.level (by omega) hroom (o.step (run before s))
    obtain ⟨hclosed, hrestored⟩ := enclosed ho hlen hmn (Nat.le_refl 256) hlevel
    have hrun : run (before ++ o :: (inside ++ [c])) s =
        c.step (run inside (o.step (run before s))) := by
      rw [run_append]
      exact run_append inside [c] _
    rw [hrun]
    exact ⟨hclosed.sp_eq, hrestored⟩
  · intro ys _
    exact stackOnly_run ys s

/-- A routine that is interrupted while it saves a register, and a break in the interrupt. -/
def routine : List Bracket := [pha, nmi, php, plp, brk, rti, rti, pla]

def called : List Bracket := jsr 0x9000 :: (routine ++ [rts])

theorem balanced_routine : Balanced routine := by
  have hhandler : Balanced [php, plp, brk, rti] :=
    .append (.enclose (o := php) rfl .nil) (.enclose (o := brk) rfl .nil)
  exact .enclose (o := pha) rfl (.enclose (o := nmi) rfl hhandler)

theorem balanced_called : Balanced called := .enclose rfl balanced_routine

theorem fits_called : Fits 256 called := by
  have hall : ∀ ys ∈ called.inits, held ys ≤ 256 := by decide
  intro ys hys
  exact hall ys ((List.mem_inits ys called).mpr hys)

/-- The stack pointer goes round while the bytes are saved. -/
theorem stack_unwinds_called :
    Balanced called ∧ Fits 256 called ∧
    (run called ({ sp := 0x01, pc := 0xC000 }, {})).1.sp = 0x01 ∧
    (run called ({ sp := 0x01, pc := 0xC000 }, {})).1.pc = 0xC003 := by
  obtain ⟨-, hunwinds, -⟩ :=
    stack_unwinds balanced_called fits_called ({ sp := 0x01, pc := 0xC000 }, {})
  obtain ⟨hsp, hpc⟩ :=
    hunwinds [] (jsr 0x9000) routine rts (List.prefix_refl called) rfl balanced_routine
  exact ⟨balanced_called, fits_called, hsp, hpc⟩

end Bracket
end Famicom.Cpu
