import Famicom.Proofs.Console.Run
import Famicom.Proofs.Ppu.Output
import Mathlib.Data.List.Induction

/-! A finished picture holds no pixel of an earlier one. Nothing looks at the two screens but the
swap at the end of a frame, so that two runs that differ in the screens alone differ in nothing
else; and by then each pixel has been stored anew, whether the layers are switched on or not. -/
namespace Famicom.Ppu

/-! The memory that the picture unit reads from and writes to. -/

structure Memory (σ : Type) where
  read : σ → Nat → UInt8 × σ
  write : σ → Nat → UInt8 → σ

/-- What may go on between two dots, and the dot itself. -/
inductive Access (σ : Type) where
  | clock
  | read (r : Nat)
  | write (r : Nat) (v : UInt8)
  | writeOam (v : UInt8)
  | takeFrameReady
  /-- The memory is changed from elsewhere. -/
  | change (f : σ → σ)

namespace Memory
variable {σ : Type} (mem : Memory σ)

def fetch (m : σ) : Option Nat → UInt8 × σ
  | some a => mem.read m a
  | none => (0, m)

def store (m : σ) (v : UInt8) : Option Nat → σ
  | some a => mem.write m a v
  | none => m

def answer (x : Ppu × σ) : UInt8 × σ := mem.fetch x.2 x.1.fetch?

def after (x : Ppu × σ) : Access σ → Ppu × σ
  | .clock => (x.1.clock (mem.answer x).1, (mem.answer x).2)
  | .read r =>
    let (data, m) := mem.fetch x.2 (x.1.readFetch? r)
    ((x.1.read r data).2, m)
  | .write r v => (x.1.write r v, mem.store x.2 v (x.1.writeTarget? r))
  | .writeOam v => (x.1.writeOam v, x.2)
  | .takeFrameReady => (x.1.takeFrameReady.2, x.2)
  | .change f => (x.1, f x.2)

def run (x : Ppu × σ) (es : List (Access σ)) : Ppu × σ := es.foldl mem.after x

theorem run_snoc (x : Ppu × σ) (es : List (Access σ)) (e : Access σ) :
    mem.run x (es ++ [e]) = mem.after (mem.run x es) e :=
  List.foldl_append

/-- The colour of the pixel that the coming dot stores. -/
def colour (x : Ppu × σ) : UInt32 := (x.1.compose (mem.answer x).1).shown

end Memory

/-! The screens. -/

def withScreens (p : Ppu) (back front : Screen) : Ppu := { p with back, front }

def pixel (p : Ppu) : Nat := p.scanline * 256 + (p.dot - 1)

theorem compose_withScreens (p : Ppu) (back front : Screen) (data : UInt8) :
    (p.withScreens back front).compose data = (p.compose data).withScreens back front := by
  rw [compose_eq, compose_eq]
  rfl

theorem fetch?_withScreens (p : Ppu) (back front : Screen) :
    (p.withScreens back front).fetch? = p.fetch? :=
  p.fetch?_withOutput back front p.frameReady

/-- What a dot leaves on the screen that is being drawn. -/
def drawnOn (p : Ppu) (data : UInt8) (back : Screen) : Screen :=
  if p.visible then back.setIfInBounds p.pixel (p.compose data).shown else back

theorem clock_withScreens (p : Ppu) (back front : Screen) (data : UInt8) :
    (p.withScreens back front).clock data = (p.clock data).withScreens
      (if p.finishes then front else p.drawnOn data back)
      (if p.finishes then p.drawnOn data back else front) := by
  rw [clock_eq, clock_eq]
  unfold drawn
  rw [compose_withScreens]
  rfl

theorem read_withScreens (p : Ppu) (back front : Screen) (r : Nat) (data : UInt8) :
    ((p.withScreens back front).read r data).2 = (p.read r data).2.withScreens back front := by
  have hmark : (p.read r data).2.withOutput back front p.frameReady =
      (p.read r data).2.withScreens back front := by
    rw [read_eq]
    rfl
  rw [← hmark]
  exact congrArg Prod.snd (p.read_withOutput back front p.frameReady r data)

theorem write_withScreens (p : Ppu) (back front : Screen) (r : Nat) (v : UInt8) :
    (p.withScreens back front).write r v = (p.write r v).withScreens back front := by
  have hmark : (p.write r v).withOutput back front p.frameReady =
      (p.write r v).withScreens back front := by
    rw [write_eq]
    rfl
  rw [← hmark]
  exact p.write_withOutput back front p.frameReady r v

/-! The part of the screen that is drawn anew. -/

/-- How many pixels of the frame have been stored. -/
def painted (p : Ppu) : Nat :=
  if p.scanline < 240 then p.scanline * 256 + min (p.dot - 1) 256
  else if p.scanline = 240 ∨ p.scanline = 241 ∧ p.dot ≤ 1 then 61440
  else 0

theorem painted_of_visible {p : Ppu} (h : p.visible = true) : p.painted = p.pixel := by
  simp only [visible, Bool.and_eq_true, decide_eq_true_eq] at h
  rw [painted, if_pos h.1.1, pixel]
  omega

theorem painted_of_finishes {p : Ppu} (h : p.finishes = true) : p.painted = 61440 := by
  simp only [finishes, Bool.and_eq_true, decide_eq_true_eq] at h
  rw [painted, if_neg (by omega), if_pos (by omega)]

theorem painted_clock {p : Ppu} (h : p.InFrame) (data : UInt8) : (p.clock data).painted =
    if p.finishes then 0 else if p.visible then p.painted + 1 else p.painted := by
  obtain ⟨hdot, hline⟩ := h
  unfold painted finishes visible
  rw [clock_scanline, clock_dot, nextScanline, nextDot]
  simp only [Bool.and_eq_true, decide_eq_true_eq]
  split_ifs <;> omega

theorem frame_of_painted {p : Ppu} {data : UInt8} (h : 0 < (p.clock data).painted) :
    (p.clock data).frame = p.frame := by
  rw [painted, clock_scanline, clock_dot, nextScanline, nextDot] at h
  rw [clock_frame, nextFrame]
  split_ifs at h ⊢ <;> first | rfl | omega

/-! One access. -/

namespace Memory
variable {σ : Type} (mem : Memory σ)

theorem after_access (x : Ppu × σ) {e : Access σ} (he : e ≠ .clock) :
    (mem.after x e).1.scanline = x.1.scanline ∧ (mem.after x e).1.dot = x.1.dot ∧
    (mem.after x e).1.frame = x.1.frame ∧ (mem.after x e).1.back = x.1.back ∧
    (mem.after x e).1.front = x.1.front := by
  cases e with
  | clock => exact absurd rfl he
  | read r =>
    rw [after]
    dsimp only
    rw [read_eq]
    exact ⟨rfl, rfl, rfl, rfl, rfl⟩
  | write r v =>
    rw [after]
    dsimp only
    rw [write_eq]
    exact ⟨rfl, rfl, rfl, rfl, rfl⟩
  | writeOam | takeFrameReady | change => exact ⟨rfl, rfl, rfl, rfl, rfl⟩

theorem answer_withScreens (x : Ppu × σ) (back front : Screen) :
    mem.answer (x.1.withScreens back front, x.2) = mem.answer x :=
  congrArg (mem.fetch x.2) (x.1.fetch?_withScreens back front)

theorem after_withScreens (x : Ppu × σ) (back front : Screen) (e : Access σ) :
    ∃ back' front', mem.after (x.1.withScreens back front, x.2) e =
      ((mem.after x e).1.withScreens back' front', (mem.after x e).2) := by
  cases e with
  | clock =>
    rw [after, answer_withScreens, clock_withScreens]
    exact ⟨_, _, rfl⟩
  | read r => exact ⟨_, _, Prod.ext (x.1.read_withScreens back front r _) rfl⟩
  | write r v => exact ⟨_, _, Prod.ext (x.1.write_withScreens back front r v) rfl⟩
  | writeOam | takeFrameReady | change => exact ⟨back, front, rfl⟩

theorem run_withScreens (x : Ppu × σ) (back front : Screen) (es : List (Access σ)) :
    ∃ back' front', mem.run (x.1.withScreens back front, x.2) es =
      ((mem.run x es).1.withScreens back' front', (mem.run x es).2) := by
  induction es using List.reverseRecOn with
  | nil => exact ⟨back, front, rfl⟩
  | append_singleton es e ih =>
    obtain ⟨back', front', h⟩ := ih
    rw [run_snoc, run_snoc, h]
    exact mem.after_withScreens _ back' front' e

theorem inFrame_after {x : Ppu × σ} (h : x.1.InFrame) (e : Access σ) :
    (mem.after x e).1.InFrame := by
  by_cases he : e = .clock
  · subst he
    exact h.clock _
  · obtain ⟨hline, hdot, -⟩ := mem.after_access x he
    exact ⟨hdot ▸ h.dot_le, hline ▸ h.scanline_le⟩

/-! A run. -/

/-- In the course of these accesses a dot stored colour `c` at place `i`, in the frame that they
end in. -/
def Stored (x : Ppu × σ) (es : List (Access σ)) (i : Nat) (c : UInt32) : Prop :=
  ∃ es₁ es₂, es = es₁ ++ .clock :: es₂ ∧
    (mem.run x es₁).1.visible = true ∧ (mem.run x es₁).1.pixel = i ∧
    (mem.run x es₁).1.frame = (mem.run x es).1.frame ∧ mem.colour (mem.run x es₁) = c

theorem Stored.snoc {mem : Memory σ} {x : Ppu × σ} {es : List (Access σ)} {i : Nat} {c : UInt32}
    (h : mem.Stored x es i c) {e : Access σ}
    (hframe : (mem.run x (es ++ [e])).1.frame = (mem.run x es).1.frame) :
    mem.Stored x (es ++ [e]) i c := by
  obtain ⟨es₁, es₂, hes, hvisible, hpixel, hframe', hcolour⟩ := h
  refine ⟨es₁, es₂ ++ [e], ?_, hvisible, hpixel, hframe'.trans hframe.symm, hcolour⟩
  rw [hes, List.append_assoc, List.cons_append]

/-- What has been painted has been stored in this frame, over whatever screens. -/
def Painted (x : Ppu × σ) (es : List (Access σ)) : Prop :=
  ∀ (i : Nat) (hi : i < 61440), i < (mem.run x es).1.painted → ∃ c, mem.Stored x es i c ∧
    ∀ back front, (mem.run (x.1.withScreens back front, x.2) es).1.back[i] = c

theorem Painted.access {mem : Memory σ} {x : Ppu × σ} {es : List (Access σ)}
    (h : mem.Painted x es) {e : Access σ} (he : e ≠ .clock) : mem.Painted x (es ++ [e]) := by
  intro i hi hlt
  obtain ⟨hline, hdot, hframe, -, -⟩ := mem.after_access (mem.run x es) he
  rw [run_snoc, painted, hline, hdot] at hlt
  obtain ⟨c, hstored, hback⟩ := h i hi hlt
  refine ⟨c, hstored.snoc (by rw [run_snoc, hframe]), fun back front => ?_⟩
  rw [run_snoc, ← hback back front]
  obtain ⟨-, -, -, hsame, -⟩ := mem.after_access (mem.run (x.1.withScreens back front, x.2) es) he
  simp only [hsame]

theorem back_clock (x : Ppu × σ) (back front : Screen) {es : List (Access σ)}
    (h : (mem.run x es).1.finishes = false) :
    (mem.run (x.1.withScreens back front, x.2) (es ++ [.clock])).1.back =
      (mem.run x es).1.drawnOn (mem.answer (mem.run x es)).1
        (mem.run (x.1.withScreens back front, x.2) es).1.back := by
  obtain ⟨back', front', hrun⟩ := mem.run_withScreens x back front es
  rw [run_snoc, hrun, after, answer_withScreens, clock_withScreens, h]
  rfl

theorem Painted.clock {mem : Memory σ} {x : Ppu × σ} {es : List (Access σ)}
    (hin : (mem.run x es).1.InFrame) (h : mem.Painted x es) :
    mem.Painted x (es ++ [.clock]) := by
  intro i hi hlt
  have hframe : (mem.run x (es ++ [.clock])).1.frame = (mem.run x es).1.frame := by
    rw [run_snoc] at hlt ⊢
    exact frame_of_painted (Nat.zero_lt_of_lt hlt)
  have hpainted := painted_clock hin (mem.answer (mem.run x es)).1
  rw [run_snoc, after, hpainted] at hlt
  cases hfinishes : (mem.run x es).1.finishes with
  | true =>
    rw [hfinishes, if_pos rfl] at hlt
    exact absurd hlt (Nat.not_lt_zero i)
  | false =>
    rw [hfinishes, if_neg Bool.false_ne_true] at hlt
    cases hvisible : (mem.run x es).1.visible with
    | false =>
      rw [hvisible, if_neg Bool.false_ne_true] at hlt
      obtain ⟨c, hstored, hback⟩ := h i hi hlt
      refine ⟨c, hstored.snoc hframe, fun back front => ?_⟩
      rw [← hback back front]
      simp only [mem.back_clock x back front hfinishes, drawnOn, hvisible, Bool.false_eq_true,
        if_false]
    | true =>
      rw [hvisible, if_pos rfl] at hlt
      have hpixel := painted_of_visible hvisible
      obtain hlt | rfl := Nat.lt_succ_iff_lt_or_eq.mp hlt
      · obtain ⟨c, hstored, hback⟩ := h i hi hlt
        refine ⟨c, hstored.snoc hframe, fun back front => ?_⟩
        rw [← hback back front]
        simp only [mem.back_clock x back front hfinishes, drawnOn, hvisible, if_true]
        exact Vector.getElem_setIfInBounds_ne hi (by omega)
      · refine ⟨mem.colour (mem.run x es),
          ⟨es, [], rfl, hvisible, hpixel.symm, hframe.symm, rfl⟩, fun back front => ?_⟩
        simp only [mem.back_clock x back front hfinishes, drawnOn, hvisible, if_true, hpixel]
        exact Vector.getElem_setIfInBounds_self (hpixel ▸ hi)

theorem painted_run {x : Ppu × σ} (hin : x.1.InFrame) (hx : x.1.painted = 0)
    (es : List (Access σ)) : (mem.run x es).1.InFrame ∧ mem.Painted x es := by
  induction es using List.reverseRecOn with
  | nil =>
    refine ⟨hin, fun i _ hi => ?_⟩
    rw [run, List.foldl_nil, hx] at hi
    exact absurd hi (Nat.not_lt_zero i)
  | append_singleton es e ih =>
    obtain ⟨hin', hpainted⟩ := ih
    refine ⟨?_, ?_⟩
    · rw [run_snoc]
      exact mem.inFrame_after hin' e
    · by_cases he : e = .clock
      · subst he
        exact hpainted.clock hin'
      · exact hpainted.access he

/-- The front is replaced where a picture is finished, and nowhere else. -/
theorem front_after (x : Ppu × σ) {e : Access σ} (h : (mem.after x e).1.front ≠ x.1.front) :
    e = .clock ∧ x.1.finishes = true := by
  by_cases he : e = .clock
  · subst he
    refine ⟨rfl, ?_⟩
    by_contra hfinishes
    rw [after, clock_eq] at h
    exact h (if_neg hfinishes)
  · exact absurd (mem.after_access x he).2.2.2.2 h

theorem front_finish (x : Ppu × σ) (back front : Screen) {es : List (Access σ)}
    (h : (mem.run x es).1.finishes = true) :
    (mem.run (x.1.withScreens back front, x.2) (es ++ [.clock])).1.front =
      (mem.run (x.1.withScreens back front, x.2) es).1.back := by
  have hvisible : (mem.run x es).1.visible = false := by
    simp only [finishes, Bool.and_eq_true, decide_eq_true_eq] at h
    simp [visible, h.1]
  obtain ⟨back', front', hrun⟩ := mem.run_withScreens x back front es
  rw [run_snoc, hrun, after, answer_withScreens, clock_withScreens, h, drawnOn, hvisible]
  rfl

theorem position_clocks {x : Ppu × σ} (h : x.1.InFrame) (n : Nat)
    (hn : x.1.position + n < 89342) :
    (mem.run x (List.replicate n .clock)).1.InFrame ∧
    (mem.run x (List.replicate n .clock)).1.position = x.1.position + n := by
  induction n with
  | zero => exact ⟨h, rfl⟩
  | succ n ih =>
    obtain ⟨hin, hposition⟩ := ih (by omega)
    rw [List.replicate_succ', run_snoc]
    exact ⟨hin.clock _, (position_clock hin (by omega) _).trans (by omega)⟩

theorem position_write {x : Ppu × σ} (h : x.1.InFrame) (k n r : Nat) (v : UInt8)
    (hn : x.1.position + k + n < 89342) :
    let es := List.replicate k .clock ++ .write r v :: List.replicate n .clock
    (mem.run x es).1.InFrame ∧ (mem.run x es).1.position = x.1.position + k + n := by
  intro es
  obtain ⟨hin, hposition⟩ := mem.position_clocks h k (by omega)
  have hrun : mem.run x es = mem.run (mem.after (mem.run x (List.replicate k .clock)) (.write r v))
      (List.replicate n .clock) := List.foldl_append
  generalize mem.run x (List.replicate k .clock) = s at hin hposition hrun
  obtain ⟨hline, hdot, -⟩ := mem.after_access s (e := .write r v) (by simp)
  have hwritten : (mem.after s (.write r v)).1.position = x.1.position + k := by
    rw [← hposition, position, hline, hdot, ← position]
  obtain ⟨hin', hposition'⟩ := mem.position_clocks (mem.inFrame_after hin (.write r v)) n (by omega)
  rw [hrun]
  exact ⟨hin', hposition'.trans (by rw [hwritten])⟩

end Memory

/-! The unit in the console. -/

def Memory.picture : Memory PictureBus := ⟨PictureBus.read, PictureBus.write⟩

/-- The processor's bus drives the unit by these accesses, over the picture bus. -/
structure OnBus (b : Bus) : Prop where
  clock_eq : (b.clockPpu.ppu, b.clockPpu.picture) = Memory.picture.after (b.ppu, b.picture) .clock
  read_eq : ∀ r, ((b.readPpu r).2.ppu, (b.readPpu r).2.picture) =
    Memory.picture.after (b.ppu, b.picture) (.read r)
  write_eq : ∀ r v, ((b.writePpu r v).ppu, (b.writePpu r v).picture) =
    Memory.picture.after (b.ppu, b.picture) (.write r v)

theorem onBus (b : Bus) : OnBus b where
  clock_eq := by
    rw [Bus.clockPpu, Memory.after, Memory.answer]
    cases b.ppu.fetch? <;> rfl
  read_eq r := by
    rw [Bus.readPpu, Memory.after]
    cases b.ppu.readFetch? r <;> rfl
  write_eq r v := by
    rw [Bus.writePpu, Memory.after]
    cases b.ppu.writeTarget? r <;> rfl

theorem Accessed.front_eq {p q : Ppu} (h : Accessed p q) : q.front = p.front := by
  induction h with
  | refl => rfl
  | read _ r data ih =>
    rw [read_eq]
    exact ih
  | write _ r v ih =>
    rw [write_eq]
    exact ih
  | writeOam _ v ih => exact ih

theorem front_tick {s : Console} (h : s.tick.2.bus.ppu.front ≠ s.bus.ppu.front) :
    s.bus.ppu.finishes = true := by
  obtain ⟨data, haccessed⟩ := s.ppu_tick
  by_contra hfinishes
  rw [haccessed.front_eq, clock_eq] at h
  exact h (if_neg hfinishes)

theorem finishes_eq_true (p : Ppu) : p.finishes = true ↔ p.scanline = 241 ∧ p.dot = 1 := by
  simp [finishes]

/-- From the beginning of a frame two runs over different screens, with the same accesses, differ in
their screens alone, and once the frame is finished no longer in the picture that is shown: each of
its pixels was stored in that frame. The picture that is shown changes at no other time. -/
theorem picture_fresh {σ : Type} (mem : Memory σ) (x : Ppu × σ) (back front : Screen)
    (es : List (Access σ)) (hstart : x.1.scanline = 0 ∧ x.1.dot ≤ 1)
    (hend : (mem.run x es).1.scanline = 241 ∧ (mem.run x es).1.dot = 1) :
    let y : Ppu × σ := (x.1.withScreens back front, x.2)
    let shown := (mem.run x (es ++ [.clock])).1.front
    (mem.run y (es ++ [.clock])).1.front = shown ∧
    (∀ fs, ∃ back' front',
      mem.run y fs = ((mem.run x fs).1.withScreens back' front', (mem.run x fs).2)) ∧
    (∀ (i : Nat) (hi : i < 61440), mem.Stored x es i shown[i]) ∧
    (∀ (z : Ppu × σ) (e : Access σ), (mem.after z e).1.front ≠ z.1.front →
      e = .clock ∧ z.1.scanline = 241 ∧ z.1.dot = 1) ∧
    (∀ b : Bus, OnBus b) ∧
    ∀ (c : Console) (n : Nat), (c.run (n + 1)).bus.ppu.front ≠ (c.run n).bus.ppu.front →
      (c.run n).bus.ppu.scanline = 241 ∧ (c.run n).bus.ppu.dot = 1 := by
  intro y shown
  have hfinishes := (finishes_eq_true _).mpr hend
  have hin : x.1.InFrame := ⟨by omega, by omega⟩
  have hnone : x.1.painted = 0 := by
    rw [painted, if_pos (by omega)]
    omega
  obtain ⟨-, hpainted⟩ := mem.painted_run hin hnone es
  have hall (i : Nat) (hi : i < 61440) := hpainted i hi (painted_of_finishes hfinishes ▸ hi)
  have hshown : shown = (mem.run x es).1.back := mem.front_finish x x.1.back x.1.front hfinishes
  have hshown' : (mem.run y (es ++ [.clock])).1.front = (mem.run y es).1.back :=
    mem.front_finish x back front hfinishes
  refine ⟨?_, mem.run_withScreens x back front, fun i hi => ?_, fun z e hz => ?_, onBus,
    fun c n hc => ?_⟩
  · rw [hshown, hshown']
    refine Vector.ext fun i hi => ?_
    obtain ⟨c, -, hback⟩ := hall i hi
    exact (hback back front).trans (hback x.1.back x.1.front).symm
  · obtain ⟨c, hstored, hback⟩ := hall i hi
    have hpixel : shown[i] = c := by
      simp only [hshown]
      exact hback x.1.back x.1.front
    rwa [hpixel]
  · obtain ⟨he, hfinish⟩ := mem.front_after z hz
    exact ⟨he, (finishes_eq_true _).mp hfinish⟩
  · rw [Console.run_succ] at hc
    exact (finishes_eq_true _).mp (front_tick hc)

/-- Rendering is switched on in the middle of a frame that began over a white screen. -/
theorem picture_fresh_switched :
    let mem : Memory Unit := ⟨fun m a => (UInt8.ofNat a, m), fun m _ _ => m⟩
    let x : Ppu × Unit := ({}, ())
    let white : Screen := Vector.replicate _ 0xFFFFFFFF
    let es : List (Access Unit) :=
      List.replicate 40000 .clock ++ .write 1 0x1E :: List.replicate 42182 .clock
    x.1.scanline = 0 ∧ x.1.dot ≤ 1 ∧
    (mem.run x es).1.scanline = 241 ∧ (mem.run x es).1.dot = 1 ∧
    (mem.run (x.1.withScreens white white, x.2) (es ++ [.clock])).1.front =
      (mem.run x (es ++ [.clock])).1.front := by
  intro mem x white es
  have hdot : x.1.dot = 0 := rfl
  have hposition : x.1.position = 0 := rfl
  have hstart : x.1.scanline = 0 ∧ x.1.dot ≤ 1 := ⟨rfl, hdot ▸ Nat.zero_le 1⟩
  have hin : x.1.InFrame := ⟨by rw [hdot]; decide, by rw [hstart.1]; decide⟩
  have hrun : (mem.run x es).1.InFrame ∧ (mem.run x es).1.position = x.1.position + 40000 + 42182 :=
    mem.position_write hin 40000 42182 1 0x1E (by rw [hposition]; decide)
  have hend : (mem.run x es).1.scanline = 241 ∧ (mem.run x es).1.dot = 1 :=
    hrun.1.at_position (by decide) (hrun.2.trans (by rw [hposition]))
  have hfresh := picture_fresh mem x white white es hstart hend
  exact ⟨hstart.1, hstart.2, hend.1, hend.2, hfresh.1⟩

end Famicom.Ppu
