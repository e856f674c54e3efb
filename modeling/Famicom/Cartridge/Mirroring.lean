/-! How the four logical nametable pages share the video RAM. -/
namespace Famicom

inductive Mirroring where
  /-- The pages of a row are one. -/
  | horizontal
  /-- The pages of a column are one. -/
  | vertical
  | singleLower
  | singleUpper
  | fourScreen
deriving DecidableEq

namespace Mirroring

/-- The physical page behind logical page `q` (0 and 1 above, 2 and 3 below). -/
def page (m : Mirroring) (q : Nat) : Nat :=
  match m with
  | horizontal => q / 2
  | vertical => q % 2
  | singleLower => 0
  | singleUpper => 1
  | fourScreen => q

/-- The byte of video RAM that a nametable address selects. -/
def vramOffset (m : Mirroring) (a : Nat) : Nat :=
  m.page (a % 0x1000 / 0x400) * 0x400 + a % 0x400

theorem page_lt (m : Mirroring) {q : Nat} (h : q < 4) : m.page q < 4 := by
  cases m <;> simp [page] <;> omega

theorem vramOffset_lt (m : Mirroring) (a : Nat) : m.vramOffset a < 0x1000 := by
  have := m.page_lt (q := a % 0x1000 / 0x400) (by omega)
  unfold vramOffset
  omega

end Mirroring
end Famicom
