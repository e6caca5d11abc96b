import Mathlib.Algebra.Order.Field.Basic
import Mathlib.Data.Nat.Cast.Order.Ring
import Mathlib.Tactic.Linarith

/-!
# Rectangles of one size

Rectangles with the same width and height, given by their top left corners. Two of them are apart when a gap is
between them in one of the directions. The cells of a grid that is filled column by column are apart
(`apart_cells`), whichever way its columns go.
-/

namespace Rectangles

structure Point (K : Type) where
  x : K
  y : K
  deriving DecidableEq

variable {K : Type} [Field K] [LinearOrder K] [IsStrictOrderedRing K] {w h : K}

def Apart (w h : K) (p q : Point K) : Prop := p.x + w < q.x ∨ q.x + w < p.x ∨ p.y + h < q.y ∨ q.y + h < p.y

omit [IsStrictOrderedRing K] in
theorem Apart.symm {p q : Point K} (hApart : Apart w h p q) : Apart w h q p := by
  rcases hApart with hx | hx | hy | hy
  · exact Or.inr (Or.inl hx)
  · exact Or.inl hx
  · exact Or.inr (Or.inr (Or.inr hy))
  · exact Or.inr (Or.inr (Or.inl hy))

/-- Steps that are longer than the rectangles leave a gap. -/
theorem gap_of_lt {step : K} (hSize : w < step) (hPos : 0 ≤ step) {m n : Nat} (hLt : m < n) :
    m * step + w < n * step := by
  have hNext : ((m + 1 : Nat) : K) * step ≤ n * step := mul_le_mul_of_nonneg_right (Nat.cast_le.mpr hLt) hPos
  rw [Nat.cast_succ, add_mul, one_mul] at hNext
  linarith

/-- The cells of a grid with a number of rows; `s` is the side to which its columns go. -/
def cell (s left top dx dy : K) (rows i : Nat) : Point K :=
  ⟨left + s * ((i / rows : Nat) * dx), top + (i % rows : Nat) * dy⟩

variable {s left top dx dy : K} {rows i j : Nat}

theorem apart_of_column (hs : s = 1 ∨ s = -1) (hw : w < dx) (hdx : 0 ≤ dx) (hLt : i / rows < j / rows) :
    Apart w h (cell s left top dx dy rows i) (cell s left top dx dy rows j) := by
  have hGap := gap_of_lt hw hdx hLt
  rcases hs with rfl | rfl
  · exact Or.inl (by simp only [cell]; linarith)
  · exact Or.inr (Or.inl (by simp only [cell]; linarith))

theorem apart_of_row (hh : h < dy) (hdy : 0 ≤ dy) (hLt : i % rows < j % rows) :
    Apart w h (cell s left top dx dy rows i) (cell s left top dx dy rows j) := by
  have hGap := gap_of_lt hh hdy hLt
  exact Or.inr (Or.inr (Or.inl (by simp only [cell]; linarith)))

/-- Different cells of a grid are apart. -/
theorem apart_cells (hs : s = 1 ∨ s = -1) (hw : w < dx) (hdx : 0 ≤ dx) (hh : h < dy) (hdy : 0 ≤ dy) (hNe : i ≠ j) :
    Apart w h (cell s left top dx dy rows i) (cell s left top dx dy rows j) := by
  rcases Nat.lt_trichotomy (i / rows) (j / rows) with hColumn | hColumn | hColumn
  · exact apart_of_column hs hw hdx hColumn
  · rcases Nat.lt_trichotomy (i % rows) (j % rows) with hRow | hRow | hRow
    · exact apart_of_row hh hdy hRow
    · exact absurd ((Nat.div_add_mod i rows).symm.trans (hColumn ▸ hRow ▸ Nat.div_add_mod j rows)) hNe
    · exact (apart_of_row hh hdy hRow).symm
  · exact (apart_of_column hs hw hdx hColumn).symm

end Rectangles
