import Mathlib.Logic.Function.Iterate

/-!
# Text pages

A page has rows of `width` cells, as many as are needed, and a cursor.  A screen of `height` rows
shows the rows of the page from `top` on: the first ones, or the last ones once the cursor is below
them.

* `Page.shown_setCell`, `Page.shown_newline`: what the screen shows after a cell is written, and
  after the cursor goes to the next row.
* `Page.Fits.put`, `Page.Fits.newline`: the cursor stays in the row, and nothing is
  below it.
-/

namespace Aosis.Lib

/-- The cells by row and column, and the cursor. -/
structure Page (α : Type*) where
  cell : Nat → Nat → α
  row : Nat
  col : Nat

namespace Page

variable {α : Type*} {p : Page α} {b c : α} {width height x y : Nat}

/-- The page on which nothing is written. -/
def empty (b : α) : Page α := ⟨fun _ _ => b, 0, 0⟩

/-- To the first column of the next row. -/
def newline (p : Page α) : Page α := { p with row := p.row + 1, col := 0 }

/-- The page with `c` in the cell at the cursor. -/
def setCell (c : α) (p : Page α) : Page α :=
  { p with cell := Function.update p.cell p.row (Function.update (p.cell p.row) p.col c) }

/-- Write `c` at the cursor, which moves on by one cell. -/
def put (width : Nat) (c : α) (p : Page α) : Page α :=
  if p.col + 1 = width then (p.setCell c).newline
  else { p.setCell c with col := p.col + 1 }

/-- Write `c` up to the next column that is a multiple of `stop`. -/
def tab (width stop : Nat) (c : α) (p : Page α) : Page α :=
  (put width c)^[(p.col / stop + 1) * stop - p.col] p

/-- The first row on the screen. -/
def top (height : Nat) (p : Page α) : Nat := p.row + 1 - height

/-- The cell at row `y` and column `x` of the screen. -/
def shown (height : Nat) (p : Page α) (y x : Nat) : α := p.cell (p.top height + y) x

/-- The cursor is inside its row, and the rows below it are blank. -/
structure Fits (b : α) (width : Nat) (p : Page α) : Prop where
  col_lt : p.col < width
  below : ∀ r, p.row < r → ∀ x, p.cell r x = b

namespace Fits

theorem empty (h : 0 < width) : Fits b width (empty b) := ⟨h, fun _ _ _ => rfl⟩

theorem newline (hp : Fits b width p) : Fits b width p.newline := by
  refine ⟨Nat.zero_lt_of_lt hp.col_lt, ?_⟩
  intro r hr x
  exact hp.below r (Nat.lt_of_succ_lt hr) x

theorem setCell (hp : Fits b width p) (c : α) : Fits b width (p.setCell c) := by
  refine ⟨hp.col_lt, ?_⟩
  intro r hr x
  have hne : r ≠ p.row := Nat.ne_of_gt hr
  simp only [Page.setCell, Function.update_of_ne hne]
  exact hp.below r hr x

theorem put (hp : Fits b width p) (c : α) : Fits b width (p.put width c) := by
  have hlt := hp.col_lt
  rw [Page.put]
  split
  · exact (hp.setCell c).newline
  · exact ⟨by dsimp only; omega, (hp.setCell c).below⟩

end Fits

theorem shown_setCell : (p.setCell c).shown height y x =
    if p.top height + y = p.row ∧ x = p.col then c else p.shown height y x := by
  have htop : (p.setCell c).top height = p.top height := rfl
  rw [shown, shown, htop, setCell]
  by_cases hrow : p.top height + y = p.row
  · by_cases hcol : x = p.col
    · simp [hrow, hcol]
    · simp [hrow, hcol]
  · simp [hrow]

theorem shown_newline (hp : Fits b width p) (hy : y < height) :
    p.newline.shown height y x =
      if p.row + 1 < height then p.shown height y x
      else if y + 1 < height then p.shown height (y + 1) x else b := by
  have htop : p.newline.top height = p.row + 2 - height := rfl
  rw [shown, shown, shown, htop, top]
  by_cases hrow : p.row + 1 < height
  · rw [if_pos hrow, show p.row + 2 - height = p.row + 1 - height by omega]
    rfl
  · rw [if_neg hrow]
    by_cases hlast : y + 1 < height
    · rw [if_pos hlast, show p.row + 2 - height + y = p.row + 1 - height + (y + 1) by omega]
      rfl
    · rw [if_neg hlast]
      exact hp.below _ (by omega) x

end Page

end Aosis.Lib
