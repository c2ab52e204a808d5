import Mathlib.Logic.Function.Iterate

/-!
# Tapes

A tape has cells in a line and a head, which writes the cell it is at and moves on (`put`), or goes
back and blanks the cell it comes to (`erase`).

* `erase_put`: erasing undoes writing, where the tape was blank.
* `Blank.put`, `Blank.erase`: the tape stays blank from the head on.
-/

namespace Aosis.Lib

/-- The cells by their index, and the cell where the head is. -/
@[ext] structure Tape (α : Type*) where
  cell : Nat → α
  pos : Nat

namespace Tape

variable {α : Type*} {t : Tape α} {b c : α}

/-- Write `c` and move on. -/
def put (c : α) (t : Tape α) : Tape α := ⟨Function.update t.cell t.pos c, t.pos + 1⟩

/-- Go back and write `b`. -/
def erase (b : α) (t : Tape α) : Tape α := ⟨Function.update t.cell (t.pos - 1) b, t.pos - 1⟩

/-- Nothing is written from the head on. -/
def Blank (b : α) (t : Tape α) : Prop := ∀ i, t.pos ≤ i → t.cell i = b

theorem put_pos : (t.put c).pos = t.pos + 1 := rfl

/-- **Erasing undoes writing.** -/
theorem erase_put (h : t.Blank b) (c : α) : (t.put c).erase b = t := by
  apply Tape.ext
  · show Function.update (Function.update t.cell t.pos c) t.pos b = t.cell
    rw [Function.update_idem, ← h t.pos (Nat.le_refl _), Function.update_eq_self]
  · exact Nat.add_sub_cancel t.pos 1

theorem Blank.put (h : t.Blank b) (c : α) : (t.put c).Blank b := by
  intro i hi
  have hlt : t.pos < i := hi
  show Function.update t.cell t.pos c i = b
  rw [Function.update_of_ne (by omega)]
  exact h i (Nat.le_of_lt hlt)

theorem iterate_put_pos (c : α) (n : Nat) (t : Tape α) : ((put c)^[n] t).pos = t.pos + n := by
  induction n generalizing t with
  | zero => rfl
  | succ n ih =>
    rw [Function.iterate_succ_apply, ih, put_pos]
    omega

theorem Blank.iterate_put (h : t.Blank b) (c : α) (n : Nat) : ((Tape.put c)^[n] t).Blank b := by
  induction n generalizing t with
  | zero => exact h
  | succ n ih => exact ih (h.put c)

end Tape

end Aosis.Lib
