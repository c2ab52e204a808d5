import Mathlib.Data.List.Basic
import Mathlib.Order.Basic

/-!
# The first difference of two lists

`firstDiff a b` are the entries at the first place where the two lists differ.  A loop that compares two
arrays stops there, and the lexicographic order of the lists is the order of these entries
(`lt_iff_of_firstDiff`).
-/

namespace Aosis.Lib

variable {α : Type*} [DecidableEq α]

/-- The entries at the first place where the lists differ, as long as both have entries. -/
def firstDiff : List α → List α → Option (α × α)
  | x :: a, y :: b => if x = y then firstDiff a b else some (x, y)
  | _, _ => none

section FirstDiff

variable {x y : α} {a b : List α}

theorem firstDiff_cons_self : firstDiff (x :: a) (x :: b) = firstDiff a b := by
  rw [firstDiff, if_pos rfl]

theorem firstDiff_cons_of_ne (h : x ≠ y) : firstDiff (x :: a) (y :: b) = some (x, y) := by
  rw [firstDiff, if_neg h]

theorem eq_of_firstDiff_eq_none (hlen : a.length = b.length) (h : firstDiff a b = none) : a = b := by
  induction a generalizing b with
  | nil => exact (List.eq_nil_of_length_eq_zero hlen.symm).symm
  | cons x a ih =>
    cases b with
    | nil => cases hlen
    | cons y b =>
      by_cases hxy : x = y
      · subst hxy
        rw [firstDiff_cons_self] at h
        rw [ih (Nat.succ_inj.mp hlen) h]
      · rw [firstDiff_cons_of_ne hxy] at h
        cases h

theorem ne_of_firstDiff (h : firstDiff a b = some (x, y)) : x ≠ y := by
  induction a generalizing b with
  | nil => cases h
  | cons c a ih =>
    cases b with
    | nil => cases h
    | cons d b =>
      by_cases hcd : c = d
      · subst hcd
        rw [firstDiff_cons_self] at h
        exact ih h
      · rw [firstDiff_cons_of_ne hcd] at h
        cases h
        exact hcd

theorem firstDiff_swap (h : firstDiff a b = some (x, y)) : firstDiff b a = some (y, x) := by
  induction a generalizing b with
  | nil => cases h
  | cons c a ih =>
    cases b with
    | nil => cases h
    | cons d b =>
      by_cases hcd : c = d
      · subst hcd
        rw [firstDiff_cons_self] at h ⊢
        exact ih h
      · rw [firstDiff_cons_of_ne hcd] at h
        rw [firstDiff_cons_of_ne (Ne.symm hcd)]
        cases h
        rfl

/-- **The order of two lists is that of their first difference.** -/
theorem lt_iff_of_firstDiff [LT α] [Std.Irrefl fun x y : α => x < y]
    (h : firstDiff a b = some (x, y)) : a < b ↔ x < y := by
  induction a generalizing b with
  | nil => cases h
  | cons c a ih =>
    cases b with
    | nil => cases h
    | cons d b =>
      rw [List.cons_lt_cons_iff]
      by_cases hcd : c = d
      · subst hcd
        rw [firstDiff_cons_self] at h
        rw [ih h]
        constructor
        · rintro (hlt | ⟨-, hlt⟩)
          · exact absurd hlt (Std.Irrefl.irrefl c)
          · exact hlt
        · intro hlt
          exact Or.inr ⟨rfl, hlt⟩
      · rw [firstDiff_cons_of_ne hcd] at h
        cases h
        constructor
        · rintro (hlt | ⟨heq, -⟩)
          · exact hlt
          · exact absurd heq hcd
        · intro hlt
          exact Or.inl hlt

end FirstDiff

end Aosis.Lib
