import Mathlib.Data.List.Induction

/-!
# Flags driven by a sequence of symbols

A latch is a flag that some symbols set and others clear; a toggle is a flag that some symbols
invert.  `latch on off f as` and `toggle p f as` are such flags after the symbols `as`, when they
were `f` before.

* `latch_eq_last`: a latch is set if the last symbol that moves it sets it.
* `toggle_eq_parity`: a toggle counts modulo two.
-/

namespace Aosis.Lib

variable {α : Type*} (on off p : α → Bool) (f : Bool)

/-- One symbol of a latch. -/
def latchStep (f : Bool) (a : α) : Bool := if on a then true else if off a then false else f

/-- A flag that `on` sets and `off` clears. -/
def latch (as : List α) : Bool := as.foldl (latchStep on off) f

/-- A flag that `p` inverts. -/
def toggle (as : List α) : Bool := as.foldl (fun f a => if p a then !f else f) f

/-- The last symbol that moves the latch. -/
def lastMove (as : List α) : Option α := (as.filter fun a => on a || off a).getLast?

section Latch

variable {on off p f} {as bs : List α} {a : α}

theorem latch_append : latch on off f (as ++ bs) = latch on off (latch on off f as) bs := by
  simp only [latch, List.foldl_append]

theorem toggle_append : toggle p f (as ++ bs) = toggle p (toggle p f as) bs := by
  simp only [toggle, List.foldl_append]

theorem lastMove_concat : lastMove on off (as ++ [a]) =
    if on a || off a then some a else lastMove on off as := by
  simp only [lastMove, List.filter_append]
  by_cases ha : (on a || off a) = true
  · simp [ha]
  · simp [ha]

/-- **A latch follows the last symbol that moves it.** -/
theorem latch_eq_last : latch on off f as = (lastMove on off as).elim f on := by
  induction as using List.reverseRecOn with
  | nil => rfl
  | append_singleton as a ih =>
    rw [latch_append, ih, lastMove_concat]
    simp only [latch, List.foldl_cons, List.foldl_nil, latchStep]
    by_cases hon : on a = true
    · simp [hon]
    · by_cases hoff : off a = true <;> simp [hon, hoff]

/-- **A toggle counts modulo two.** -/
theorem toggle_eq_parity : toggle p false as = decide (as.countP p % 2 = 1) := by
  induction as using List.reverseRecOn with
  | nil => rfl
  | append_singleton as a ih =>
    rw [toggle_append, ih, List.countP_append]
    simp only [toggle, List.foldl_cons, List.foldl_nil]
    by_cases ha : p a = true
    · rw [if_pos ha, List.countP_cons_of_pos ha, List.countP_nil, ← decide_not, decide_eq_decide]
      omega
    · rw [if_neg ha, List.countP_cons_of_neg ha, List.countP_nil, Nat.add_zero]

end Latch

end Aosis.Lib
