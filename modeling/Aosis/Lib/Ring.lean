import Mathlib.Data.Vector.Basic
import Mathlib.Data.Nat.ModEq

/-!
# Ring buffers

A queue kept in an array `buff` from the index `head` on, with indices counted modulo `m`:
`Holds buff m head q` says that the array holds the elements of `q`, oldest first.  The
modulus and the length of the array are two parameters; a ring is in order when they agree,
but the rules `Holds.push` and `Holds.pop` need only that the index they touch lies inside
the array.

`Bounded` is the queue a ring of `c` places stands for: it refuses an element when `c` are
waiting.
-/

namespace Aosis.Lib

variable {α : Type*} {n : Nat}

/-- The bounded first-in first-out queue. -/
def Bounded.add (c : Nat) (q : List α) (x : α) : List α :=
  if q.length < c then q ++ [x] else q

namespace Ring

/-- The array holds the queue `q` from index `head` on, modulo `m`. -/
def Holds (buff : Vector α n) (m head : Nat) (q : List α) : Prop :=
  ∀ i (h : i < q.length), buff[(head + i) % m]? = some q[i]

theorem holds_nil (buff : Vector α n) (m head : Nat) : Holds buff m head [] :=
  fun i h => absurd h (Nat.not_lt_zero i)

theorem mod_ne_of_lt {m head i l : Nat} (hi : i < l) (hl : l < m) :
    (head + i) % m ≠ (head + l) % m := by
  intro h
  have hmod : i % m = l % m := Nat.ModEq.add_left_cancel' head h
  rw [Nat.mod_eq_of_lt (by omega), Nat.mod_eq_of_lt hl] at hmod
  omega

theorem Holds.push {buff : Vector α n} {m head : Nat} {q : List α} (h : Holds buff m head q)
    (hq : q.length < m) (hn : (head + q.length) % m < n) (x : α) :
    Holds (buff.set ((head + q.length) % m) x) m head (q ++ [x]) := by
  intro i hi
  rw [List.length_append, List.length_singleton] at hi
  by_cases hlast : i < q.length
  · rw [Vector.getElem?_set_ne hn (mod_ne_of_lt hlast hq).symm, h i hlast,
      List.getElem_append_left hlast]
  · obtain rfl : i = q.length := by omega
    rw [Vector.getElem?_set_self hn]
    simp

theorem Holds.pop {buff : Vector α n} {m head : Nat} {x : α} {q : List α}
    (h : Holds buff m head (x :: q)) :
    buff[head % m]? = some x ∧ Holds buff m ((head + 1) % m) q := by
  refine ⟨h 0 (by simp), ?_⟩
  intro i hi
  have hstep := h (i + 1) (by simpa using hi)
  rwa [← Nat.add_assoc, Nat.add_right_comm, ← Nat.mod_add_mod] at hstep

end Ring

end Aosis.Lib
