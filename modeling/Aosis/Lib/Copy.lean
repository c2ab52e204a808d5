import Mathlib.Data.List.Basic
import Mathlib.Logic.Function.Basic

/-!
# Copies and assignments one after the other

`copyAlong l mem` assigns the value at `s` to the cell `d`, for the pairs `(d, s)` of the list in this
order.  A copy may overwrite a cell that a later one reads.

* `copyAlong_of_mem`: when no copy does so, every cell `d` gets the value that was at `s` before the
  first copy.
* `copyAlong_of_not_mem`: the other cells keep their values.

`assignAlong w h l mem` changes the cell `w a` with `h a`, for each `a` of the list.

* `assignAlong_of_mem`, `assignAlong_of_not_mem`: when no cell is changed twice, each of them gets the
  new value, and the other cells keep theirs.
-/

namespace Aosis.Lib

variable {A V : Type*} [DecidableEq A]

/-- The assignments `mem d := mem s` for the pairs `(d, s)`, in their order. -/
def copyAlong (l : List (A × A)) (mem : A → V) : A → V :=
  l.foldl (fun mem p => Function.update mem p.1 (mem p.2)) mem

/-- A cell that is written is not read later, and not written again. -/
def NoClobber (l : List (A × A)) : Prop := l.Pairwise fun p q => p.1 ≠ q.1 ∧ p.1 ≠ q.2

section Copy

variable {l : List (A × A)} {p : A × A} {a : A}

theorem copyAlong_cons (mem : A → V) :
    copyAlong (p :: l) mem = copyAlong l (Function.update mem p.1 (mem p.2)) := rfl

theorem copyAlong_of_not_mem (mem : A → V) (h : ∀ p ∈ l, a ≠ p.1) : copyAlong l mem a = mem a := by
  induction l generalizing mem with
  | nil => rfl
  | cons p l ih =>
    rw [copyAlong_cons, ih _ fun q hq => h q (List.mem_cons_of_mem p hq)]
    exact Function.update_of_ne (h p List.mem_cons_self) _ _

/-- **A sequence of copies that does not clobber its sources copies all of them.** -/
theorem copyAlong_of_mem (mem : A → V) (h : NoClobber l) (hp : p ∈ l) :
    copyAlong l mem p.1 = mem p.2 := by
  induction l generalizing mem with
  | nil => cases hp
  | cons q l ih =>
    obtain ⟨hq, hl⟩ := List.pairwise_cons.mp h
    rw [copyAlong_cons]
    rcases List.mem_cons.mp hp with rfl | hp
    · rw [copyAlong_of_not_mem _ fun r hr => (hq r hr).1, Function.update_self]
    · rw [ih _ hl hp]
      exact Function.update_of_ne (hq p hp).2.symm _ _

end Copy

/-- The assignments `mem (w a) := h a (mem (w a))`, for the members of the list in their order. -/
def assignAlong {ι : Type*} (w : ι → A) (h : ι → V → V) (l : List ι) (mem : A → V) : A → V :=
  l.foldl (fun mem a => Function.update mem (w a) (h a (mem (w a)))) mem

section Assign

variable {ι : Type*} {w : ι → A} {h : ι → V → V} {l : List ι} {a : ι} {k : A}

theorem assignAlong_cons (mem : A → V) : assignAlong w h (a :: l) mem =
    assignAlong w h l (Function.update mem (w a) (h a (mem (w a)))) := rfl

theorem assignAlong_of_not_mem (mem : A → V) (hk : ∀ a ∈ l, w a ≠ k) :
    assignAlong w h l mem k = mem k := by
  induction l generalizing mem with
  | nil => rfl
  | cons a l ih =>
    rw [assignAlong_cons, ih _ fun b hb => hk b (List.mem_cons_of_mem a hb)]
    exact Function.update_of_ne (hk a List.mem_cons_self).symm _ _

/-- **Each cell of a list without repetition is changed once.** -/
theorem assignAlong_of_mem (mem : A → V) (hl : (l.map w).Nodup) (ha : a ∈ l) :
    assignAlong w h l mem (w a) = h a (mem (w a)) := by
  induction l generalizing mem with
  | nil => cases ha
  | cons b l ih =>
    obtain ⟨hb, hl⟩ := List.nodup_cons.mp hl
    have hne : ∀ c ∈ l, w c ≠ w b := fun c hc he => hb (he ▸ List.mem_map_of_mem hc)
    rw [assignAlong_cons]
    rcases List.mem_cons.mp ha with rfl | ha
    · rw [assignAlong_of_not_mem _ hne, Function.update_self]
    · rw [ih _ hl ha, Function.update_of_ne (hne a ha)]

theorem assignAlong_forall {P : V → Prop} (hP : ∀ a v, P v → P (h a v)) (mem : A → V)
    (hmem : ∀ k, P (mem k)) (k : A) : P (assignAlong w h l mem k) := by
  induction l generalizing mem with
  | nil => exact hmem k
  | cons a l ih =>
    rw [assignAlong_cons]
    refine ih _ fun k => ?_
    rw [Function.update_apply]
    split
    · exact hP a _ (hmem _)
    · exact hmem k

end Assign

end Aosis.Lib
