import Mathlib.Data.List.Induction

/-!
# Runs of a labelled step relation

A system is a relation `step s a s'`: from the state `s` the operation `a` may lead to
`s'`.  `Run step s as s'` says that the operations `as`, performed in this order, may lead
from `s` to `s'`.  A run grows at its end, so an invariant passes from a state to the next
one by the rule `Run.invariant`.

A condition on the steps of a run is put into the relation: `step.Within C` allows only the
steps of `step` that start in a state and with an operation satisfying `C`.
-/

namespace Aosis.Lib

/-- The operations `as` may lead from the first state to the last one. -/
inductive Run {σ ι : Type*} (step : σ → ι → σ → Prop) (s : σ) : List ι → σ → Prop
  | nil : Run step s [] s
  | snoc {as : List ι} {t : σ} {a : ι} {u : σ} :
      Run step s as t → step t a u → Run step s (as ++ [a]) u

/-- The steps of `step` that satisfy the condition `C` on their state and operation. -/
def Within {σ ι : Type*} (step : σ → ι → σ → Prop) (C : σ → ι → Prop) (s : σ) (a : ι)
    (s' : σ) : Prop := C s a ∧ step s a s'

/-- Two runs of the same operations, side by side. -/
def Both {σ ι : Type*} (step : σ → ι → σ → Prop) (s : σ × σ) (a : ι) (s' : σ × σ) : Prop :=
  step s.1 a s'.1 ∧ step s.2 a s'.2

namespace Run

variable {σ ι : Type*} {step step' : σ → ι → σ → Prop} {s t u : σ} {as bs : List ι} {a : ι}

theorem single (h : step s a t) : Run step s [a] t := snoc nil h

/-- **The invariant rule.**  What holds at the start and passes over every step holds at
the end of every run. -/
theorem invariant {I : σ → Prop} (hStep : ∀ {t a u}, I t → step t a u → I u)
    (hRun : Run step s as t) (hInit : I s) : I t := by
  induction hRun with
  | nil => exact hInit
  | snoc _ hs ih => exact hStep ih hs

/-- The invariant rule for an invariant that speaks about the operations performed so
far. -/
theorem invariantOn {I : List ι → σ → Prop}
    (hStep : ∀ {as t a u}, Run step s as t → I as t → step t a u → I (as ++ [a]) u)
    (hRun : Run step s as t) (hInit : I [] s) : I as t := by
  induction hRun with
  | nil => exact hInit
  | snoc hr hs ih => exact hStep hr ih hs

theorem trans (h : Run step s as t) (g : Run step t bs u) : Run step s (as ++ bs) u := by
  induction g with
  | nil => rwa [List.append_nil]
  | snoc _ hs ih => rw [← List.append_assoc]; exact ih.snoc hs

theorem cons (h : step s a t) (g : Run step t as u) : Run step s (a :: as) u :=
  (single h).trans g

theorem exists_of_total (h : ∀ s a, ∃ t, step s a t) (s : σ) (as : List ι) :
    ∃ t, Run step s as t := by
  induction as using List.reverseRecOn with
  | nil => exact ⟨s, nil⟩
  | append_singleton as a ih =>
    obtain ⟨t, ht⟩ := ih
    obtain ⟨u, hu⟩ := h t a
    exact ⟨u, ht.snoc hu⟩

theorem mono (hStep : ∀ {t a u}, step t a u → step' t a u) (h : Run step s as t) :
    Run step' s as t := by
  induction h with
  | nil => exact nil
  | snoc _ hs ih => exact ih.snoc (hStep hs)

theorem eq_of_nil (h : Run step s [] t) : t = s := by
  generalize hn : ([] : List ι) = l at h
  cases h with
  | nil => rfl
  | snoc => exact absurd hn.symm (by simp)

theorem of_snoc (h : Run step s (as ++ [a]) u) : ∃ t, Run step s as t ∧ step t a u := by
  generalize hl : as ++ [a] = l at h
  cases h with
  | nil => exact absurd hl (by simp)
  | snoc hr hs =>
    obtain ⟨rfl, he⟩ := List.append_inj' hl rfl
    obtain rfl : a = _ := List.singleton_inj.mp he
    exact ⟨_, hr, hs⟩

end Run

end Aosis.Lib
