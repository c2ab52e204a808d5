import Mathlib.Logic.Function.Basic
import Mathlib.Data.List.Basic

/-!
# Paths along a successor function

`Path next a l z`: starting at `a` and following `next`, one meets exactly the nodes of `l`
and arrives at `z`.  A singly linked list is a path from its head to the null pointer, a
ring is a path from a node back to itself.

The edits of a linked list change `next` at one node.  `Path.redirect`, `Path.insert` and
`Path.unlink` say what a path becomes when a node is sent elsewhere, a new node is linked in
after it, and its successor is taken out.
-/

namespace Aosis.Lib

variable {α : Type*} {next next' : α → α} {a b n m x z : α} {l l₁ l₂ : List α}

/-- Following `next` from `a` one meets the nodes of `l` and arrives at `z`. -/
def Path (next : α → α) : α → List α → α → Prop
  | a, [], z => a = z
  | a, b :: l, z => a = b ∧ Path next (next a) l z

namespace Path

theorem nil_iff : Path next a [] z ↔ a = z := Iff.rfl

theorem cons_iff : Path next a (b :: l) z ↔ a = b ∧ Path next (next b) l z := by
  refine ⟨?_, ?_⟩
  · rintro ⟨rfl, h⟩
    exact ⟨rfl, h⟩
  · rintro ⟨rfl, h⟩
    exact ⟨rfl, h⟩

theorem append_iff : Path next a (l₁ ++ l₂) z ↔ ∃ m, Path next a l₁ m ∧ Path next m l₂ z := by
  induction l₁ generalizing a with
  | nil => simp [nil_iff]
  | cons b l ih =>
    rw [List.cons_append, cons_iff, ih]
    simp only [cons_iff, and_assoc, exists_and_left]

theorem append_cons_iff :
    Path next a (l₁ ++ b :: l₂) z ↔ Path next a l₁ b ∧ Path next (next b) l₂ z := by
  rw [append_iff]
  refine ⟨?_, fun ⟨h₁, h₂⟩ => ⟨b, h₁, cons_iff.mpr ⟨rfl, h₂⟩⟩⟩
  rintro ⟨m, h₁, h₂⟩
  obtain ⟨rfl, h₃⟩ := cons_iff.mp h₂
  exact ⟨h₁, h₃⟩

theorem congr (h : Path next a l z) (heq : ∀ b ∈ l, next' b = next b) : Path next' a l z := by
  induction l generalizing a with
  | nil => exact h
  | cons b l ih =>
    obtain ⟨rfl, hrest⟩ := h
    refine ⟨rfl, ?_⟩
    rw [heq a List.mem_cons_self]
    exact ih hrest (fun c hc => heq c (List.mem_cons_of_mem a hc))

theorem start_eq (h : Path next a l z) : a = l.head?.getD z := by
  cases l with
  | nil => exact h
  | cons b l => exact h.1

/-- Two paths from one node run together until the first one ends. -/
theorem isPrefix (h : Path next a l z) : ∀ {l' : List α}, Path next a l' m → z ∉ l' →
    l' <+: l := by
  induction l generalizing a with
  | nil =>
    intro l' h' hz
    cases l' with
    | nil => exact List.prefix_rfl
    | cons b l' =>
      have hab : z = b := h.symm.trans h'.1
      exact absurd (hab ▸ List.mem_cons_self) hz
  | cons b l ih =>
    intro l' h' hz
    cases l' with
    | nil => exact List.nil_prefix
    | cons b' l' =>
      obtain ⟨rfl, hrest⟩ := h
      obtain ⟨rfl, hrest'⟩ := h'
      exact List.cons_prefix_cons.mpr
        ⟨rfl, ih hrest hrest' (fun hm => hz (List.mem_cons_of_mem a hm))⟩

theorem end_eq (h : Path next a l z) (h' : Path next a l x) : z = x := by
  induction l generalizing a with
  | nil => exact h.symm.trans h'
  | cons b l ih => exact ih h.2 h'.2

theorem eq_of_not_mem {l' : List α} (h : Path next a l z) (h' : Path next a l' z) (hz : z ∉ l)
    (hz' : z ∉ l') : l = l' := by
  have hle := h'.isPrefix h hz
  exact hle.eq_of_length_le (h.isPrefix h' hz').length_le

theorem first_unique {P : α → Prop} (h : Path next a l x) (h' : Path next a l₂ z) (hx : P x)
    (hz : P z) (hl : ∀ c ∈ l, ¬ P c) (hl₂ : ∀ c ∈ l₂, ¬ P c) : x = z := by
  induction l generalizing a l₂ with
  | nil =>
    obtain rfl : a = x := h
    cases l₂ with
    | nil => exact h'
    | cons b l₂ => exact absurd hx (h'.1 ▸ hl₂ b List.mem_cons_self)
  | cons b l ih =>
    cases l₂ with
    | nil =>
      obtain rfl : a = z := h'
      exact absurd hz (h.1 ▸ hl b List.mem_cons_self)
    | cons c l₂ =>
      exact ih h.2 h'.2 (fun d hd => hl d (List.mem_cons_of_mem b hd))
        fun d hd => hl₂ d (List.mem_cons_of_mem c hd)

theorem rotate (h : Path next a (l₁ ++ b :: l₂) a) : Path next (next b) (l₂ ++ l₁) b := by
  obtain ⟨h₁, h₂⟩ := append_cons_iff.mp h
  exact append_iff.mpr ⟨a, h₂, h₁⟩

section Update

variable [DecidableEq α]

theorem congr_update (h : Path next a l z) (hb : b ∉ l) :
    Path (Function.update next b x) a l z :=
  h.congr (fun _ hc => Function.update_of_ne (ne_of_mem_of_not_mem hc hb) x next)

/-- Sending the node `b` to `x` cuts off what came after it. -/
theorem redirect (h : Path next a (l₁ ++ b :: l₂) z) (hb : b ∉ l₁) :
    Path (Function.update next b x) a (l₁ ++ [b]) x := by
  refine append_cons_iff.mpr ⟨(append_cons_iff.mp h).1.congr_update hb, ?_⟩
  rw [Function.update_self]
  exact rfl

theorem insert (h : Path next a (l₁ ++ b :: l₂) z) (hnd : (l₁ ++ b :: l₂).Nodup)
    (hn : n ∉ l₁ ++ b :: l₂) :
    Path (Function.update (Function.update next b n) n (next b)) a (l₁ ++ b :: n :: l₂) z := by
  obtain ⟨h₁, h₂⟩ := append_cons_iff.mp h
  simp only [List.mem_append, List.mem_cons, not_or] at hn
  obtain ⟨hn₁, hnb, hn₂⟩ := hn
  have hb₁ : b ∉ l₁ := fun hm => (List.nodup_append.mp hnd).2.2 b hm b List.mem_cons_self rfl
  have hb₂ : b ∉ l₂ := (List.nodup_cons.mp (List.nodup_append.mp hnd).2.1).1
  refine append_cons_iff.mpr ⟨(h₁.congr_update hb₁).congr_update hn₁, ?_⟩
  rw [Function.update_of_ne (Ne.symm hnb), Function.update_self, cons_iff]
  refine ⟨rfl, ?_⟩
  rw [Function.update_self]
  exact (h₂.congr_update hb₂).congr_update hn₂

theorem unlink (h : Path next a (l₁ ++ b :: n :: l₂) z) (hnd : (l₁ ++ b :: n :: l₂).Nodup) :
    Path (Function.update next b (next n)) a (l₁ ++ b :: l₂) z := by
  obtain ⟨h₁, h₂⟩ := append_cons_iff.mp h
  have hb₁ : b ∉ l₁ := fun hm => (List.nodup_append.mp hnd).2.2 b hm b List.mem_cons_self rfl
  have hb₂ : b ∉ n :: l₂ := (List.nodup_cons.mp (List.nodup_append.mp hnd).2.1).1
  refine append_cons_iff.mpr ⟨h₁.congr_update hb₁, ?_⟩
  rw [Function.update_self]
  exact (cons_iff.mp h₂).2.congr_update (fun hm => hb₂ (List.mem_cons_of_mem n hm))

end Update

end Path

end Aosis.Lib
