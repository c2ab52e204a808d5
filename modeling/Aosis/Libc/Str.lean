import Aosis.Common.Word
import Mathlib.Data.List.Infix

/-!
# Strings

`libc/string/strcmp.c`, on the bytes of memory from the two pointers on.  A `char` is signed.

* `strcmp_eq_zero_iff`: the result is zero if and only if memory starts with the string.
* `cstring_isPrefix_iff`: a string with zeros after it starts with that string only.
-/

namespace Aosis.Libc

/-- The bytes of a string literal without the zero byte at its end. -/
def ascii (s : String) : List (BitVec 8) := s.toList.map fun c => BitVec.ofNat 8 c.toNat

/-- A string in memory. -/
def cstring (s : List (BitVec 8)) : List (BitVec 8) := s ++ [0]

section Take

variable {n i : Nat} (s : Vector (BitVec 8) n)

theorem take_toList_succ (h : i < n) : s.toList.take (i + 1) = s.toList.take i ++ [s[i]] := by
  have hlen : i < s.toList.length := by rwa [Vector.length_toList]
  rw [List.take_succ_eq_append_getElem hlen, Vector.getElem_toList]

theorem take_toList_set (c : BitVec 8) (h : i < n) :
    (s.set i c).toList.take i = s.toList.take i := by
  rw [Vector.toList_set, List.take_set_of_le le_rfl]

end Take

/-- `strcmp`, with the bytes from `s1[i]` and from `s2[i]` on. -/
def strcmp : List (BitVec 8) → List (BitVec 8) → Except Fault Int
  | c1 :: s1, c2 :: s2 =>
    if c1 ≠ 0 ∧ c2 ≠ 0 then
      if c1 = c2 then strcmp s1 s2 else .ok (c1.toInt - c2.toInt)
    else .ok (c1.toInt - c2.toInt)
  | _, _ => .error .outOfBounds

theorem strcmp_cons (c1 c2 : BitVec 8) (s1 s2 : List (BitVec 8)) : strcmp (c1 :: s1) (c2 :: s2) =
    if c1 = c2 ∧ c1 ≠ 0 then strcmp s1 s2 else .ok (c1.toInt - c2.toInt) := by
  by_cases heq : c1 = c2
  · subst heq
    simp [strcmp]
  · simp [strcmp, heq]

theorem toInt_sub_eq_zero {c1 c2 : BitVec 8} : c1.toInt - c2.toInt = 0 ↔ c1 = c2 := by
  rw [Int.sub_eq_zero, BitVec.toInt_inj]

/-- **`strcmp` compares strings.**  With a string and memory that is longer than the string it
returns, and the result is zero if and only if the memory starts with the string. -/
theorem strcmp_eq_zero_iff : ∀ {s mem : List (BitVec 8)}, 0 ∉ s → s.length < mem.length →
    ∃ r, strcmp (cstring s) mem = .ok r ∧ (r = 0 ↔ cstring s <+: mem) := by
  intro s
  induction s with
  | nil =>
    intro mem _ hlen
    cases mem with
    | nil => cases hlen
    | cons d mem =>
      refine ⟨(0 : BitVec 8).toInt - d.toInt, strcmp_cons 0 d [] mem |>.trans ?_, ?_⟩
      · rw [if_neg (by simp)]
      · rw [toInt_sub_eq_zero]
        simp [cstring, List.cons_prefix_cons]
  | cons c s ih =>
    intro mem hs hlen
    rw [List.mem_cons, not_or] at hs
    cases mem with
    | nil => cases hlen
    | cons d mem =>
      have hpre : cstring (c :: s) <+: d :: mem ↔ c = d ∧ cstring s <+: mem :=
        List.cons_prefix_cons
      rw [hpre, show cstring (c :: s) = c :: cstring s from rfl, strcmp_cons]
      by_cases hcd : c = d
      · obtain ⟨r, hr, hiff⟩ := ih hs.2 (Nat.lt_of_succ_lt_succ hlen)
        rw [if_pos ⟨hcd, Ne.symm hs.1⟩]
        exact ⟨r, hr, by simp [hcd, hiff]⟩
      · rw [if_neg fun h => hcd h.1]
        exact ⟨_, rfl, by simp [toInt_sub_eq_zero, hcd]⟩

/-- **The string that memory starts with**, when zeros follow another string. -/
theorem cstring_isPrefix_iff : ∀ {s t : List (BitVec 8)} {n : Nat}, 0 ∉ s → 0 ∉ t →
    s.length < t.length + n → (cstring s <+: t ++ List.replicate n 0 ↔ s = t) := by
  intro s
  induction s with
  | nil =>
    intro t n _ ht hlen
    cases t with
    | nil =>
      cases n with
      | zero => simp at hlen
      | succ n => simp [cstring, List.replicate_succ]
    | cons d t =>
      have hd : ¬ 0#8 = d := fun h => ht (h ▸ List.mem_cons_self)
      simp [cstring, List.cons_prefix_cons, hd]
  | cons c s ih =>
    intro t n hs ht hlen
    rw [List.mem_cons, not_or] at hs
    cases t with
    | nil =>
      cases n with
      | zero => simp at hlen
      | succ n =>
        have hc : ¬ c = 0#8 := fun h => hs.1 h.symm
        simp [cstring, List.replicate_succ, List.cons_prefix_cons, hc]
    | cons d t =>
      have ht' : 0 ∉ t := fun h => ht (List.mem_cons_of_mem d h)
      have hrest := ih hs.2 ht' (n := n) (by simp only [List.length_cons] at hlen; omega)
      have hpre : cstring (c :: s) <+: d :: t ++ List.replicate n 0 ↔
          c = d ∧ cstring s <+: t ++ List.replicate n 0 := List.cons_prefix_cons
      rw [hpre, hrest, List.cons.injEq]

end Aosis.Libc
