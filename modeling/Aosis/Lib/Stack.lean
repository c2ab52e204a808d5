import Mathlib.Algebra.Group.Nat.Defs
import Mathlib.Logic.Function.Basic

/-!
# Words on a stack

A stack of 32-bit words grows towards lower addresses.  `Stacked mem a l` says that the words of
`l` lie in memory from the address `a` on, in this order: pushing a word puts it in front of the
list, and popping takes it from there.  `Pushed mem a l mem' b` says that pushing the words of `l`,
the last one first, onto the stack that ended at `a` leaves the memory `mem'` and a stack that
ends at `b`.
-/

namespace Aosis.Lib

variable {mem mem' : BitVec 32 → BitVec 32} {a v : BitVec 32} {l l' : List (BitVec 32)}

/-- The words of the list lie in memory from the address on. -/
def Stacked (mem : BitVec 32 → BitVec 32) : BitVec 32 → List (BitVec 32) → Prop
  | _, [] => True
  | a, v :: l => mem a = v ∧ Stacked mem (a + 4) l

namespace Stacked

theorem nil : Stacked mem a [] := trivial

theorem congr (h : Stacked mem a l)
    (heq : ∀ i < l.length, mem' (a + BitVec.ofNat 32 (4 * i)) = mem (a + BitVec.ofNat 32 (4 * i))) :
    Stacked mem' a l := by
  induction l generalizing a with
  | nil => exact trivial
  | cons v l ih =>
    have hfirst := heq 0 (Nat.succ_pos _)
    simp only [Nat.mul_zero, BitVec.add_zero] at hfirst
    refine ⟨hfirst.trans h.1, ih h.2 ?_⟩
    intro i hi
    have hshift : a + 4 + BitVec.ofNat 32 (4 * i) = a + BitVec.ofNat 32 (4 * (i + 1)) := by
      rw [BitVec.add_assoc]
      congr 1
      bv_omega
    rw [hshift]
    exact heq (i + 1) (Nat.succ_lt_succ hi)

/-- **Pushing a word.** -/
theorem push (h : Stacked mem a l) (hlen : l.length < 2 ^ 29) (v : BitVec 32) :
    Stacked (Function.update mem (a - 4) v) (a - 4) (v :: l) := by
  refine ⟨Function.update_self _ _ _, ?_⟩
  rw [BitVec.sub_add_cancel]
  apply h.congr
  intro i hi
  refine Function.update_of_ne ?_ _ _
  bv_omega

theorem get (h : Stacked mem a l) {i : Nat} (hi : l[i]? = some v) :
    mem (a + BitVec.ofNat 32 (4 * i)) = v := by
  induction l generalizing a i with
  | nil => cases hi
  | cons w l ih =>
    cases i with
    | zero =>
      obtain rfl : w = v := Option.some.inj hi
      simpa using h.1
    | succ i =>
      have hrest := ih h.2 (i := i) (by simpa using hi)
      have hshift : a + 4 + BitVec.ofNat 32 (4 * i) = a + BitVec.ofNat 32 (4 * (i + 1)) := by
        rw [BitVec.add_assoc]
        congr 1
        bv_omega
      rwa [hshift] at hrest

end Stacked

/-! ### Pushing several words -/

/-- The words of the list were pushed onto the stack that ended at `a`, and nothing else in memory
changed. -/
structure Pushed (mem : BitVec 32 → BitVec 32) (a : BitVec 32) (l : List (BitVec 32))
    (mem' : BitVec 32 → BitVec 32) (b : BitVec 32) : Prop where
  top : b = a - BitVec.ofNat 32 (4 * l.length)
  words : Stacked mem' b l
  other : ∀ x, (∀ i, 0 < i → i ≤ l.length → x ≠ a - BitVec.ofNat 32 (4 * i)) → mem' x = mem x

namespace Pushed

variable {b : BitVec 32}

theorem nil : Pushed mem a [] mem a := ⟨by simp, .nil, fun _ _ => rfl⟩

/-- **One more word.** -/
theorem push (h : Pushed mem a l mem' b) (hlen : l.length < 2 ^ 29) (v : BitVec 32) :
    Pushed mem a (v :: l) (Function.update mem' (b - 4) v) (b - 4) := by
  have htop : b - 4 = a - BitVec.ofNat 32 (4 * (v :: l).length) := by
    rw [h.top, List.length_cons]
    bv_omega
  refine ⟨htop, h.words.push hlen v, ?_⟩
  intro x hx
  have hne : x ≠ b - 4 := by
    rw [htop]
    exact hx _ (Nat.succ_pos _) (Nat.le_refl _)
  rw [Function.update_of_ne hne]
  exact h.other x fun i h0 hi => hx i h0 (Nat.le_succ_of_le hi)

end Pushed

end Aosis.Lib
