import Aosis.Lib.Lex
import Aosis.Libc.Memory
import Aosis.Libc.Str

/-!
# Comparisons

`libc/string/memcmp.c` and the sign of `strcmp`.  Both subtract the first two characters that differ,
as signed numbers, so a byte from 0x80 on counts as smaller than one below.

* `compareLaw_iff`: the sign is that of the order of unsigned bytes, exactly if these two characters
  are in the same half.
-/

namespace Aosis.Libc

open Aosis.Lib

/-- The loop of `memcmp`, with `r` turns to go from `i` on. -/
def memcmpLoop (mem : Memory) (s1ptr s2ptr : Word) : Nat → Nat → Int
  | 0, _ => 0
  | r + 1, i =>
    if mem (index s1ptr i) ≠ mem (index s2ptr i) then
      (mem (index s1ptr i)).toInt - (mem (index s2ptr i)).toInt
    else memcmpLoop mem s1ptr s2ptr r (i + 1)

/-- `memcmp`. -/
def memcmp (mem : Memory) (s1 s2 n : Word) : Int := memcmpLoop mem s1 s2 n.toNat 0

/-- The `n` bytes at an address. -/
def bytesAt (mem : Memory) (p : Word) (n : Nat) : List (BitVec 8) :=
  (List.range n).map fun i => mem (index p i)

/-- The sign of the result is the lexicographic order of the bytes. -/
structure OrderLaw (r : Int) (s1 s2 : List (BitVec 8)) : Prop where
  lt : r < 0 ↔ s1 < s2
  eq : r = 0 ↔ s1 = s2
  gt : 0 < r ↔ s2 < s1

/-- The first two bytes that differ are both below 0x80, or both are not. -/
def SameHalf (s1 s2 : List (BitVec 8)) : Prop :=
  ∀ c1 c2, firstDiff s1 s2 = some (c1, c2) → (c1.toNat < 0x80 ↔ c2.toNat < 0x80)

/-- The result of both functions. -/
def charDiff (s1 s2 : List (BitVec 8)) : Int :=
  match firstDiff s1 s2 with
  | none => 0
  | some (c1, c2) => c1.toInt - c2.toInt

section Order

variable {mem : Memory} {p1 p2 : Word} {s1 s2 : List (BitVec 8)} {c1 c2 : BitVec 8}

theorem memcmpLoop_eq (r i : Nat) : memcmpLoop mem p1 p2 r i =
    charDiff ((List.range' i r).map fun i => mem (index p1 i))
      ((List.range' i r).map fun i => mem (index p2 i)) := by
  induction r generalizing i with
  | zero => rfl
  | succ r ih =>
    rw [memcmpLoop, List.range'_succ, List.map_cons, List.map_cons, charDiff]
    by_cases heq : mem (index p1 i) = mem (index p2 i)
    · rw [if_neg (not_not.mpr heq), heq, firstDiff_cons_self]
      exact ih (i + 1)
    · rw [if_pos heq, firstDiff_cons_of_ne heq]

theorem memcmp_eq (n : Word) :
    memcmp mem p1 p2 n = charDiff (bytesAt mem p1 n.toNat) (bytesAt mem p2 n.toNat) := by
  rw [memcmp, memcmpLoop_eq, bytesAt, bytesAt, List.range_eq_range']

/-- `strcmp` does the same, also when it stops at the zero byte of one string. -/
theorem strcmp_eq (h1 : 0 ∉ s1) (h2 : 0 ∉ s2) :
    strcmp (cstring s1) (cstring s2) = .ok (charDiff (cstring s1) (cstring s2)) := by
  induction s1 generalizing s2 with
  | nil =>
    cases s2 with
    | nil => rfl
    | cons c2 s2 =>
      have hne : (0 : BitVec 8) ≠ c2 := fun h => h2 (h ▸ List.mem_cons_self)
      have hdiff : firstDiff (cstring []) (cstring (c2 :: s2)) = some (0, c2) :=
        firstDiff_cons_of_ne hne
      rw [charDiff, hdiff]
      exact (strcmp_cons 0 c2 [] (cstring s2)).trans (if_neg (by simp))
  | cons c1 s1 ih =>
    rw [List.mem_cons, not_or] at h1
    cases s2 with
    | nil =>
      have hdiff : firstDiff (cstring (c1 :: s1)) (cstring []) = some (c1, 0) :=
        firstDiff_cons_of_ne (Ne.symm h1.1)
      rw [charDiff, hdiff]
      exact (strcmp_cons c1 0 (cstring s1) []).trans (if_neg fun h => h.2 h.1)
    | cons c2 s2 =>
      rw [List.mem_cons, not_or] at h2
      refine (strcmp_cons c1 c2 (cstring s1) (cstring s2)).trans ?_
      by_cases heq : c1 = c2
      · subst heq
        have hdiff : firstDiff (cstring (c1 :: s1)) (cstring (c1 :: s2)) =
            firstDiff (cstring s1) (cstring s2) := firstDiff_cons_self
        rw [if_pos ⟨rfl, Ne.symm h1.1⟩, ih h1.2 h2.2, charDiff, charDiff, hdiff]
      · have hdiff : firstDiff (cstring (c1 :: s1)) (cstring (c2 :: s2)) = some (c1, c2) :=
          firstDiff_cons_of_ne heq
        rw [if_neg fun h => heq h.1, charDiff, hdiff]

theorem eq_of_firstDiff_cstring (h1 : 0 ∉ s1) (h2 : 0 ∉ s2)
    (h : firstDiff (cstring s1) (cstring s2) = none) : s1 = s2 := by
  induction s1 generalizing s2 with
  | nil =>
    cases s2 with
    | nil => rfl
    | cons c2 s2 =>
      have hne : (0 : BitVec 8) ≠ c2 := fun h => h2 (h ▸ List.mem_cons_self)
      cases (firstDiff_cons_of_ne hne).symm.trans h
  | cons c1 s1 ih =>
    rw [List.mem_cons, not_or] at h1
    cases s2 with
    | nil => cases (firstDiff_cons_of_ne (Ne.symm h1.1)).symm.trans h
    | cons c2 s2 =>
      rw [List.mem_cons, not_or] at h2
      by_cases heq : c1 = c2
      · subst heq
        rw [ih h1.2 h2.2 (firstDiff_cons_self.symm.trans h)]
      · cases (firstDiff_cons_of_ne heq).symm.trans h

/-- The zero byte at the end of both strings does not change their order. -/
theorem cstring_lt_iff (h1 : 0 ∉ s1) (h2 : 0 ∉ s2) : cstring s1 < cstring s2 ↔ s1 < s2 := by
  have hpos : ∀ {c : BitVec 8}, ¬ 0 = c → 0 < c := by
    intro c hc
    rw [BitVec.lt_def]
    exact Nat.pos_of_ne_zero fun h0 => hc (BitVec.eq_of_toNat_eq h0).symm
  induction s1 generalizing s2 with
  | nil =>
    cases s2 with
    | nil => exact iff_of_false (List.lt_irrefl _) (List.lt_irrefl _)
    | cons c2 s2 =>
      rw [List.mem_cons, not_or] at h2
      exact iff_of_true (List.cons_lt_cons_iff.mpr (Or.inl (hpos h2.1))) (List.nil_lt_cons _ _)
  | cons c1 s1 ih =>
    rw [List.mem_cons, not_or] at h1
    cases s2 with
    | nil =>
      apply iff_of_false
      · intro h
        rcases List.cons_lt_cons_iff.mp h with hlt | ⟨heq, -⟩
        · exact absurd (BitVec.lt_def.mp hlt) (Nat.not_lt_zero _)
        · exact h1.1 heq.symm
      · exact List.not_lt_nil _
    | cons c2 s2 =>
      rw [List.mem_cons, not_or] at h2
      have hcons : cstring (c1 :: s1) < cstring (c2 :: s2) ↔
          c1 < c2 ∨ c1 = c2 ∧ cstring s1 < cstring s2 := List.cons_lt_cons_iff
      have hrest : cstring s1 < cstring s2 ↔ s1 < s2 := ih h1.2 h2.2
      rw [hcons, List.cons_lt_cons_iff, hrest]

theorem toInt_order (hne : c1 ≠ c2) :
    ((c1.toInt - c2.toInt < 0 ↔ c1 < c2) ∧ (0 < c1.toInt - c2.toInt ↔ c2 < c1)) ↔
      (c1.toNat < 0x80 ↔ c2.toNat < 0x80) := by
  have h1 := c1.isLt
  have h2 := c2.isLt
  have hnat : c1.toNat ≠ c2.toNat := fun h => hne (BitVec.eq_of_toNat_eq h)
  rw [BitVec.toInt_eq_toNat_cond, BitVec.toInt_eq_toNat_cond, BitVec.lt_def, BitVec.lt_def]
  split_ifs <;> omega

/-- **When the difference has the right sign.** -/
theorem orderLaw_charDiff_iff (h : firstDiff s1 s2 = none → s1 = s2) :
    OrderLaw (charDiff s1 s2) s1 s2 ↔ SameHalf s1 s2 := by
  rw [charDiff, SameHalf]
  cases hdiff : firstDiff s1 s2 with
  | none =>
    obtain rfl := h hdiff
    have hlt : ¬ s1 < s1 := List.lt_irrefl s1
    exact iff_of_true ⟨by simp [hlt], by simp, by simp [hlt]⟩ fun c1 c2 hc => by cases hc
  | some c =>
    obtain ⟨c1, c2⟩ := c
    have hne := ne_of_firstDiff hdiff
    have hlists : s1 ≠ s2 := by
      rintro rfl
      exact hne (Prod.mk.inj (Option.some.inj (hdiff.symm.trans (firstDiff_swap hdiff)))).1
    have hzero : c1.toInt - c2.toInt ≠ 0 := fun h0 => hne (toInt_sub_eq_zero.mp h0)
    have hlt := lt_iff_of_firstDiff hdiff
    have hgt := lt_iff_of_firstDiff (firstDiff_swap hdiff)
    constructor
    · intro hlaw d1 d2 hd
      cases hd
      exact (toInt_order hne).mp ⟨hlaw.lt.trans hlt, hlaw.gt.trans hgt⟩
    · intro hhalf
      obtain ⟨hneg, hpos⟩ := (toInt_order hne).mpr (hhalf c1 c2 rfl)
      exact ⟨hneg.trans hlt.symm, iff_of_false hzero hlists, hpos.trans hgt.symm⟩

/-- **When the comparisons follow the order of unsigned bytes.**  For all arrays and all strings this
is so if and only if the first two bytes that differ are both below 0x80 or both are not; for strings
the zero byte at the end counts. -/
theorem compareLaw_iff (mem : Memory) (p1 p2 n : Word) (s1 s2 : List (BitVec 8)) (h1 : 0 ∉ s1)
    (h2 : 0 ∉ s2) :
    (OrderLaw (memcmp mem p1 p2 n) (bytesAt mem p1 n.toNat) (bytesAt mem p2 n.toNat) ↔
      SameHalf (bytesAt mem p1 n.toNat) (bytesAt mem p2 n.toNat)) ∧
    ((∃ r, strcmp (cstring s1) (cstring s2) = .ok r ∧ OrderLaw r s1 s2) ↔
      SameHalf (cstring s1) (cstring s2)) := by
  constructor
  · rw [memcmp_eq]
    apply orderLaw_charDiff_iff
    apply eq_of_firstDiff_eq_none
    rw [bytesAt, bytesAt, List.length_map, List.length_map]
  · have hlaw : OrderLaw (charDiff (cstring s1) (cstring s2)) s1 s2 ↔
        OrderLaw (charDiff (cstring s1) (cstring s2)) (cstring s1) (cstring s2) := by
      have heq : cstring s1 = cstring s2 ↔ s1 = s2 := List.append_left_inj [0]
      constructor
      · intro h
        exact ⟨h.lt.trans (cstring_lt_iff h1 h2).symm, h.eq.trans heq.symm,
          h.gt.trans (cstring_lt_iff h2 h1).symm⟩
      · intro h
        exact ⟨h.lt.trans (cstring_lt_iff h1 h2), h.eq.trans heq, h.gt.trans (cstring_lt_iff h2 h1)⟩
    rw [strcmp_eq h1 h2, ← orderLaw_charDiff_iff fun h => by rw [eq_of_firstDiff_cstring h1 h2 h],
      ← hlaw]
    constructor
    · intro ⟨r, hr, h⟩
      cases hr
      exact h
    · intro h
      exact ⟨_, rfl, h⟩

end Order

/-- The bytes 0x80 and 0x61 at address zero. -/
def highFirst : Memory := fun a => if a = 0 then 0x80 else 0x61

/-- Equal arrays compare as equal, and a prefix compares as smaller. -/
theorem compareLaw_prefix :
    OrderLaw (memcmp highFirst 1 2 1) (bytesAt highFirst 1 1) (bytesAt highFirst 2 1) ∧
      ∃ r, strcmp (cstring [97]) (cstring [97, 98]) = .ok r ∧ OrderLaw r [97] [97, 98] := by
  have hlaw := compareLaw_iff highFirst 1 2 1 [97] [97, 98] (by decide) (by decide)
  constructor
  · apply hlaw.1.mpr
    intro c1 c2 h
    cases h
  · apply hlaw.2.mpr
    intro c1 c2 h
    cases h
    decide

/-- A byte from 0x80 on compares as smaller than `a`. -/
theorem not_compareLaw_high :
    ¬ OrderLaw (memcmp highFirst 0 1 1) (bytesAt highFirst 0 1) (bytesAt highFirst 1 1) ∧
      ¬ ∃ r, strcmp (cstring [0x80]) (cstring [0x61]) = .ok r ∧ OrderLaw r [0x80] [0x61] := by
  have hlt : ¬ ([0x80] : List (BitVec 8)) < [0x61] := by decide
  refine ⟨?_, ?_⟩
  · intro h
    exact hlt (h.lt.mp (by decide))
  · intro ⟨r, hr, h⟩
    cases hr
    exact hlt (h.lt.mp (by decide))

end Aosis.Libc
