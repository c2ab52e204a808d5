import Mathlib.Data.Finset.Card
import Mathlib.Data.Nat.ModEq

/-!
# Bitmaps stored in words

An array of `n` words of `w` bits is read as a bitmap of `n * w` bits: bit `k` is bit
`k % w` of word `k / w`.  The allocators address a bit either by its number `k` or by the
pair of its word and its place in the word; `bit_setWord` and `div_mod_iff` pass between
the two.

* `setAt`, `clearAt`: the bitmap with one bit set or cleared.
* `clearBits`: the finite set of the clear bits, on which clearing a bit is `insert`.
* `IsFirstClear b k`: bit `k` is clear and every earlier bit is set.
-/

namespace Aosis.Lib.Bitmap

variable {w n : Nat}

/-- Bit `k` of the bitmap.  Bits past the end read as clear. -/
def bit (b : Vector (BitVec w) n) (k : Nat) : Bool :=
  if h : k / w < n then b[k / w].getLsbD (k % w) else false

/-- The bitmap with bit `k` set. -/
def setAt (b : Vector (BitVec w) n) (k : Nat) : Vector (BitVec w) n :=
  if h : k / w < n then b.set (k / w) (b[k / w] ||| BitVec.twoPow w (k % w)) else b

/-- The bitmap with bit `k` cleared. -/
def clearAt (b : Vector (BitVec w) n) (k : Nat) : Vector (BitVec w) n :=
  if h : k / w < n then b.set (k / w) (b[k / w] &&& ~~~BitVec.twoPow w (k % w)) else b

/-- Bit `k` is clear and every earlier bit is set. -/
def IsFirstClear (b : Vector (BitVec w) n) (k : Nat) : Prop :=
  bit b k = false ∧ ∀ i < k, bit b i = true

/-- The numbers of the clear bits. -/
def clearBits (b : Vector (BitVec w) n) : Finset Nat :=
  (Finset.range (n * w)).filter (fun k => bit b k = false)

/-! ### Bit numbers and places -/

theorem div_mod_iff {i j k : Nat} (hj : j < w) : k = w * i + j ↔ k / w = i ∧ k % w = j := by
  constructor
  · rintro rfl
    exact ⟨by rw [Nat.mul_add_div (by omega), Nat.div_eq_of_lt hj, Nat.add_zero],
      by rw [Nat.mul_add_mod, Nat.mod_eq_of_lt hj]⟩
  · rintro ⟨rfl, rfl⟩
    exact (Nat.div_add_mod k w).symm

theorem eq_iff_mod_of_div {i k : Nat} (h : i / w = k / w) : i = k ↔ i % w = k % w := by
  constructor
  · rintro rfl; rfl
  · intro hm
    rw [← Nat.div_add_mod i w, ← Nat.div_add_mod k w, h, hm]

theorem div_lt_of_lt {k : Nat} (h : k < n * w) : k / w < n :=
  Nat.div_lt_of_lt_mul (by rwa [Nat.mul_comm])

theorem pos_of_lt {k : Nat} (h : k < n * w) : 0 < w := by
  rcases Nat.eq_zero_or_pos w with rfl | hw
  · omega
  · exact hw

theorem bit_word {b : Vector (BitVec w) n} {i j : Nat} (hi : i < n) (hj : j < w) :
    bit b (w * i + j) = b[i].getLsbD j := by
  obtain ⟨hd, hm⟩ := (div_mod_iff hj).mp (rfl : w * i + j = w * i + j)
  simp only [bit, hd, hm, hi, dite_true]

theorem bit_setWord {b : Vector (BitVec w) n} {i : Nat} (hi : i < n) (x : BitVec w) (k : Nat) :
    bit (b.set i x) k = if k / w = i then x.getLsbD (k % w) else bit b k := by
  unfold bit
  by_cases hk : k / w = i
  · subst hk
    simp [hi]
  · by_cases hn : k / w < n
    · simp [hn, hk, Ne.symm hk]
    · simp [hn, hk]

/-! ### Setting and clearing one bit -/

theorem bit_setAt {b : Vector (BitVec w) n} {k : Nat} (hk : k < n * w) (i : Nat) :
    bit (setAt b k) i = (bit b i || decide (i = k)) := by
  have hd := div_lt_of_lt hk
  rw [setAt, dif_pos hd, bit_setWord]
  by_cases hi : i / w = k / w
  · have hmod : k % w < w := Nat.mod_lt k (pos_of_lt hk)
    simp [hi, hd, hmod, bit, BitVec.getLsbD_twoPow, eq_iff_mod_of_div hi, eq_comm]
  · have hne : i ≠ k := fun h => hi (by rw [h])
    simp [hi, hne]

theorem bit_clearAt {b : Vector (BitVec w) n} {k : Nat} (hk : k < n * w) (i : Nat) :
    bit (clearAt b k) i = (bit b i && !decide (i = k)) := by
  have hw := pos_of_lt hk
  have hd := div_lt_of_lt hk
  rw [clearAt, dif_pos hd, bit_setWord]
  by_cases hi : i / w = k / w
  · have hmodi : i % w < w := Nat.mod_lt i hw
    simp [hi, hd, hmodi, bit, eq_iff_mod_of_div hi, eq_comm]
  · have hne : i ≠ k := fun h => hi (by rw [h])
    simp [hi, hne]

/-! ### The set of clear bits -/

theorem mem_clearBits {b : Vector (BitVec w) n} {k : Nat} :
    k ∈ clearBits b ↔ k < n * w ∧ bit b k = false := by
  rw [clearBits, Finset.mem_filter, Finset.mem_range]

theorem clearBits_clearAt {b : Vector (BitVec w) n} {k : Nat} (hk : k < n * w) :
    clearBits (clearAt b k) = insert k (clearBits b) := by
  ext i
  simp only [mem_clearBits, Finset.mem_insert, bit_clearAt hk, Bool.and_eq_false_iff,
    Bool.not_eq_false', decide_eq_true_eq]
  constructor
  · rintro ⟨hi, h | h⟩
    · exact Or.inr ⟨hi, h⟩
    · exact Or.inl h
  · rintro (rfl | ⟨hi, h⟩)
    · exact ⟨hk, Or.inr rfl⟩
    · exact ⟨hi, Or.inl h⟩

theorem card_clearBits_clearAt {b : Vector (BitVec w) n} {k : Nat} (hk : k < n * w)
    (h : bit b k = true) : (clearBits (clearAt b k)).card = (clearBits b).card + 1 := by
  rw [clearBits_clearAt hk]
  exact Finset.card_insert_of_notMem (fun hm => by simp [mem_clearBits, h] at hm)

theorem IsFirstClear.unique {b : Vector (BitVec w) n} {i k : Nat} (hi : IsFirstClear b i)
    (hk : IsFirstClear b k) : i = k := by
  rcases Nat.lt_trichotomy i k with h | h | h
  · have := hk.2 i h; rw [hi.1] at this; cases this
  · exact h
  · have := hi.2 k h; rw [hk.1] at this; cases this

end Aosis.Lib.Bitmap
