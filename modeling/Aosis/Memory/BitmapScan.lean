import Aosis.Lib.Bitmap
import Aosis.Common.Word
import Mathlib.Data.List.Basic

/-!
# The search for a clear bit

`pmm_alloc_page` and `vmm_get_page_from_bitmap` look for a free page with the same two
nested loops: over the words of a bitmap, skipping the words equal to `0xFFFFFFFF`, and
inside a word over its bits, stopping at the first one that is not set.  `scanBitmap` is
that pair of loops, with the number of words as a parameter; reading a word past the end of
the array is a fault.

`scanBitmap_spec` says what the loops find from any starting word on, and
`scanBitmap_some`, `scanBitmap_none` read it from the start of the bitmap.
-/

namespace Aosis.Memory

open Aosis.Lib.Bitmap

variable {n : Nat}

/-- The inner loop: the first bit of the word that is not set. -/
def firstUnset (page_bitmap : Word) : Option Nat :=
  (List.range 32).find? (fun j => !checkBitSet page_bitmap j)

/-- The outer loop, with `r` words left from word `i` on.  The result is the word and the
bit in it where the loops stop, or `none` if they run to their end. -/
def scanBitmap (bitmap : Vector Word n) : Nat → Nat → Except Fault (Option (Fin n × Nat))
  | 0, _ => .ok none
  | r + 1, i =>
    if h : i < n then
      if bitmap[i] = 0xFFFFFFFF#32 then scanBitmap bitmap r (i + 1)
      else
        match firstUnset bitmap[i] with
        | some j => .ok (some (⟨i, h⟩, j))
        | none => scanBitmap bitmap r (i + 1)
    else .error .outOfBounds

theorem firstUnset_some {x : Word} {j : Nat} (h : firstUnset x = some j) :
    j < 32 ∧ x.getLsbD j = false ∧ ∀ k < j, x.getLsbD k = true := by
  rw [firstUnset, List.find?_range_eq_some] at h
  obtain ⟨hj, hm, hall⟩ := h
  have hlt : j < 32 := List.mem_range.mp hm
  rw [checkBitSet_eq x hlt] at hj
  refine ⟨hlt, by simpa using hj, ?_⟩
  intro k hk
  have := hall k hk
  rwa [checkBitSet_eq x (by omega), Bool.not_not] at this

theorem firstUnset_none {x : Word} (h : firstUnset x = none) : ∀ k < 32, x.getLsbD k = true := by
  intro k hk
  have := List.find?_eq_none.mp h k (List.mem_range.mpr hk)
  rwa [checkBitSet_eq x hk, Bool.not_eq_true', Bool.not_eq_false] at this

theorem getLsbD_allOnes : ∀ k < 32, (0xFFFFFFFF#32).getLsbD k = true := by decide

/-- What a call of the search from word `i` on has seen when it ends. -/
def ScanResult (bitmap : Vector Word n) (r i : Nat) :
    Except Fault (Option (Fin n × Nat)) → Prop
  | .ok (some (i', j)) => i ≤ i' ∧ i' < i + r ∧ j < 32 ∧
      bit bitmap (32 * i' + j) = false ∧ ∀ k, 32 * i ≤ k → k < 32 * i' + j → bit bitmap k = true
  | .ok none => (r = 0 ∨ i + r ≤ n) ∧
      ∀ k, 32 * i ≤ k → k < 32 * (i + r) → bit bitmap k = true
  | .error e => e = .outOfBounds ∧ n < i + r ∧ ∀ k, 32 * i ≤ k → k < 32 * n → bit bitmap k = true

theorem ScanResult.step {bitmap : Vector Word n} {r i : Nat} (hi : i < n)
    (hword : ∀ j < 32, bitmap[i].getLsbD j = true) {res : Except Fault (Option (Fin n × Nat))}
    (h : ScanResult bitmap r (i + 1) res) : ScanResult bitmap (r + 1) i res := by
  have hset : ∀ k, 32 * i ≤ k → k < 32 * (i + 1) → bit bitmap k = true := by
    intro k hk hk'
    rw [show k = 32 * i + (k - 32 * i) by omega, bit_word hi (by omega)]
    exact hword _ (by omega)
  have hext : ∀ {m : Nat}, (∀ k, 32 * (i + 1) ≤ k → k < m → bit bitmap k = true) →
      ∀ k, 32 * i ≤ k → k < m → bit bitmap k = true := by
    intro m hm k hk hkm
    by_cases hlow : k < 32 * (i + 1)
    · exact hset k hk hlow
    · exact hm k (by omega) hkm
  match res, h with
  | .ok (some (i', j)), ⟨h1, h2, h3, h4, h5⟩ =>
    exact ⟨by omega, by omega, h3, h4, hext h5⟩
  | .ok none, ⟨h1, h2⟩ =>
    rw [show i + 1 + r = i + (r + 1) by omega] at h2
    exact ⟨Or.inr (by omega), hext h2⟩
  | .error e, ⟨h1, h2, h3⟩ => exact ⟨h1, by omega, hext h3⟩

theorem scanBitmap_spec (bitmap : Vector Word n) :
    ∀ r i, ScanResult bitmap r i (scanBitmap bitmap r i) := by
  intro r
  induction r with
  | zero => intro i; exact ⟨Or.inl rfl, fun k h h' => by omega⟩
  | succ r ih =>
    intro i
    rw [scanBitmap]
    split_ifs with hi hfull
    · exact (ih (i + 1)).step hi (fun j hj => by rw [hfull]; exact getLsbD_allOnes j hj)
    · cases hf : firstUnset bitmap[i] with
      | none => exact (ih (i + 1)).step hi (firstUnset_none hf)
      | some j =>
        obtain ⟨hj, hclear, hall⟩ := firstUnset_some hf
        refine ⟨le_rfl, by simp, hj, by rw [bit_word hi hj]; exact hclear, ?_⟩
        intro k hk hkj
        have hlt : k < 32 * i + j := hkj
        rw [show k = 32 * i + (k - 32 * i) by omega, bit_word hi (by omega)]
        exact hall _ (by omega)
    · exact ⟨rfl, by omega, fun k h h' => by omega⟩

/-- **A search that stops has found the first clear bit.** -/
theorem scanBitmap_some {bitmap : Vector Word n} {r j : Nat} {i : Fin n}
    (h : scanBitmap bitmap r 0 = .ok (some (i, j))) :
    i < r ∧ j < 32 ∧ IsFirstClear bitmap (32 * i + j) := by
  have hs := scanBitmap_spec bitmap r 0
  rw [h] at hs
  obtain ⟨-, hr, hj, hclear, hall⟩ := hs
  exact ⟨by omega, hj, hclear, fun k hk => hall k (by omega) hk⟩

theorem scanBitmap_none {bitmap : Vector Word n} {r : Nat}
    (h : scanBitmap bitmap r 0 = .ok none) : ∀ k < 32 * r, bit bitmap k = true := by
  have hs := scanBitmap_spec bitmap r 0
  rw [h] at hs
  intro k hk
  exact hs.2 k (by omega) (by omega)

/-- The search leaves the array only when all its bits are set and it is told to go on. -/
theorem scanBitmap_error {bitmap : Vector Word n} {r : Nat} {e : Fault}
    (h : scanBitmap bitmap r 0 = .error e) : e = .outOfBounds ∧ n < r := by
  have hs := scanBitmap_spec bitmap r 0
  rw [h] at hs
  exact ⟨hs.1, by have := hs.2.1; omega⟩

theorem set_setBit {bitmap : Vector Word n} {i j : Nat} (hi : i < n) (hj : j < 32) :
    bitmap.set i (setBit bitmap[i] j) = setAt bitmap (32 * i + j) := by
  obtain ⟨hd, hm⟩ := (div_mod_iff hj).mp (rfl : 32 * i + j = 32 * i + j)
  simp only [setAt, hd, hm, hi, dite_true, setBit, bitMask_of_lt hj]

theorem set_clearBit {bitmap : Vector Word n} {i j : Nat} (hi : i < n) (hj : j < 32) :
    bitmap.set i (clearBit bitmap[i] j) = clearAt bitmap (32 * i + j) := by
  obtain ⟨hd, hm⟩ := (div_mod_iff hj).mp (rfl : 32 * i + j = 32 * i + j)
  simp only [clearAt, hd, hm, hi, dite_true, clearBit, bitMask_of_lt hj]

end Aosis.Memory
