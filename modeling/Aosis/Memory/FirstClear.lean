import Aosis.Memory.VmmLayout

/-!
# The loops of the search

`scanBitmap` says where the two nested loops of `pmm_alloc_page` and `vmm_get_page_from_bitmap` stop.
Here the loops stand as the source has them: a flag ends both of them, a full word is skipped, and the
word that was read is written back with the bit set.

* `searchWords_eq`: they stop where `scanBitmap` says, and write what the models of the two functions
  write.
* `searchLaw_loops`: both functions take the smallest clear bit.
-/

namespace Aosis.Memory.Loops

open Aosis.Lib.Bitmap Aosis.Memory.Pmm

/-! ### The source -/

/-- The variables of the loops: the bitmap, the page that is stored for the caller, and the flag. -/
structure Search (n : Nat) where
  bitmap : Vector Word n
  page : Nat
  pageFound : Bool

variable {n : Nat}

/-- The inner loop over the bits of word `i`, with `r` turns left from bit `j` on.  The page of a bit is
`place`. -/
def searchWord (place : Nat → Nat → Nat) (i : Fin n) (page_bitmap : Word) :
    Nat → Nat → Search n → Search n
  | 0, _, s => s
  | r + 1, j, s =>
    if s.pageFound = true then s
    else
      let s :=
        if checkBitSet page_bitmap j = false then
          { s with
            page := place i j
            bitmap := s.bitmap.set i (setBit page_bitmap j)
            pageFound := true }
        else s
      searchWord place i page_bitmap r (j + 1) s

/-- The outer loop, with `r` words left from word `i` on. -/
def searchWords (place : Nat → Nat → Nat) : Nat → Nat → Search n → Except Fault (Search n)
  | 0, _, s => .ok s
  | r + 1, i, s =>
    if s.pageFound = true then .ok s
    else if h : i < n then
      let page_bitmap := s.bitmap[i]
      if page_bitmap = 0xFFFFFFFF#32 then searchWords place r (i + 1) s
      else searchWords place r (i + 1) (searchWord place ⟨i, h⟩ page_bitmap 32 0 s)
    else .error .outOfBounds

/-- `vmm_get_page_from_bitmap`: what it returns, and then `*index_in_bitmap` and the bitmap. -/
def vmmGetPageFromBitmap (bitmap : Vector Word 32) (index_in_bitmap : Nat) :
    Except Fault (Bool × Nat × Vector Word 32) := do
  let s ← searchWords (fun i j => 32 * i + j) 32 0 ⟨bitmap, index_in_bitmap, false⟩
  return (s.pageFound, s.page, s.bitmap)

/-- `pmm_alloc_page`. -/
def pmmAllocPage : Kern PhysicalMemory Nat := fun pmm =>
  match searchWords (fun i j => u32 (pmm.startingAddr + pageSize * (32 * i) + pageSize * j))
      (pmm.pageCount / 32) 0 ⟨pmm.bitmap, 0, false⟩ with
  | .error e => .error e pmm
  | .ok s => .ok s.page { pmm with bitmap := s.bitmap }

/-! ### Where the loops stop -/

section Loops

variable {place : Nat → Nat → Nat} {i : Fin n} {page_bitmap : Word} {s : Search n} {r j : Nat}

theorem searchWord_found (h : s.pageFound = true) : searchWord place i page_bitmap r j s = s := by
  cases r with
  | zero => rfl
  | succ r => rw [searchWord, if_pos h]

theorem searchWords_found {i : Nat} (h : s.pageFound = true) : searchWords place r i s = .ok s := by
  cases r with
  | zero => rfl
  | succ r => rw [searchWords, if_pos h]

/-- The variables when the search has stopped at bit `j` of word `i`. -/
def Search.taken (place : Nat → Nat → Nat) (s : Search n) (i : Fin n) (j : Nat) : Search n where
  bitmap := s.bitmap.set i (setBit s.bitmap[i] j)
  page := place i j
  pageFound := true

theorem searchWord_eq_find (hgo : ¬ s.pageFound = true) : searchWord place i s.bitmap[i] r j s =
    ((List.range' j r).find? fun j => !checkBitSet s.bitmap[i] j).elim s (s.taken place i) := by
  induction r generalizing j with
  | zero => rfl
  | succ r ih =>
    rw [searchWord, if_neg hgo, List.range'_succ]
    by_cases hbit : checkBitSet s.bitmap[i] j = false
    · rw [if_pos hbit, List.find?_cons_of_pos (by rw [hbit]; rfl), searchWord_found rfl]
      rfl
    · rw [if_neg hbit, List.find?_cons_of_neg (by simpa using hbit), ih]

theorem searchWord_eq (hgo : ¬ s.pageFound = true) : searchWord place i s.bitmap[i] 32 0 s =
    (firstUnset s.bitmap[i]).elim s (s.taken place i) := by
  rw [searchWord_eq_find hgo, firstUnset, List.range_eq_range']

/-- **The loops stop where the search stops.** -/
theorem searchWords_eq (hgo : ¬ s.pageFound = true) : ∀ r i, searchWords place r i s =
    (scanBitmap s.bitmap r i).map fun found => found.elim s fun p => s.taken place p.1 p.2 := by
  intro r
  induction r with
  | zero => intro i; rfl
  | succ r ih =>
    intro i
    rw [searchWords, if_neg hgo, scanBitmap]
    by_cases hi : i < n
    · rw [dif_pos hi, dif_pos hi]
      have hword : searchWord place ⟨i, hi⟩ s.bitmap[i] 32 0 s =
          (firstUnset s.bitmap[i]).elim s (s.taken place ⟨i, hi⟩) := searchWord_eq hgo
      dsimp only
      by_cases hfull : s.bitmap[i] = 0xFFFFFFFF#32
      · rw [if_pos hfull, if_pos hfull, ih]
      · rw [if_neg hfull, if_neg hfull, hword]
        cases firstUnset s.bitmap[i] with
        | none => exact ih (i + 1)
        | some j => exact searchWords_found rfl
    · rw [dif_neg hi, dif_neg hi]
      rfl

end Loops

/-! ### The models of the two functions -/

theorem vmmGetPageFromBitmap_eq (bitmap : Vector Word 32) (index_in_bitmap : Nat) :
    vmmGetPageFromBitmap bitmap index_in_bitmap =
      match Vmm.vmmGetPageFromBitmap bitmap with
      | none => .ok (false, index_in_bitmap, bitmap)
      | some (k, bitmap') => .ok (true, k, bitmap') := by
  rw [vmmGetPageFromBitmap, searchWords_eq Bool.false_ne_true, Vmm.vmmGetPageFromBitmap]
  cases hscan : scanBitmap bitmap 32 0 with
  | error e => exact absurd (scanBitmap_error hscan).2 (by decide)
  | ok found =>
    cases found with
    | none => rfl
    | some p => rfl

theorem pmmAllocPage_eq : pmmAllocPage = Pmm.pmmAllocPage := by
  funext pmm
  rw [pmmAllocPage, searchWords_eq Bool.false_ne_true, Pmm.pmmAllocPage]
  cases scanBitmap pmm.bitmap (pmm.pageCount / 32) 0 with
  | error e => rfl
  | ok found =>
    cases found with
    | none => rfl
    | some p => rfl

/-! ### The smallest clear bit -/

/-- `k` is the smallest of the clear bits below `m`, and `b'` differs from `b` in this bit only. -/
structure Takes (b : Vector Word n) (m k : Nat) (b' : Vector Word n) : Prop where
  lt : k < m
  first : IsFirstClear b k
  bits : ∀ i, bit b' i = (bit b i || decide (i = k))

/-- A search through the first `m` bits gives `fail` if and only if all of them are set, and otherwise it
takes the smallest clear one. -/
def SearchLaw {β : Type} (b : Vector Word n) (m : Nat) (fail : β) (take : Nat → Vector Word n → β)
    (result : β) : Prop :=
  (result = fail ↔ ∀ k < m, bit b k = true) ∧
    (result ≠ fail → ∃ k b', Takes b m k b' ∧ result = take k b')

section Law

variable {b b' : Vector Word n} {m k : Nat} {β : Type} {fail result : β} {take : Nat → Vector Word n → β}

theorem takes_setAt (hk : k < m) (hkn : k < n * 32) (hfirst : IsFirstClear b k) :
    Takes b m k (setAt b k) := ⟨hk, hfirst, fun i => bit_setAt hkn i⟩

theorem Takes.ne (h : Takes b m k b') : b' ≠ b := by
  intro heq
  have hbit := h.bits k
  rw [heq, h.first.1] at hbit
  simp at hbit

theorem searchLaw_fail (hset : ∀ k < m, bit b k = true) : SearchLaw b m fail take fail :=
  ⟨iff_of_true rfl hset, fun hne => absurd rfl hne⟩

theorem searchLaw_take (h : Takes b m k b') (hresult : result = take k b') (hne : result ≠ fail) :
    SearchLaw b m fail take result := by
  refine ⟨iff_of_false hne ?_, fun _ => ⟨k, b', h, hresult⟩⟩
  intro hset
  have hclear := h.first.1
  rw [hset k h.lt] at hclear
  cases hclear

end Law

theorem searchLaw_vmm (bitmap : Vector Word 32) (index_in_bitmap : Nat) :
    SearchLaw bitmap 1024 (.ok (false, index_in_bitmap, bitmap)) (fun k b' => .ok (true, k, b'))
      (vmmGetPageFromBitmap bitmap index_in_bitmap) := by
  rw [vmmGetPageFromBitmap_eq]
  rcases Vmm.vmmGetPageFromBitmap_cases bitmap with ⟨hnone, hset⟩ | ⟨k, hk, hfirst, hsome⟩
  · rw [hnone]
    exact searchLaw_fail hset
  · rw [hsome]
    exact searchLaw_take (takes_setAt hk hk hfirst) rfl (by simp)

theorem pmmAllocPage_error {pmm pmm' : PhysicalMemory} {e : Fault}
    (h : Pmm.pmmAllocPage pmm = .error e pmm') : e = .outOfBounds ∧ pmm' = pmm ∧
      8192 < pmm.pageCount / 32 ∧ ∀ k < 32 * 8192, bit pmm.bitmap k = true := by
  have hs := scanBitmap_spec pmm.bitmap (pmm.pageCount / 32) 0
  rw [Pmm.pmmAllocPage] at h
  split at h
  · next hscan =>
    rw [hscan] at hs
    obtain ⟨he, hlt, hset⟩ := hs
    cases h
    exact ⟨he, rfl, by omega, fun k hk => hset k (Nat.zero_le k) hk⟩
  · cases h
  · cases h

theorem searchLaw_pmm (pmm : PhysicalMemory) :
    SearchLaw pmm.bitmap (32 * min (pmm.pageCount / 32) 8192)
      (if pmm.pageCount / 32 ≤ 8192 then .ok 0 pmm else .error .outOfBounds pmm)
      (fun k b' => .ok (u32 (pmm.startingAddr + 4096 * k)) { pmm with bitmap := b' })
      (pmmAllocPage pmm) := by
  rw [pmmAllocPage_eq]
  cases hr : Pmm.pmmAllocPage pmm with
  | error e pmm' =>
    obtain ⟨rfl, rfl, hlt, hset⟩ := pmmAllocPage_error hr
    rw [if_neg (by omega), Nat.min_eq_right (by omega)]
    exact searchLaw_fail hset
  | ok a pmm' =>
    rcases pmmAllocPage_cases hr with ⟨rfl, rfl, hset⟩ | ⟨k, hk, hkn, hfirst, rfl, rfl⟩
    · have hle : pmm'.pageCount / 32 ≤ 8192 := by
        by_contra hlt
        have hpast := hset (32 * 8192) (by omega)
        simp [bit] at hpast
      rw [if_pos hle, Nat.min_eq_left hle]
      exact searchLaw_fail hset
    · have htakes := takes_setAt (m := 32 * min (pmm.pageCount / 32) 8192) (by omega) hkn hfirst
      refine searchLaw_take htakes rfl ?_
      intro heq
      split at heq
      · injection heq with _ hpmm
        exact htakes.ne (congrArg PhysicalMemory.bitmap hpmm)
      · cases heq

/-- **Both searches take the smallest clear bit**, whatever the bitmap holds.  A search that finds all
bits set changes nothing; that of `pmm_alloc_page` leaves the array when the pool has more frames than
the bitmap has bits and all of these are set. -/
theorem searchLaw_loops :
    (∀ (bitmap : Vector Word 32) (index_in_bitmap : Nat),
      SearchLaw bitmap 1024 (.ok (false, index_in_bitmap, bitmap)) (fun k b' => .ok (true, k, b'))
        (vmmGetPageFromBitmap bitmap index_in_bitmap)) ∧
    ∀ pmm : PhysicalMemory,
      SearchLaw pmm.bitmap (32 * min (pmm.pageCount / 32) 8192)
        (if pmm.pageCount / 32 ≤ 8192 then .ok 0 pmm else .error .outOfBounds pmm)
        (fun k b' => .ok (u32 (pmm.startingAddr + 4096 * k)) { pmm with bitmap := b' })
        (pmmAllocPage pmm) :=
  ⟨searchLaw_vmm, searchLaw_pmm⟩

end Aosis.Memory.Loops
