import Aosis.Lib.Run
import Aosis.Memory.BitmapScan

/-!
# The physical memory manager

`kernel/memory/pmm.c` hands out the page frames of one pool, which starts at
`starting_addr` and has `page_count` frames, with one bit of `bitmap` for each frame.  The
array has 8192 words, so it covers 262144 frames.

`pmmAllocPage_cases` and `pmmFreePage_cases` say what a call does on an arbitrary pool.  On
a pool that fits below 4 GiB and under the bitmap (`Pool`) an address is a frame number in
disguise (`frameAddr`), and the runs of `Step`, in which only allocated frames are freed,
keep the invariant `Inv`: an outstanding frame is a frame of the pool whose bit is set.
`alloc_fresh` draws the conclusion for the next allocation.
-/

namespace Aosis.Memory.Pmm

open Aosis.Lib Aosis.Lib.Bitmap

/-- `struct physical_memory`. -/
structure PhysicalMemory where
  totalMemory : Nat
  totalPageMemory : Nat
  startingAddr : Nat
  pageCount : Nat
  bitmap : Vector Word 8192

/-- The static `pmm` before `pmm_init`. -/
def pmmStatic : PhysicalMemory where
  totalMemory := 0
  totalPageMemory := 0
  startingAddr := 0
  pageCount := 0
  bitmap := Vector.replicate 8192 0

/-- `pmm_alloc_page`.  The result is the physical address of the frame, or `NULL` with a
warning on the terminal. -/
def pmmAllocPage : Kern PhysicalMemory Nat := fun pmm =>
  match scanBitmap pmm.bitmap (pmm.pageCount / 32) 0 with
  | .error e => .error e pmm
  | .ok none => .ok 0 pmm
  | .ok (some (i, j)) =>
    .ok (u32 (pmm.startingAddr + pageSize * (32 * i) + pageSize * j))
      { pmm with bitmap := pmm.bitmap.set i (setBit pmm.bitmap[i] j) }

/-- `pmm_free_page`.  The last page address is computed with a product. -/
def pmmFreePage (page : Nat) : Kern PhysicalMemory Unit := fun pmm =>
  let page_to_clear := pageAlign page
  let last_page_addr := u32 (pmm.startingAddr * u32 (pageSize * sub32 pmm.pageCount 1))
  if pmm.startingAddr ≤ page_to_clear ∧ page_to_clear ≤ last_page_addr then
    let page_index := sub32 page_to_clear pmm.startingAddr / pageSize
    let bitmap_index := page_index / 32
    let bit_in_bitmap := page_index % 32
    if h : bitmap_index < 8192 then
      .ok () { pmm with
        bitmap := pmm.bitmap.set bitmap_index (clearBit pmm.bitmap[bitmap_index] bit_in_bitmap) }
    else .error .outOfBounds pmm
  else .error (.panic "page not in page pool") pmm

/-! ### What a call does -/

/-- **One allocation**: it returns `NULL` and changes nothing, or it sets the first clear
bit and returns the address that belongs to it. -/
theorem pmmAllocPage_cases {pmm pmm' : PhysicalMemory} {a : Nat}
    (h : pmmAllocPage pmm = .ok a pmm') :
    (a = 0 ∧ pmm' = pmm ∧ ∀ k < 32 * (pmm.pageCount / 32), bit pmm.bitmap k = true) ∨
    ∃ k, k < 32 * (pmm.pageCount / 32) ∧ k < 8192 * 32 ∧ IsFirstClear pmm.bitmap k ∧
      a = u32 (pmm.startingAddr + 4096 * k) ∧ pmm' = { pmm with bitmap := setAt pmm.bitmap k } := by
  unfold pmmAllocPage at h
  cases hs : scanBitmap pmm.bitmap (pmm.pageCount / 32) 0 with
  | error e => rw [hs] at h; cases h
  | ok res =>
    rw [hs] at h
    cases res with
    | none =>
      cases h
      exact Or.inl ⟨rfl, rfl, scanBitmap_none hs⟩
    | some p =>
      obtain ⟨i, j⟩ := p
      obtain ⟨hi, hj, hfirst⟩ := scanBitmap_some hs
      have hb := i.isLt
      cases h
      refine Or.inr ⟨32 * i + j, by omega, by omega, hfirst, ?_, ?_⟩
      · rw [show pmm.startingAddr + pageSize * (32 * i) + pageSize * j
          = pmm.startingAddr + 4096 * (32 * i + j) by rw [pageSize]; ring]
      · exact congrArg (fun b => { pmm with bitmap := b }) (set_setBit hb hj)

theorem pmmAllocPage_lt {pmm pmm' : PhysicalMemory} {a : Nat}
    (h : pmmAllocPage pmm = .ok a pmm') : a < 2 ^ 32 := by
  rcases pmmAllocPage_cases h with ⟨rfl, -⟩ | ⟨k, -, -, -, rfl, -⟩
  · decide
  · exact u32_lt _

theorem lt_of_firstClear {b : Vector Word 8192} {k k' : Nat} (hk : IsFirstClear b k)
    (hlt : k < 8192 * 32) (hk' : IsFirstClear (setAt b k) k') : k < k' := by
  rcases Nat.lt_trichotomy k k' with h | h | h
  · exact h
  · have hclear := hk'.1
    rw [bit_setAt hlt, h] at hclear
    simp at hclear
  · have hclear := hk'.1
    rw [bit_setAt hlt, hk.2 k' h] at hclear
    cases hclear

/-- **One call of `pmm_free_page` that returns** clears the bit whose number is the distance
of the page from the start of the pool. -/
theorem pmmFreePage_cases {pmm pmm' : PhysicalMemory} {page : Nat}
    (h : pmmFreePage page pmm = .ok () pmm') :
    pmm.startingAddr ≤ pageAlign page ∧
      ∃ k, k = sub32 (pageAlign page) pmm.startingAddr / 4096 ∧ k < 8192 * 32 ∧
        pmm' = { pmm with bitmap := clearAt pmm.bitmap k } := by
  simp only [pmmFreePage] at h
  split at h
  · next hin =>
    split at h
    · next hlt =>
      cases h
      refine ⟨hin.1, _, rfl, by rw [pageSize] at hlt; omega, ?_⟩
      rw [set_clearBit hlt (Nat.mod_lt _ (by decide)), Nat.div_add_mod]
      rfl
    · cases h
  · cases h

/-! ### Pools -/

/-- An initialised pool: aligned, away from address zero, covered by the bitmap and ending
at 4 GiB at most. -/
structure Pool (pmm : PhysicalMemory) : Prop where
  aligned : pmm.startingAddr % 4096 = 0
  nonzero : 0 < pmm.startingAddr
  covered : pmm.pageCount ≤ 262144
  end_le : pmm.startingAddr + 4096 * pmm.pageCount ≤ 2 ^ 32

/-- The address of frame `k` of the pool. -/
def frameAddr (pmm : PhysicalMemory) (k : Nat) : Nat := pmm.startingAddr + 4096 * k

theorem frameAddr_inj {pmm : PhysicalMemory} {i k : Nat} :
    frameAddr pmm i = frameAddr pmm k ↔ i = k := by
  unfold frameAddr
  omega

theorem Pool.frameAddr_lt {pmm : PhysicalMemory} (hp : Pool pmm) {k : Nat}
    (hk : k < pmm.pageCount) : frameAddr pmm k < 2 ^ 32 := by
  have := hp.end_le
  unfold frameAddr
  omega

theorem Pool.setBitmap {pmm : PhysicalMemory} (hp : Pool pmm) (b : Vector Word 8192) :
    Pool { pmm with bitmap := b } :=
  ⟨hp.aligned, hp.nonzero, hp.covered, hp.end_le⟩

theorem pmmAllocPage_pool {pmm pmm' : PhysicalMemory} (hp : Pool pmm) {a : Nat}
    (h : pmmAllocPage pmm = .ok a pmm') (ha : a ≠ 0) :
    ∃ k, k < pmm.pageCount ∧ IsFirstClear pmm.bitmap k ∧ a = frameAddr pmm k ∧
      pmm' = { pmm with bitmap := setAt pmm.bitmap k } := by
  rcases pmmAllocPage_cases h with ⟨h0, -⟩ | ⟨k, hk, -, hfirst, hak, hpmm⟩
  · exact absurd h0 ha
  · have hkc : k < pmm.pageCount := by omega
    exact ⟨k, hkc, hfirst, hak.trans (u32_of_lt (hp.frameAddr_lt hkc)), hpmm⟩

theorem pmmFreePage_frame {pmm pmm' : PhysicalMemory} (hp : Pool pmm) {page k : Nat}
    (hk : k < pmm.pageCount) (hpage : pageAlign page = frameAddr pmm k)
    (h : pmmFreePage page pmm = .ok () pmm') :
    pmm' = { pmm with bitmap := clearAt pmm.bitmap k } := by
  obtain ⟨-, i, hi, -, hpmm⟩ := pmmFreePage_cases h
  have hlt := hp.frameAddr_lt hk
  have hle : pmm.startingAddr ≤ frameAddr pmm k := Nat.le_add_right _ _
  have hik : i = k := by
    rw [hi, hpage, sub32_of_le hlt hle, frameAddr]
    omega
  rw [hpmm, hik]

/-! ### Runs -/

/-- A pool together with the addresses that are allocated at the moment. -/
structure Sys where
  pmm : PhysicalMemory
  allocated : List Nat

/-- A call of the allocator. -/
inductive Op where
  | alloc
  | free (page : Nat)

/-- The calls that return.  A page may be freed only while it is allocated. -/
inductive Step : Sys → Op → Sys → Prop
  | full {s : Sys} {pmm' : PhysicalMemory} (h : pmmAllocPage s.pmm = .ok 0 pmm') :
      Step s .alloc ⟨pmm', s.allocated⟩
  | alloc {s : Sys} {a : Nat} {pmm' : PhysicalMemory} (h : pmmAllocPage s.pmm = .ok a pmm')
      (ha : a ≠ 0) : Step s .alloc ⟨pmm', a :: s.allocated⟩
  | free {s : Sys} {page : Nat} {pmm' : PhysicalMemory} (hmem : pageAlign page ∈ s.allocated)
      (h : pmmFreePage page s.pmm = .ok () pmm') :
      Step s (.free page) ⟨pmm', s.allocated.erase (pageAlign page)⟩

/-- Every outstanding address is listed once and is a frame of the pool whose bit is
set. -/
structure Inv (pmm : PhysicalMemory) (s : Sys) : Prop where
  pool : Pool s.pmm
  start : s.pmm.startingAddr = pmm.startingAddr
  count : s.pmm.pageCount = pmm.pageCount
  nodup : s.allocated.Nodup
  set : ∀ a ∈ s.allocated, ∃ k < s.pmm.pageCount, a = frameAddr s.pmm k ∧ bit s.pmm.bitmap k = true

theorem Inv.not_mem_of_clear {pmm : PhysicalMemory} {s : Sys} (hi : Inv pmm s) {k : Nat}
    (hclear : bit s.pmm.bitmap k = false) : frameAddr s.pmm k ∉ s.allocated := by
  intro hmem
  obtain ⟨i, -, hik, hset⟩ := hi.set _ hmem
  rw [← frameAddr_inj.mp hik, hclear] at hset
  cases hset

theorem Pool.lt_bits {pmm : PhysicalMemory} (hp : Pool pmm) {k : Nat} (hk : k < pmm.pageCount) :
    k < 8192 * 32 :=
  lt_of_lt_of_le hk hp.covered

theorem Inv.alloc {pmm : PhysicalMemory} {s : Sys} (hi : Inv pmm s) {k : Nat}
    (hk : k < s.pmm.pageCount) (hclear : bit s.pmm.bitmap k = false) :
    Inv pmm ⟨{ s.pmm with bitmap := setAt s.pmm.bitmap k }, frameAddr s.pmm k :: s.allocated⟩ := by
  have hkb := hi.pool.lt_bits hk
  refine ⟨hi.pool.setBitmap _, hi.start, hi.count,
    List.nodup_cons.mpr ⟨hi.not_mem_of_clear hclear, hi.nodup⟩, ?_⟩
  intro a ha
  rcases List.mem_cons.mp ha with rfl | ha
  · exact ⟨k, hk, rfl, by rw [bit_setAt hkb]; simp⟩
  · obtain ⟨i, hi', hai, hset⟩ := hi.set a ha
    exact ⟨i, hi', hai, by rw [bit_setAt hkb, hset, Bool.true_or]⟩

theorem Inv.free {pmm : PhysicalMemory} {s : Sys} (hi : Inv pmm s) {k : Nat}
    (hk : k < s.pmm.pageCount) :
    Inv pmm ⟨{ s.pmm with bitmap := clearAt s.pmm.bitmap k },
      s.allocated.erase (frameAddr s.pmm k)⟩ := by
  have hkb := hi.pool.lt_bits hk
  refine ⟨hi.pool.setBitmap _, hi.start, hi.count, hi.nodup.erase _, ?_⟩
  intro a ha
  obtain ⟨hne, hmem⟩ := hi.nodup.mem_erase_iff.mp ha
  obtain ⟨i, hi', rfl, hset⟩ := hi.set a hmem
  have hik : i ≠ k := fun h => hne (by rw [h])
  exact ⟨i, hi', rfl, by rw [bit_clearAt hkb, hset]; simp [hik]⟩

theorem Inv.step {pmm : PhysicalMemory} {s s' : Sys} {op : Op} (hi : Inv pmm s)
    (h : Step s op s') : Inv pmm s' := by
  cases h with
  | full h =>
    rcases pmmAllocPage_cases h with ⟨-, rfl, -⟩ | ⟨k, hk, -, -, h0, -⟩
    · exact hi
    · -- a frame of the pool never has the address zero
      have hlt := hi.pool.frameAddr_lt (show k < s.pmm.pageCount by omega)
      have hpos := hi.pool.nonzero
      unfold frameAddr at hlt
      rw [u32_of_lt hlt] at h0
      omega
  | alloc h ha =>
    obtain ⟨k, hk, hfirst, rfl, rfl⟩ := pmmAllocPage_pool hi.pool h ha
    exact hi.alloc hk hfirst.1
  | free hmem h =>
    obtain ⟨k, hk, hpage, -⟩ := hi.set _ hmem
    rw [pmmFreePage_frame hi.pool hk hpage h, hpage]
    exact hi.free hk

/-- **Outstanding frames are marked**, in every state a run reaches. -/
theorem inv_of_run {pmm : PhysicalMemory} (hp : Pool pmm) {ops : List Op} {s : Sys}
    (h : Run Step ⟨pmm, []⟩ ops s) : Inv pmm s :=
  h.invariant (fun hi hs => hi.step hs)
    ⟨hp, rfl, rfl, List.nodup_nil, fun _ ha => absurd ha List.not_mem_nil⟩

/-- **A page handed out is the lowest clear one of the pool and nobody else has it.** -/
theorem alloc_fresh {pmm : PhysicalMemory} (hp : Pool pmm) {ops : List Op} {s : Sys}
    (hrun : Run Step ⟨pmm, []⟩ ops s) {a : Nat} {pmm' : PhysicalMemory}
    (h : pmmAllocPage s.pmm = .ok a pmm') (ha : a ≠ 0) :
    a % 4096 = 0 ∧ pmm.startingAddr ≤ a ∧ a < pmm.startingAddr + pmm.pageCount * 4096 ∧
      IsFirstClear s.pmm.bitmap ((a - pmm.startingAddr) / 4096) ∧ a ∉ s.allocated := by
  have hi := inv_of_run hp hrun
  obtain ⟨k, hk, hfirst, rfl, -⟩ := pmmAllocPage_pool hi.pool h ha
  have hal := hp.aligned
  have hk' : k < pmm.pageCount := hi.count ▸ hk
  refine ⟨?_, ?_, ?_, ?_, hi.not_mem_of_clear hfirst.1⟩
  · rw [frameAddr, hi.start]
    omega
  · rw [frameAddr, hi.start]
    omega
  · rw [frameAddr, hi.start]
    omega
  · rw [frameAddr, hi.start, show (pmm.startingAddr + 4096 * k - pmm.startingAddr) / 4096 = k by
      omega]
    exact hfirst

/-- A pool of 64 frames at 2 MiB. -/
def smallPool : PhysicalMemory :=
  { pmmStatic with startingAddr := 0x200000, pageCount := 64 }

theorem pool_smallPool : Pool smallPool := ⟨rfl, by decide, by decide, by decide⟩

/-- The second page of that pool differs from the first one, which is still allocated. -/
theorem alloc_fresh_smallPool :
    0x201000 % 4096 = 0 ∧ smallPool.startingAddr ≤ 0x201000 ∧
      0x201000 < smallPool.startingAddr + smallPool.pageCount * 4096 ∧
      IsFirstClear (stateAfter (pmmAllocPage smallPool)).bitmap
        ((0x201000 - smallPool.startingAddr) / 4096) ∧
      0x201000 ∉ [0x200000] := by
  have hfirst : pmmAllocPage smallPool = .ok 0x200000 (stateAfter (pmmAllocPage smallPool)) := rfl
  have hrun : Run Step ⟨smallPool, []⟩ [.alloc]
      ⟨stateAfter (pmmAllocPage smallPool), [0x200000]⟩ :=
    Run.single (.alloc hfirst (by decide))
  have hsecond : pmmAllocPage (stateAfter (pmmAllocPage smallPool)) =
      .ok 0x201000 (stateAfter (pmmAllocPage (stateAfter (pmmAllocPage smallPool)))) := rfl
  exact alloc_fresh pool_smallPool hrun hsecond (by decide)

end Aosis.Memory.Pmm
