import Aosis.Memory.PmmInit

/-!
# The edges of the pool

Three places where `kernel/memory/pmm.c` computes an edge of the pool, and when it gets it right.

* `freeLaw_iff`: `pmm_free_page` multiplies the start of the pool with its size to get the last page,
  modulo `2 ^ 32`.
* `allocLaw_iff`: `pmm_alloc_page` searches whole words, so it misses the frames after the last one.
* `bitmapCovers_iff`: `pmm_init_struct` does not compare the number of frames with the bitmap.
-/

namespace Aosis.Memory.Pmm

open Aosis.Lib Aosis.Lib.Bitmap

/-! ### The last page that can be freed -/

/-- An initialised pool, anywhere below 4 GiB. -/
structure PoolRange (pmm : PhysicalMemory) : Prop where
  aligned : pmm.startingAddr % 4096 = 0
  pos : 1 ≤ pmm.pageCount
  covered : pmm.pageCount ≤ 262144
  end_le : pmm.startingAddr + 4096 * pmm.pageCount ≤ 2 ^ 32

/-- `pmm_free_page` clears the bit of a page of the pool and no other one, and panics on any other
page without changing anything. -/
def FreeLaw (pmm : PhysicalMemory) (page : Nat) : Prop :=
  (∀ k < pmm.pageCount, pageAlign page = frameAddr pmm k →
    pmmFreePage page pmm = .ok () { pmm with bitmap := clearAt pmm.bitmap k }) ∧
  ((∀ k < pmm.pageCount, pageAlign page ≠ frameAddr pmm k) →
    pmmFreePage page pmm = .error (.panic "page not in page pool") pmm)

/-- The largest address that passes the test of `pmm_free_page`: a multiple of 16 MiB. -/
def lastFreeable (pmm : PhysicalMemory) : Nat :=
  2 ^ 24 * (pmm.startingAddr / 4096 * (pmm.pageCount - 1) % 256)

section Free

variable {pmm : PhysicalMemory} {page k : Nat}

theorem u32_mul_eq_lastFreeable (hp : PoolRange pmm) :
    u32 (pmm.startingAddr * u32 (pageSize * sub32 pmm.pageCount 1)) = lastFreeable pmm := by
  have hcovered := hp.covered
  have hstart : pmm.startingAddr = 4096 * (pmm.startingAddr / 4096) := by
    have := hp.aligned
    omega
  have hsize : u32 (pageSize * sub32 pmm.pageCount 1) = 4096 * (pmm.pageCount - 1) := by
    rw [sub32_of_le (by omega) hp.pos, pageSize]
    exact u32_of_lt (by omega)
  calc u32 (pmm.startingAddr * u32 (pageSize * sub32 pmm.pageCount 1))
      = u32 (4096 * (pmm.startingAddr / 4096) * (4096 * (pmm.pageCount - 1))) := by
        rw [hsize, ← hstart]
    _ = u32 (2 ^ 24 * (pmm.startingAddr / 4096 * (pmm.pageCount - 1))) := congrArg u32 (by ring)
    _ = 2 ^ 24 * (pmm.startingAddr / 4096 * (pmm.pageCount - 1)) % (2 ^ 24 * 256) := rfl
    _ = lastFreeable pmm := Nat.mul_mod_mul_left _ _ _

theorem pmmFreePage_ok (hp : PoolRange pmm) (hk : k < pmm.pageCount)
    (hpage : pageAlign page = frameAddr pmm k) (hle : pageAlign page ≤ lastFreeable pmm) :
    pmmFreePage page pmm = .ok () { pmm with bitmap := clearAt pmm.bitmap k } := by
  have hcovered := hp.covered
  have hend := hp.end_le
  have hindex : sub32 (frameAddr pmm k) pmm.startingAddr / pageSize = k := by
    rw [frameAddr, sub32_of_le (by omega) (by omega), pageSize]
    omega
  have hword : k / 32 < 8192 := by omega
  simp only [pmmFreePage, u32_mul_eq_lastFreeable hp, if_pos (show pmm.startingAddr ≤ pageAlign page ∧
    pageAlign page ≤ lastFreeable pmm from ⟨by rw [hpage, frameAddr]; omega, hle⟩)]
  rw [hpage, hindex, dif_pos hword, set_clearBit hword (Nat.mod_lt _ (by decide)), Nat.div_add_mod]

theorem pmmFreePage_panic (hp : PoolRange pmm)
    (h : ¬ (pmm.startingAddr ≤ pageAlign page ∧ pageAlign page ≤ lastFreeable pmm)) :
    pmmFreePage page pmm = .error (.panic "page not in page pool") pmm := by
  simp only [pmmFreePage, u32_mul_eq_lastFreeable hp, if_neg h]

theorem pmmFreePage_ne_panic (hp : PoolRange pmm) (hge : pmm.startingAddr ≤ pageAlign page)
    (hle : pageAlign page ≤ lastFreeable pmm) {msg : String} {pmm' : PhysicalMemory} :
    pmmFreePage page pmm ≠ .error (.panic msg) pmm' := by
  simp only [pmmFreePage, u32_mul_eq_lastFreeable hp, if_pos (And.intro hge hle)]
  intro h
  split at h <;> cases h

theorem exists_frame_iff (hp : PoolRange pmm) :
    (∃ k < pmm.pageCount, pageAlign page = frameAddr pmm k) ↔
      pmm.startingAddr ≤ pageAlign page ∧
        pageAlign page < pmm.startingAddr + 4096 * pmm.pageCount := by
  have haligned := hp.aligned
  have hpage := pageAlign_mod page
  simp only [frameAddr]
  constructor
  · rintro ⟨k, hk, he⟩
    omega
  · rintro ⟨hge, hlt⟩
    exact ⟨(pageAlign page - pmm.startingAddr) / 4096, by omega, by omega⟩

/-- **When `pmm_free_page` accepts exactly the pool.**  For a page below the pool it does, and for
any other page if and only if the page is on the same side of the largest address that passes the
test as of the end of the pool. -/
theorem freeLaw_iff (hp : PoolRange pmm) (page : Nat) : FreeLaw pmm page ↔
    pageAlign page < pmm.startingAddr ∨ (pageAlign page ≤ lastFreeable pmm ↔
      pageAlign page < pmm.startingAddr + 4096 * pmm.pageCount) := by
  have hframe : (∃ k < pmm.pageCount, pageAlign page = frameAddr pmm k) ↔ _ := exists_frame_iff hp
  have hout : (∀ k < pmm.pageCount, pageAlign page ≠ frameAddr pmm k) ↔
      ¬ ∃ k < pmm.pageCount, pageAlign page = frameAddr pmm k := by simp
  rw [FreeLaw, hout, hframe]
  constructor
  · intro ⟨hin, hpanic⟩
    by_cases hge : pmm.startingAddr ≤ pageAlign page
    · right
      constructor
      · intro hle
        by_contra hlt
        exact pmmFreePage_ne_panic hp hge hle (hpanic fun h => hlt h.2)
      · intro hlt
        obtain ⟨k, hk, hpage⟩ := hframe.mpr ⟨hge, hlt⟩
        by_contra hle
        have hok := hin k hk hpage
        rw [pmmFreePage_panic hp fun h => hle h.2] at hok
        cases hok
    · exact Or.inl (Nat.lt_of_not_le hge)
  · intro h
    constructor
    · intro k hk hpage
      obtain ⟨hge, hlt⟩ := hframe.mp ⟨k, hk, hpage⟩
      rcases h with h | h
      · omega
      · exact pmmFreePage_ok hp hk hpage (h.mpr hlt)
    · intro hno
      apply pmmFreePage_panic hp
      rintro ⟨hge, hle⟩
      rcases h with h | h
      · omega
      · exact hno ⟨hge, h.mp hle⟩

end Free

theorem poolRange_smallPool : PoolRange smallPool := ⟨rfl, by decide, by decide, by decide⟩

/-- A page below the pool of 64 frames is refused, as it should be. -/
theorem freeLaw_smallPool : FreeLaw smallPool 0x1FFFFF :=
  (freeLaw_iff poolRange_smallPool 0x1FFFFF).mpr (Or.inl (by decide))

/-- Its first page is refused too. -/
theorem not_freeLaw_smallPool : PoolRange smallPool ∧ ¬ FreeLaw smallPool 0x200000 := by
  refine ⟨poolRange_smallPool, ?_⟩
  intro h
  have hok := h.1 0 (by decide) (by decide)
  have hpanic : pmmFreePage 0x200000 smallPool =
      .error (.panic "page not in page pool") smallPool := rfl
  rw [hpanic] at hok
  cases hok

/-! ### The last word -/

/-- `pmm_alloc_page` returns, it returns `NULL` if and only if all frames of the pool are allocated,
and then it changes nothing. -/
def AllocLaw (pmm : PhysicalMemory) : Prop :=
  ∃ a pmm', pmmAllocPage pmm = .ok a pmm' ∧
    (a = 0 ↔ ∀ k < pmm.pageCount, bit pmm.bitmap k = true) ∧ (a = 0 → pmm' = pmm)

section Alloc

variable {pmm : PhysicalMemory}

theorem pmmAllocPage_ok (h : pmm.pageCount ≤ 262144) : ∃ a pmm', pmmAllocPage pmm = .ok a pmm' := by
  rw [pmmAllocPage]
  cases hscan : scanBitmap pmm.bitmap (pmm.pageCount / 32) 0 with
  | error e =>
    have := (scanBitmap_error hscan).2
    omega
  | ok res =>
    cases res with
    | none => exact ⟨_, _, rfl⟩
    | some p => exact ⟨_, _, rfl⟩

/-- `NULL` means that the frames of the whole words are allocated. -/
theorem pmmAllocPage_eq_zero_iff (hp : Pool pmm) {a : Nat} {pmm' : PhysicalMemory}
    (h : pmmAllocPage pmm = .ok a pmm') :
    a = 0 ↔ ∀ k < 32 * (pmm.pageCount / 32), bit pmm.bitmap k = true := by
  have hnonzero := hp.nonzero
  rcases pmmAllocPage_cases h with ⟨ha, -, hall⟩ | ⟨k, hk, -, hfirst, ha, -⟩
  · exact iff_of_true ha hall
  · refine iff_of_false ?_ ?_
    · have hlt := hp.frameAddr_lt (show k < pmm.pageCount by omega)
      rw [frameAddr] at hlt
      rw [ha, u32_of_lt hlt]
      omega
    · intro hall
      have hset := hall k hk
      rw [hfirst.1] at hset
      cases hset

/-- **When `pmm_alloc_page` fails only on a full pool.**  This is so if and only if some frame of the
whole words is free or every frame after them is allocated. -/
theorem allocLaw_iff (hp : Pool pmm) : AllocLaw pmm ↔
    (∃ k < 32 * (pmm.pageCount / 32), bit pmm.bitmap k = false) ∨
      ∀ k, 32 * (pmm.pageCount / 32) ≤ k → k < pmm.pageCount → bit pmm.bitmap k = true := by
  obtain ⟨a, pmm', halloc⟩ := pmmAllocPage_ok hp.covered
  have hzero := pmmAllocPage_eq_zero_iff hp halloc
  constructor
  · intro ⟨b, pmm'', halloc', hb, _⟩
    rw [halloc] at halloc'
    cases halloc'
    by_cases ha : a = 0
    · exact Or.inr fun k _ hk => hb.mp ha k hk
    · left
      by_contra hnone
      refine ha (hzero.mpr ?_)
      intro k hk
      by_contra hclear
      exact hnone ⟨k, hk, by simpa using hclear⟩
  · intro h
    refine ⟨a, pmm', halloc, ?_, ?_⟩
    · rw [hzero]
      constructor
      · intro hall k hk
        by_cases hlt : k < 32 * (pmm.pageCount / 32)
        · exact hall k hlt
        · rcases h with ⟨i, hi, hclear⟩ | hrest
          · rw [hall i hi] at hclear
            cases hclear
          · exact hrest k (Nat.le_of_not_lt hlt) hk
      · intro hall k hk
        exact hall k (by omega)
    · intro ha
      rcases pmmAllocPage_cases halloc with ⟨-, hsame, -⟩ | ⟨k, hk, -, hfirst, -, -⟩
      · exact hsame
      · have hset := hzero.mp ha k hk
        rw [hfirst.1] at hset
        cases hset

end Alloc

/-- The pool of 64 frames has no frame after its last word. -/
theorem allocLaw_smallPool : AllocLaw smallPool :=
  (allocLaw_iff pool_smallPool).mpr (Or.inr fun _ hge hlt => absurd hlt (Nat.not_lt.mpr hge))

/-- An empty pool of 31 frames at 2 MiB. -/
def tinyPool : PhysicalMemory := { pmmStatic with startingAddr := 0x200000, pageCount := 31 }

/-- Not one of the 31 frames is given out. -/
theorem not_allocLaw_tinyPool : Pool tinyPool ∧ ¬ AllocLaw tinyPool := by
  refine ⟨⟨rfl, by decide, by decide, by decide⟩, ?_⟩
  rintro ⟨a, pmm', halloc, hfull, _⟩
  have hnull : pmmAllocPage tinyPool = .ok 0 tinyPool := rfl
  rw [hnull] at halloc
  cases halloc
  have hset := hfull.mp rfl 0 (by decide)
  revert hset
  simp [bit, tinyPool, pmmStatic]

/-! ### The size of the bitmap -/

/-- A call of the allocator that returns, with any argument. -/
inductive CallStep : PhysicalMemory → Op → PhysicalMemory → Prop
  | alloc {pmm pmm' : PhysicalMemory} {a : Nat} (h : pmmAllocPage pmm = .ok a pmm') :
      CallStep pmm .alloc pmm'
  | free {pmm pmm' : PhysicalMemory} {page : Nat} (h : pmmFreePage page pmm = .ok () pmm') :
      CallStep pmm (.free page) pmm'

/-- The bitmap has a bit for each frame, and `pmm_alloc_page` stays inside it in every run. -/
def BitmapCovers (pmm : PhysicalMemory) : Prop :=
  pmm.pageCount ≤ 8192 * 32 ∧ ∀ ops pmm', Run CallStep pmm ops pmm' →
    ∀ e pmm'', pmmAllocPage pmm' ≠ .error e pmm''

section Covers

variable {pmm pmm' : PhysicalMemory}

theorem CallStep.pageCount {op : Op} (h : CallStep pmm op pmm') : pmm'.pageCount = pmm.pageCount := by
  cases h with
  | alloc h =>
    rcases pmmAllocPage_cases h with ⟨-, rfl, -⟩ | ⟨k, -, -, -, -, rfl⟩
    · rfl
    · rfl
  | free h =>
    obtain ⟨-, k, -, -, rfl⟩ := pmmFreePage_cases h
    rfl

theorem pageCount_of_run {ops : List Op} (h : Run CallStep pmm ops pmm') :
    pmm'.pageCount = pmm.pageCount := by
  induction h with
  | nil => rfl
  | snoc _ hs ih => exact hs.pageCount.trans ih

theorem bitmapCovers_iff_pageCount : BitmapCovers pmm ↔ pmm.pageCount ≤ 262144 := by
  constructor
  · intro h
    exact h.1
  · intro h
    refine ⟨h, ?_⟩
    intro ops pmm' hrun e pmm'' herror
    have hcount : pmm'.pageCount ≤ 262144 := by rw [pageCount_of_run hrun]; exact h
    obtain ⟨a, s, hok⟩ := pmmAllocPage_ok hcount
    rw [hok] at herror
    cases herror

/-- The number of frames that `pmm_init_struct` computes.  An end of memory below the first page or
in the last one below 4 GiB makes the size wrap, and what comes out is larger than the bitmap. -/
theorem pmmInitStruct_pageCount_le_iff (image : KernelImage) (pmm : PhysicalMemory) {e : Nat}
    (he : e < 2 ^ 32) : (pmmInitStruct image e pmm).pageCount ≤ 262144 ↔
      pmmFirstPageAddr image.kernelEndAddrPhys ≤ e ∧ e < 0xFFFFF000 ∧
        e / 4096 ≤ pmmFirstPageAddr image.kernelEndAddrPhys / 4096 + 262144 := by
  obtain ⟨hal, hge, hlt⟩ := pmmFirstPageAddr_spec image.end_le'
  have hpos := image.end_ge
  have hle := image.end_le'
  simp only [pmmInitStruct, pageSize]
  generalize pmmFirstPageAddr image.kernelEndAddrPhys = first at *
  rw [pageIncrement_pmmLastPageAddr he]
  unfold sub32 u32
  split_ifs with hend <;> omega

end Covers

/-- **When the bitmap covers the pool.**  For a map with the flag set and an available entry, the
bitmap covers the pool in every run after `pmm_init` if and only if the end of the last available
entry lies between the first page and the last page below 4 GiB, and at most 1 GiB of memory lies
between the first page and that end. -/
theorem bitmapCovers_iff (image : KernelImage) (mbt : MultibootInfo) (junk : Nat) (s : Globals)
    (hflags : (mbt.flags >>> 6) &&& 0x01 ≠ 0) {f : MultibootMmapEntry} (hf : f ∈ mbt.mmap)
    (havail : f.Available) : BitmapCovers (stateAfter (pmmInit image mbt junk s)).pmm ↔
      ∃ e, lastAvailable mbt.mmap = some e ∧
        pmmFirstPageAddr image.kernelEndAddrPhys ≤ e.lowEnd ∧ e.lowEnd < 0xFFFFF000 ∧
        e.lowEnd / 4096 ≤ pmmFirstPageAddr image.kernelEndAddrPhys / 4096 + 262144 := by
  obtain ⟨e, he⟩ := lastAvailable_isSome hf havail
  obtain ⟨pmm, -, hcount⟩ := pmmInit_pool image junk s hflags he
  have hiff := pmmInitStruct_pageCount_le_iff image pmm (u32_lt (e.addrLow.toNat + e.lenLow.toNat))
  rw [bitmapCovers_iff_pageCount, hcount]
  constructor
  · intro h
    exact ⟨e, he, hiff.mp h⟩
  · intro ⟨g, hg, h⟩
    obtain rfl : e = g := Option.some.inj (he.symm.trans hg)
    exact hiff.mpr h

theorem bitmapCovers_solidMap :
    BitmapCovers (stateAfter (pmmInit smallImage solidMap 0 .static)).pmm :=
  (bitmapCovers_iff smallImage solidMap 0 .static (by decide) (List.mem_singleton.mpr rfl) rfl).mpr
    ⟨_, rfl, by decide, by decide, by decide⟩

/-- A machine with 3 GiB of memory. -/
def largeMap : MultibootInfo where
  flags := 0x40
  mmap := [⟨0x100000, 0, 0xBFF00000, 0, multibootMemoryAvailable⟩]
  modList := ⟨0x180000, 0x181000⟩

/-- Its pool has three times as many frames as the bitmap has bits. -/
theorem not_bitmapCovers_largeMap :
    (∃ e ∈ largeMap.mmap, e.Available ∧ smallImage.kernelEndAddrPhys < e.lowEnd) ∧
      (stateAfter (pmmInit smallImage largeMap 0 .static)).pmm.pageCount = 786048 ∧
      ¬ BitmapCovers (stateAfter (pmmInit smallImage largeMap 0 .static)).pmm := by
  have hcount : (stateAfter (pmmInit smallImage largeMap 0 .static)).pmm.pageCount = 786048 := rfl
  refine ⟨⟨_, List.mem_cons_self, rfl, by decide⟩, hcount, ?_⟩
  intro h
  have hle := h.1
  rw [hcount] at hle
  omega

end Aosis.Memory.Pmm
