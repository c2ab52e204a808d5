import Aosis.Memory.VmmLayout

/-!
# Freeing a page

`vmm_free_page` looks for the block of a page.  Its test joins the two halves of the range with an
or, so the first block passes it for every address, and the index is the number of the page in the
whole address space of the kernel.  Both are right for the pages of the first block, and
`freesExactly_iff` says that they are wrong for every other page.
-/

namespace Aosis.Memory.Vmm

open Aosis.Lib.Bitmap Aosis.Memory.Pmm Aosis.Memory.Paging

/-- The page of the address lies in the range of the block. -/
def InBlock (page : Nat) (d : VmmBlockDesc) : Prop :=
  d.firstPage ≤ pageAlign page ∧ pageAlign page < d.firstPage + pageTableRange

instance (page : Nat) (d : VmmBlockDesc) : Decidable (InBlock page d) :=
  inferInstanceAs (Decidable (_ ∧ _))

/-- Block `k`, which the page lies in, with the bit of the page cleared.  Nothing is said about the
number of its free pages. -/
def Freed (page k : Nat) (s s' : State) : Prop :=
  ∃ d free, s.vmmBlockList[k]? = some d ∧ InBlock page d ∧
    s' = { s with vmmBlockList := s.vmmBlockList.set k { d with
      bitmap := clearAt d.bitmap ((pageAlign page - d.firstPage) / pageSize)
      freePages := free } }

/-- The call clears the bit of the page in the block that the page lies in, and nothing else; when
there is no such block, it panics and changes nothing. -/
def FreesExactly (page : Nat) (s : State) : Prop :=
  ((∃ d ∈ s.vmmBlockList, InBlock page d) →
    ∃ k s', vmmFreePage page s = .ok () s' ∧ Freed page k s s') ∧
  ((∀ d ∈ s.vmmBlockList, ¬ InBlock page d) →
    vmmFreePage page s = .error (.panic "invalid page provided\n") s)

section Free

variable {page : Nat} {d : VmmBlockDesc} {rest : List VmmBlockDesc} {s : State}

/-- The index that the source computes, for a page of the first block. -/
theorem v2pAddr_div_of_inBlock (hd : d.firstPage = kernelBaseAddrVirt) (h : InBlock page d) :
    v2pAddr page / pageSize = (pageAlign page - d.firstPage) / pageSize ∧
      v2pAddr page / pageSize < 1024 := by
  have hpage := pageAlign_u32 page
  obtain ⟨hge, hlt⟩ := h
  rw [hd] at hge hlt ⊢
  simp only [pageTableRange, pageTableIndices, pageSize, kernelBaseAddrVirt, v2pAddr, sub32, u32]
    at hpage hge hlt ⊢
  omega

/-- For any other page the index is past the end of the bitmap. -/
theorem v2pAddr_div_of_not_inBlock (hd : d.firstPage = kernelBaseAddrVirt) (h : ¬ InBlock page d) :
    1024 ≤ v2pAddr page / pageSize := by
  have hpage := pageAlign_u32 page
  simp only [InBlock, hd, pageTableRange, pageTableIndices, pageSize, kernelBaseAddrVirt, v2pAddr,
    sub32, u32] at hpage h ⊢
  omega

/-- The first block passes the test for every address. -/
theorem vmmClearPage_cons (hd : d.firstPage = kernelBaseAddrVirt) :
    vmmClearPage page (d :: rest) =
      if v2pAddr page / pageSize < 1024 then
        some (.ok ({ d with bitmap := clearAt d.bitmap (v2pAddr page / pageSize) } :: rest))
      else some (.error .outOfBounds) := by
  have htest : d.firstPage ≤ pageAlign page ∨
      pageAlign page ≤ sub32 (u32 (d.firstPage + pageTableRange)) pageSize := by
    rw [hd]
    simp only [pageTableRange, pageTableIndices, pageSize, kernelBaseAddrVirt, sub32, u32]
    omega
  simp only [vmmClearPage, if_pos htest]
  by_cases hlt : v2pAddr page / pageSize < 1024
  · have hword : v2pAddr page / pageSize / 32 < 32 := by omega
    rw [if_pos hlt, dif_pos hword, set_clearBit hword (Nat.mod_lt _ (by decide)), Nat.div_add_mod]
  · have hword : ¬ v2pAddr page / pageSize / 32 < 32 := by omega
    rw [if_neg hlt, dif_neg hword]

theorem vmmFreePage_inBlock (hlist : s.vmmBlockList = d :: rest)
    (hd : d.firstPage = kernelBaseAddrVirt) (h : InBlock page d) :
    ∃ s', vmmFreePage page s = .ok () s' ∧ Freed page 0 s s' := by
  obtain ⟨hindex, hlt⟩ := v2pAddr_div_of_inBlock hd h
  refine ⟨_, by rw [vmmFreePage, hlist, vmmClearPage_cons hd, if_pos hlt], d, d.freePages, ?_, h, ?_⟩
  · rw [hlist]
    rfl
  · rw [hlist, hindex]
    rfl

theorem vmmFreePage_not_inBlock (hlist : s.vmmBlockList = d :: rest)
    (hd : d.firstPage = kernelBaseAddrVirt) (h : ¬ InBlock page d) :
    vmmFreePage page s = .error .outOfBounds s := by
  have hge := v2pAddr_div_of_not_inBlock hd h
  rw [vmmFreePage, hlist, vmmClearPage_cons hd, if_neg (Nat.not_lt.mpr hge)]

/-- **When `vmm_free_page` frees the page it is given.**  For every list of blocks that starts where
the address space of the kernel does, this is so if and only if the list is empty or the page lies in
its first block. -/
theorem freesExactly_iff (page : Nat) (s : State)
    (hhead : ∀ d ∈ s.vmmBlockList.head?, d.firstPage = kernelBaseAddrVirt) :
    FreesExactly page s ↔
      s.vmmBlockList = [] ∨ ∃ d ∈ s.vmmBlockList.head?, InBlock page d := by
  cases hlist : s.vmmBlockList with
  | nil =>
    have hpanic : vmmFreePage page s = .error (.panic "invalid page provided\n") s := by
      rw [vmmFreePage, hlist]
      rfl
    simp [FreesExactly, hlist, hpanic]
  | cons d rest =>
    have hd : d.firstPage = kernelBaseAddrVirt := hhead d (by rw [hlist]; rfl)
    have hiff : (d :: rest = [] ∨ ∃ c ∈ (d :: rest).head?, InBlock page c) ↔ InBlock page d := by
      simp
    rw [hiff]
    constructor
    · intro ⟨hok, hpanic⟩
      by_contra hno
      have herror := vmmFreePage_not_inBlock hlist hd hno
      by_cases hin : ∃ c ∈ s.vmmBlockList, InBlock page c
      · obtain ⟨k, s', hfree, -⟩ := hok hin
        rw [herror] at hfree
        cases hfree
      · have hfree := hpanic fun c hc hpage => hin ⟨c, hc, hpage⟩
        rw [herror] at hfree
        cases hfree
    · intro h
      refine ⟨?_, ?_⟩
      · intro _
        obtain ⟨s', hfree⟩ := vmmFreePage_inBlock hlist hd h
        exact ⟨0, s', hfree⟩
      · intro hno
        exact absurd h (hno d (by rw [hlist]; exact List.mem_cons_self))

end Free

/-- The first block when all its pages are taken. -/
def fullBlock : VmmBlockDesc where
  bitmap := Vector.replicate 32 0xFFFFFFFF
  highWaterMark := 1024
  freePages := 0
  firstPage := kernelBaseAddrVirt
  pageTable := 0xC0182000

/-- A full block and the next one, with its first page taken. -/
def twoBlocks : State where
  paging := Mem.atEntry smallImage smallPool fun _ _ => {}
  vmmBlockList := [fullBlock, takePage 1024 (newBlock fullBlock)]
  allocatingNewBlock := false

theorem head_twoBlocks : ∀ d ∈ twoBlocks.vmmBlockList.head?, d.firstPage = kernelBaseAddrVirt := by
  simp [twoBlocks, fullBlock]

/-- A page of the first block is freed. -/
theorem freesExactly_twoBlocks : FreesExactly 0xC0200000 twoBlocks :=
  (freesExactly_iff 0xC0200000 twoBlocks head_twoBlocks).mpr (Or.inr ⟨fullBlock, rfl, by decide⟩)

/-- The page of the second block is taken, and freeing it writes past the bitmap of the first. -/
theorem not_freesExactly_twoBlocks :
    (∃ d, twoBlocks.vmmBlockList[1]? = some d ∧ InBlock 0xC0400000 d ∧ bit d.bitmap 0 = true) ∧
      ¬ FreesExactly 0xC0400000 twoBlocks := by
  refine ⟨⟨takePage 1024 (newBlock fullBlock), rfl, by decide, ?_⟩, ?_⟩
  · simp [takePage, bit_setAt]
  · intro h
    have hin : InBlock 0xC0400000 (takePage 1024 (newBlock fullBlock)) := by decide
    obtain ⟨k, s', hfree, -⟩ := h.1 ⟨_, by simp [twoBlocks], hin⟩
    rw [vmmFreePage_not_inBlock (d := fullBlock) rfl rfl (by decide)] at hfree
    cases hfree

end Aosis.Memory.Vmm
