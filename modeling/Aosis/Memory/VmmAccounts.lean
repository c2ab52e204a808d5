import Aosis.Memory.NullFrame
import Aosis.Memory.VmmPages

/-!
# The counters of free pages

`vmm_alloc_page` reads the counter `free_pages` of a block before it looks at the bitmap, and
`vmm_free_page` clears a bit without counting.  `Accounts` says that the counters agree with the
bitmaps, and that therefore no block with a free page is passed over.

* `accounts_of_run`: a run without a free keeps the accounts, as long as the last page of the
  address space is not handed out.
-/

namespace Aosis.Memory.Vmm

open Aosis.Lib Aosis.Lib.Bitmap Aosis.Memory.Pmm Aosis.Memory.Paging

/-- The counters are right, and neither the search nor the panic of `vmm_alloc_page` passes over a
block with a clear bit. -/
structure Accounts (kmalloc : Nat → Kern State Nat) (s : State) : Prop where
  counts : ∀ d ∈ s.vmmBlockList, d.freePages = (clearBits d.bitmap).card
  noSkip : ∀ k page d, vmmFindPage s.vmmBlockList = some (k, page, d) →
    ∀ j (h : j < s.vmmBlockList.length), j < k → clearBits s.vmmBlockList[j].bitmap = ∅
  noPanic : ∀ s', vmmAllocPage kmalloc s = .error (.panic "out of memory\n") s' →
    ∀ d ∈ s.vmmBlockList, clearBits d.bitmap = ∅

/-! ### Where a panic comes from -/

section Panics

open Kern (NeverPanics)

theorem neverPanics_vmmMapPage (page : Nat) (d : VmmBlockDesc) :
    NeverPanics (vmmMapPage page d) := by
  have hpresent : NeverPanics (pagingIsVirtualPagePresent d.pageTable page) :=
    (neverPanics_loadEntry _ _).bind fun _ => Kern.neverPanics_pure _
  apply hpresent.zoom.bind
  intro mapped
  cases mapped with
  | true => exact Kern.neverPanics_pure _
  | false =>
    exact (neverPanics_pagingMapVirtualPage _ _).zoom.bind fun _ => Kern.neverPanics_pure _

variable {room : Nat} {kmalloc : Nat → Kern State Nat} {s s' : State} {d : VmmBlockDesc} {k : Nat}
  {msg : String}

theorem vmmAddVmmBlock_ne_panic (hk : Serves room kmalloc) (hflag : s.allocatingNewBlock = true) :
    vmmAddVmmBlock kmalloc d s ≠ .error (.panic msg) s' := by
  obtain ⟨p, t, hp, hkm, -⟩ := hk sizeofVmmBlockDesc s hflag
  intro h
  unfold vmmAddVmmBlock at h
  rw [Kern.bind_ok hkm, if_neg hp] at h
  have hrest : ∀ a table first desc, NeverPanics (do
      onPaging (pagingAddPageTable a first)
      onPaging (clearPage table)
      modify fun s : State => { s with vmmBlockList := s.vmmBlockList ++ [desc] }) := by
    intro a table first desc
    have hadd : NeverPanics (pagingAddPageTable a first) := fun m msg m' h =>
      neverPanics_storeEntry _ _ _ m msg m' h
    exact hadd.zoom.bind fun _ => (neverPanics_clearPage _).zoom.bind fun _ =>
      Kern.neverPanics_modify _
  exact ((neverPanics_pagingMapVirtualPage _ _).zoom.bind fun a => hrest a _ _ _) t msg s' h

theorem vmmReserveBlock_ne_panic (hk : Serves room kmalloc) :
    vmmReserveBlock kmalloc k d s ≠ .error (.panic msg) s' := by
  intro h
  rw [vmmReserveBlock] at h
  split at h
  · rw [Kern.bind_ok (Kern.modify_ok _ _)] at h
    have h' : EStateM.bind (vmmAddVmmBlock kmalloc d) (fun _ => modify fun s : State =>
        { s with allocatingNewBlock := false }) { s with allocatingNewBlock := true } =
          .error (.panic msg) s' := h
    rw [EStateM.bind] at h'
    split at h'
    · cases h'
    · next e t hadd =>
      cases h'
      exact vmmAddVmmBlock_ne_panic hk rfl hadd
  · cases h

/-- A panic means that the search has found nothing, or the page at address zero. -/
theorem of_vmmAllocPage_eq_panic (hk : Serves room kmalloc)
    (h : vmmAllocPage kmalloc s = .error (.panic msg) s') :
    vmmFindPage s.vmmBlockList = none ∨ ∃ k d, vmmFindPage s.vmmBlockList = some (k, 0, d) := by
  rw [vmmAllocPage] at h
  split at h
  · next hnone => exact Or.inl hnone
  · next k page d hfind =>
    dsimp only at h
    split at h
    · next h0 => exact Or.inr ⟨k, d, h0 ▸ hfind⟩
    · have h' : EStateM.bind (vmmReserveBlock kmalloc k d) (fun _ => vmmMapPage page d)
          { s with vmmBlockList := s.vmmBlockList.set k d } = .error (.panic msg) s' := h
      rw [EStateM.bind] at h'
      split at h'
      · exact absurd h' (neverPanics_vmmMapPage page d _ msg s')
      · next e t hreserve =>
        cases h'
        exact absurd hreserve (vmmReserveBlock_ne_panic hk)

end Panics

/-! ### Clear bits -/

theorem BlockAt.clearBits_eq {T N b : Nat} {d : VmmBlockDesc} (h : BlockAt T N b d) :
    clearBits d.bitmap = Finset.Ico (N - 1024 * b) 1024 := by
  ext i
  rw [mem_clearBits, Finset.mem_Ico, show 32 * 32 = 1024 from rfl, and_comm]
  apply and_congr_left
  intro hi
  rw [h.bits i hi, decide_eq_false_iff_not]
  omega

theorem BlockAt.clearBits_eq_empty {T N b : Nat} {d : VmmBlockDesc} (h : BlockAt T N b d)
    (hb : b < N / 1024) : clearBits d.bitmap = ∅ := by
  rw [h.clearBits_eq, Finset.Ico_eq_empty]
  omega

theorem Layout.accounts {T f N room : Nat} {s : State} {kmalloc : Nat → Kern State Nat}
    (hk : Serves room kmalloc) (hl : Layout T f N s.vmmBlockList) (hN : N < 262144) :
    Accounts kmalloc s where
  counts d hd := by
    obtain ⟨b, hb, rfl⟩ := List.getElem_of_mem hd
    rw [(hl.block b hb).clearBits_eq, (hl.block b hb).free, Nat.card_Ico]
  noSkip k page d hfind j hj hjk := by
    rcases hl.blocks.findPage with ⟨-, hnone⟩ | ⟨hlt, hsome⟩
    · rw [hnone] at hfind
      cases hfind
    · rw [hsome] at hfind
      cases hfind
      exact (hl.block j hj).clearBits_eq_empty hjk
  noPanic s' h d hd := by
    obtain ⟨b, hb, rfl⟩ := List.getElem_of_mem hd
    rcases hl.blocks.findPage with ⟨hlen, -⟩ | ⟨hlt, hsome⟩
    · exact (hl.block b hb).clearBits_eq_empty (by omega)
    · rcases of_vmmAllocPage_eq_panic hk h with hnone | ⟨k, d, hzero⟩
      · rw [hnone] at hsome
        cases hsome
      · -- the page is not the one at address zero
        rw [hsome] at hzero
        have hp : pageAddr N = 0 := congrArg (fun found => found.2.1) (Option.some.inj hzero)
        exact absurd hp ((pageAddr_ne_zero hN.le).mpr hN)

/-! ### Runs -/

/-- The operation is an allocation. -/
def NoFree (_ : Sys) (op : Op) : Prop := op = .alloc

/-- **The accounts of a run without a free**, while the last page of the address space is not
allocated. -/
theorem accounts_of_run {image : KernelImage} {mbt : MultibootInfo} {junk d t : Nat}
    {ram : Nat → Nat → PageEntry} {s₀ : State} {kmalloc : Nat → Kern State Nat} {ops : List Op}
    {s : Sys} (hboot : Boots image mbt junk ram d t s₀) (hk : Serves heapRoom kmalloc)
    (hrun : Run (Within (Step kmalloc) NoFree) ⟨s₀, []⟩ ops s) (hlast : 0xFFFFF000 ∉ s.pages) :
    Accounts kmalloc s.state := by
  have hinv : ∃ n, AllocInv (pageAddr t) (t + 1) n s := by
    refine hrun.invariant (I := fun s => ∃ n, AllocInv (pageAddr t) (t + 1) n s) ?_
      ⟨0, hboot.allocInv⟩
    rintro s op s' ⟨n, hi⟩ ⟨rfl, hs⟩
    exact ⟨n + 1, hi.step hk hs⟩
  obtain ⟨n, hi⟩ := hinv
  obtain ⟨N, hl, -, hN, -, -, -, -, hend⟩ := hi.pages
  refine hl.accounts hk (lt_of_le_of_ne hN fun h => hlast ?_)
  exact hend h

/-- The accounts after one allocation. -/
theorem accounts_smallImage :
    ∃ s : Sys, s.pages = [0xC0183000] ∧ Accounts (fun _ => pure 0xC0160F68) s.state := by
  obtain ⟨s₀, hboot⟩ := exists_boots_smallImage
  have hk : Succeeds fun _ => pure 0xC0160F68 := succeeds_pure (by decide)
  obtain ⟨s₁, halloc, -, -⟩ := hboot.mapped.alloc_first (fun _ => pure 0xC0160F68) (by decide)
    (by decide)
  have hstep := Step.alloc (s := ⟨s₀, []⟩) halloc
  have hlast : 0xFFFFF000 ∉ [0xC0183000] := by decide
  exact ⟨⟨s₁, [0xC0183000]⟩, rfl,
    accounts_of_run hboot (hk.serves _) (Run.single ⟨rfl, hstep⟩) hlast⟩

theorem vmmFreePage_eq {s : State} {d : VmmBlockDesc} {n : Nat} (hlist : s.vmmBlockList = [d])
    (hd : d.firstPage = pageAddr 0) (hn : n < 1024) :
    vmmFreePage (pageAddr n) s = .ok () { s with
      vmmBlockList := [{ d with bitmap := clearAt d.bitmap n }] } := by
  have hpage := pageAddr_eq (n := n) (by omega)
  have halign : pageAlign (pageAddr n) = pageAddr n := by
    rw [pageAlign_eq (by omega)]
    omega
  have hindex : v2pAddr (pageAddr n) / pageSize = n := by
    rw [v2pAddr_pageAddr (by omega), pageSize, Nat.mul_div_cancel_left _ (by decide)]
  have hge : d.firstPage ≤ pageAddr n := by
    rw [hd, pageAddr_eq (by omega), hpage]
    omega
  have hclear : d.bitmap.set (n / 32) (clearBit d.bitmap[n / 32] (n % 32)) = clearAt d.bitmap n := by
    rw [set_clearBit (by omega) (Nat.mod_lt _ (by decide)), Nat.div_add_mod]
  rw [vmmFreePage, hlist]
  simp only [vmmClearPage, halign, hindex, hge, true_or, if_true, dif_pos (by omega : n / 32 < 32),
    hclear]

/-- A page that is freed again is not counted. -/
theorem not_accounts_free :
    ∃ s₀ s, Boots smallImage solidMap 0 (fun _ _ => {}) 385 386 s₀ ∧
      Succeeds (fun _ => pure 0xC0160F68) ∧
      Run (Step fun _ => pure 0xC0160F68) ⟨s₀, []⟩ [.alloc, .free 0xC0183000] s ∧
      ¬ Accounts (fun _ => pure 0xC0160F68) s.state := by
  obtain ⟨s₀, hboot⟩ := exists_boots_smallImage
  have hk : Succeeds fun _ => pure 0xC0160F68 := succeeds_pure (by decide)
  obtain ⟨s₁, halloc, -, hm⟩ := hboot.mapped.alloc_first (fun _ => pure 0xC0160F68) (by decide)
    (by decide)
  obtain ⟨d, hlist⟩ := List.length_eq_one_iff.mp hm.layout.length
  have hblock := hm.layout.block 0 (by rw [hlist]; exact Nat.one_pos)
  simp only [hlist, List.getElem_cons_zero] at hblock
  have hfree := vmmFreePage_eq (n := 387) hlist hblock.first (by decide)
  have hrun : Run (Step fun _ => pure 0xC0160F68) ⟨s₀, []⟩ [.alloc, .free 0xC0183000] _ :=
    (Run.nil.snoc (Step.alloc halloc)).snoc
      (Step.free (s := ⟨s₁, [0xC0183000]⟩) (List.mem_singleton_self _) hfree)
  refine ⟨s₀, _, hboot, hk, hrun, ?_⟩
  intro h
  have hcount := h.counts _ (List.mem_singleton_self _)
  have hset : bit d.bitmap 387 = true := by
    rw [hblock.bits 387 (by decide)]
    decide
  rw [card_clearBits_clearAt (by decide) hset, hblock.clearBits_eq, Nat.card_Ico, hblock.free]
    at hcount
  exact absurd hcount (by decide)

end Aosis.Memory.Vmm
