import Aosis.Memory.AllocatorsRun

/-!
# The heap grows onto page 1021

When the heap takes page 1021 of the first block of pages, `vmm_alloc_page` wants a descriptor for the
next block, and asks the heap that is just growing because it has no room.  What the heap does with the
descriptor and the page is over when the frame of the new table is cleared.

* `kmalloc_returns_iff`: such a call returns exactly if a free block has room for the descriptor, so a
  request that is no larger than the descriptor ends in a page fault.
-/

namespace Aosis.Memory.Allocators

open Aosis.Lib Aosis.Lib.Extent Aosis.Memory.Paging
open Aosis.Memory.Vmm (pageAddr)

/-- The next page that the VMM hands out is page 1021 of its last block, in the runs the only one. -/
def NearlyFull (s : State) : Prop :=
  ∃ d, s.vmm.vmmBlockList.getLast? = some d ∧ d.highWaterMark = 1021

/-- The bytes that a descriptor takes, without its header. -/
def descRound : Nat := Kmalloc.kmallocRound Vmm.sizeofVmmBlockDesc

/-- What `vmm_alloc_page` needs of `kmalloc` is one call, for a descriptor. -/
theorem vmmAllocPage_congr {k k' : Nat → Kern Vmm.State Nat}
    (h : k Vmm.sizeofVmmBlockDesc = k' Vmm.sizeofVmmBlockDesc) :
    Vmm.vmmAllocPage k = Vmm.vmmAllocPage k' := by
  have hadd : Vmm.vmmAddVmmBlock k = Vmm.vmmAddVmmBlock k' := by
    funext d
    rw [Vmm.vmmAddVmmBlock, Vmm.vmmAddVmmBlock, h]
  have hreserve : Vmm.vmmReserveBlock k = Vmm.vmmReserveBlock k' := by
    funext j d vmm
    rw [Vmm.vmmReserveBlock, Vmm.vmmReserveBlock, hadd]
  funext vmm
  rw [Vmm.vmmAllocPage, Vmm.vmmAllocPage, hreserve]

section Growth

variable {d t base size page a : Nat} {s : Sys} {u : State} {hs : Kmalloc.Sys} {vs : Vmm.WalkSys}
  {pmm : Pmm.PhysicalMemory}

theorem Inv.mapped_nearlyFull (hi : Inv d t base s hs vs) (hfull : NearlyFull s.state) :
    Vmm.Mapped s.state.vmm d (t + 1) 1021 fun _ => t := by
  obtain ⟨N, hN, hm, -⟩ := hi.vmm.mapped
  have hone := hi.vmm.one
  rw [hi.refines.vmm] at hm hone
  obtain ⟨desc, hlast, hmark⟩ := hfull
  rw [List.getLast?_eq_getElem?, List.getElem?_eq_getElem (by omega)] at hlast
  rw [← Option.some.inj hlast, (hm.layout.block _ (by omega)).mark] at hmark
  obtain rfl : N = 1021 := by omega
  exact hm

theorem Inv.room_of_alloc (hi : Inv d t base s hs vs) (hfull : NearlyFull s.state)
    (h : vmmAllocPage s.state = .ok page u) : ¬ NoRoom s.state.heap descRound := by
  have hm := hi.mapped_nearlyFull hfull
  have hle := hm.le
  obtain ⟨q, hq, hcall, hheap⟩ := vmmAllocPage_cases h
  -- the block list has to grow
  obtain ⟨-, -, -, -, M, hlayout, hM⟩ := hm.layout.alloc ((Vmm.succeeds_pure hq).serves 2) hm.le hm.flag
    hcall
  have hlen := hm.layout.length
  have hlen' := hlayout.length
  rw [if_pos hle] at hlen hlen'
  rcases hheap with ⟨-, hsame⟩ | ⟨-, hkmalloc⟩
  · omega
  · intro hnone
    obtain ⟨free, hinv⟩ := hi.heapInv
    have hnull := hinv.kmalloc_of_no_room 0 (by decide : Vmm.sizeofVmmBlockDesc ≠ 0) hnone
    rw [hkmalloc] at hnull
    exact hq (EStateM.Result.ok.inj hnull).1

theorem Inv.alloc_of_room (hi : Inv d t base s hs vs) (hfull : NearlyFull s.state)
    (ha : Pmm.pmmAllocPage s.state.vmm.paging.pmm = .ok a pmm) (ha0 : a ≠ 0)
    (hcuts : Cuts s.state.heap Vmm.sizeofVmmBlockDesc) (hroom : ¬ NoRoom s.state.heap descRound) :
    ∃ page u, vmmAllocPage s.state = .ok page u := by
  obtain ⟨free, hinv⟩ := hi.heapInv
  rcases kmalloc_of_cuts hinv hcuts (by decide) with hno | ⟨-, -, -, h₁, q, -, hq, hk, -⟩
  · exact absurd hno hroom
  obtain ⟨vmm', -, hcall, -⟩ := (hi.mapped_nearlyFull hfull).alloc_grow (Vmm.succeeds_pure hq) ha ha0
  have hdesc : vmmPart s.state.heap (kmalloc Vmm.sizeofVmmBlockDesc) = pure q := by
    funext vmm
    rw [vmmPart, kmalloc_ok (s := ⟨vmm, s.state.heap⟩) (hk (pure 0)) hq]
    rfl
  have hpart : vmmPart s.state.heap vmmAllocPage s.state.vmm = .ok (pageAddr 1021) vmm' := by
    rw [vmmAllocPage_vmm]
    exact (congrFun (vmmAllocPage_congr hdesc) _).trans hcall
  obtain ⟨heap', hok⟩ := of_vmmPart_eq_ok hpart
  exact ⟨_, _, hok⟩

end Growth

section Runs

variable {image : KernelImage} {mbt : Pmm.MultibootInfo} {junk d t size a : Nat}
  {ram : Nat → Nat → PageEntry} {s₀ : State} {s : Sys} {ops : List Op} {pmm : Pmm.PhysicalMemory}

/-- **When the heap can grow onto page 1021.**  If there is a frame for the table of the next block, a
request for which no free block has room returns, with null, exactly if one has room for a descriptor;
so a request that is rounded to 152 bytes or less does not. -/
theorem kmalloc_returns_iff (h : Boots image mbt junk ram d t s₀) (hrun : Run Step ⟨s₀, [], []⟩ ops s)
    (hfull : NearlyFull s.state) (ha : Pmm.pmmAllocPage s.state.vmm.paging.pmm = .ok a pmm) (ha0 : a ≠ 0)
    (hcuts : Cuts s.state.heap Vmm.sizeofVmmBlockDesc) (h0 : size ≠ 0) (hle : size ≤ 2 ^ 32 - 8)
    (hnone : NoRoom s.state.heap (Kmalloc.kmallocRound size)) :
    ((∃ s', kmalloc size s.state = .ok 0 s') ↔ ¬ NoRoom s.state.heap descRound) ∧
      (∀ p s', kmalloc size s.state = .ok p s' → p = 0 ∧ 152 < size) := by
  obtain ⟨_, hs, _, vs, -, -, hi⟩ := inv_of_run h hrun
  obtain ⟨free, hheap⟩ := hi.heapInv
  -- a call that returns has taken page 1021
  have hreturns : ∀ p s', kmalloc size s.state = .ok p s' → p = 0 ∧ ¬ NoRoom s.state.heap descRound := by
    intro p s' hk
    rcases kmalloc_cases hk with ⟨hz, -⟩ | ⟨-, hp, -, hheap'⟩ | ⟨-, hp, found, page, u, hfind, hr, hv, -⟩
    · exact absurd hz h0
    · have hnull := hheap.kmalloc_of_no_room 0 h0 hnone
      rw [hheap'] at hnull
      exact absurd (EStateM.Result.ok.inj hnull).1 hp
    · obtain ⟨rfl, -⟩ := hi.noRoom h0 (cuts_of_noRoom hle hnone) hfind hr
      exact ⟨hp, hi.room_of_alloc hfull hv⟩
  refine ⟨⟨fun ⟨s', hk⟩ => (hreturns 0 s' hk).2, fun hroom => ?_⟩, fun p s' hk => ?_⟩
  · obtain ⟨page, u, hv⟩ := hi.alloc_of_room hfull ha ha0 hcuts hroom
    rcases hheap.firstFit_cases (Kmalloc.kmallocRound size) with
      ⟨hfind, -⟩ | ⟨f₁, b, f₂, -, -, -, hfirst⟩
    · refine ⟨⟨u.vmm, Kmalloc.kmallocGrow page u.heap⟩, ?_⟩
      have hv' : vmmAllocPage ⟨s.state.vmm, s.state.heap⟩ = .ok page u := hv
      rw [solves.1, kmallocWith_found h0 hfind]
      dsimp only [kmallocPick]
      rw [if_pos rfl, hv']
    · exact absurd hfirst.2.1 (hnone b.start hfirst.onList)
  · obtain ⟨hp, hroom⟩ := hreturns p s' hk
    refine ⟨hp, ?_⟩
    by_contra hsmall
    -- a block with room for the descriptor has room for the request
    refine hroom fun x hx hfits => hnone x hx ?_
    have hround := Kmalloc.kmallocRound_eq hle
    have hdesc : descRound = 152 := rfl
    rw [Kmalloc.HasRoom] at hfits ⊢
    omega

end Runs

/-- The high kernel, whose first free page is page 1021: after a request for 3896 bytes 32 are left in
the heap, and a request for 100 bytes does not return. -/
theorem returns_iff_highImage : ∃ s : Sys, NearlyFull s.state ∧ s.live.map Kmalloc.Live.size = [3896] ∧
    ((∃ s', kmalloc 100 s.state = .ok 0 s') ↔ ¬ NoRoom s.state.heap descRound) ∧
      (∀ p s', kmalloc 100 s.state = .ok p s' → p = 0 ∧ 152 < 100) := by
  obtain ⟨vmm, hvmm, hpmm⟩ : ∃ s, Vmm.Boots Vmm.highImage Vmm.highMap 0 (fun _ _ => {}) 1019 1020 s ∧
      s.paging.pmm = _ := Vmm.exists_boots (fun _ _ => {}) rfl rfl rfl (by decide) (by decide)
        (by decide) (by decide) (by decide)
  obtain ⟨heap, hb⟩ := exists_boots hvmm
  have hround : Kmalloc.kmallocRound 3896 = 3896 := rfl
  obtain ⟨p, heap₁, used, hstep, hf⟩ := hb.step_kmalloc (by decide) (by decide) hround (by decide)
    (by decide) (by decide)
  have hlen : vmm.vmmBlockList.length = 1 := hvmm.mapped.layout.length
  have hfull : NearlyFull ⟨vmm, heap₁⟩ := by
    obtain ⟨desc, hdesc⟩ := List.length_eq_one_iff.mp hlen
    have hblock := hvmm.mapped.layout.block 0 (by omega)
    simp only [hdesc, List.getElem_cons_zero] at hblock
    exact ⟨desc, by rw [hdesc]; rfl, hblock.mark⟩
  obtain ⟨pmm, ha⟩ : ∃ pmm, Pmm.pmmAllocPage vmm.paging.pmm = .ok 0x3FD000 pmm := by
    rw [hpmm]
    exact ⟨_, rfl⟩
  -- the only free block has 32 bytes
  have hnone : ∀ m, 32 ≤ m → NoRoom heap₁ m := by
    intro m hm x hx hroom
    obtain ⟨c, hc, rfl⟩ := hf.inv.mem_of_onList hx
    rw [Kmalloc.HasRoom, hf.inv.tiling.sizes c (List.mem_append_left _ hc),
      List.mem_singleton.mp hc, Kmalloc.blockHeaderSize] at hroom
    dsimp only at hroom
    omega
  have hcuts : Cuts heap₁ Vmm.sizeofVmmBlockDesc :=
    cuts_of_noRoom (by decide) (hnone _ (by decide))
  exact ⟨⟨⟨vmm, heap₁⟩, [⟨p, 3896⟩], []⟩, hfull, rfl,
    kmalloc_returns_iff hb (.single hstep) hfull ha (by decide) hcuts (by decide)
      (by decide) (hnone _ (by decide))⟩

end Aosis.Memory.Allocators
