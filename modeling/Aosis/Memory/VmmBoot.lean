import Aosis.Memory.KmallocSafe
import Aosis.Memory.VmmLayout

/-!
# The state after `vmm_init`

`Boots` is a boot in which the page directory and the initial page table got the frames `d`
and `t`, both below 4 MiB like the kernel.  Afterwards the directory is loaded and maps the
first 4 MiB (`Booted.kernel`), and the pages up to that of the page table are taken
(`Booted.layout`).

* `Boots.booted`: the state that such a boot leads to.
* `exists_boots`: there is one when the allocator gives the two frames.
-/

namespace Aosis.Memory.Vmm

open Aosis.Lib Aosis.Lib.Bitmap Aosis.Memory.Pmm Aosis.Memory.Paging

/-! ### The descriptor from the heap -/

/-- The first block that `kmalloc` gives out is zero, apart from its first word. -/
theorem kmalloc_sizeofVmmBlockDesc {base : Nat} (hb : Kmalloc.FreshPage [] base)
    (vmm_alloc_page : Kern Kmalloc.Heap Nat) :
    ∃ p h, Kmalloc.kmalloc vmm_alloc_page sizeofVmmBlockDesc
        (Kmalloc.kmallocInit base fun _ => 0) = .ok p h ∧
      ∀ i, 0 < i → i < 32 → h.mem (p + 4 * i) = 0 := by
  have hi := Kmalloc.HeapInv.init hb fun _ => 0
  have hround : Kmalloc.kmallocRound sizeofVmmBlockDesc = 152 := rfl
  have hfind : Kmalloc.kmallocFind (Kmalloc.kmallocInit base fun _ => 0) 152 Kmalloc.loopFuel
      (Kmalloc.kmallocInit base fun _ => 0).head = .ok (some base) := by
    rw [hi.find_eq, List.find?_cons_of_pos (by simp)]
    rfl
  have hsize : (Kmalloc.kmallocInit base fun _ => 0).size base = 4096 :=
    hi.tiling.sizes _ List.mem_cons_self
  obtain ⟨p, h, hsplit, hp, hmem⟩ : ∃ p h, Kmalloc.kmallocSplitBlock base 152
      (Kmalloc.kmallocInit base fun _ => 0) = (p, h) ∧ p ≠ 0 ∧
        ∀ i, 0 < i → i < 32 → h.mem (p + 4 * i) = 0 := by
    refine ⟨_, _, Kmalloc.kmallocSplitBlock_eq (b := ⟨base, 4096⟩) (s := 152) (n := base + 3936)
      (hi.tiling.fit _ List.mem_cons_self).le hsize (by decide) ?_ ?_,
      Nat.succ_ne_zero _, fun i h0 h32 => ?_⟩
    · show base + 3936 + (152 + 8) = base + 4096
      omega
    · show base + 16 ≤ base + 3936
      omega
    · dsimp only
      rw [Kmalloc.Heap.cut_mem (by omega) (by omega) (by omega) (by omega)]
      simp only [Kmalloc.Heap.setSize, Kmalloc.Heap.setFreeMemory, Kmalloc.Heap.setNext,
        Kmalloc.kmallocInit, Kmalloc.Heap.store_mem]
      repeat rw [if_neg (by omega)]
  have htake : Kmalloc.kmallocTake base 152 (Kmalloc.kmallocInit base fun _ => 0) = (p, h) := by
    rw [Kmalloc.kmallocTake, hsize, if_pos (by decide), hsplit]
  exact ⟨p, h, Kmalloc.kmalloc_of_take (by decide) hround hfind htake hp, hmem⟩

/-! ### The bitmap of the first block -/

theorem getLsbD_remaining : ∀ r < 32, ∀ j < 32,
    (~~~(0xFFFFFFFF#32 <<< r)).getLsbD j = decide (j < r) := by decide

theorem vmmInit_eq {desc : VmmBlockDesc} {t : Nat} (ht : t < 1023)
    (hstale : ∀ i (h : i < 32), 0 < i → desc.bitmap[i] = 0) (s : State) :
    ∃ d, vmmInit desc (p2vAddr (4096 * t)) s = .ok () { s with vmmBlockList := [d] } ∧
      BlockAt (p2vAddr (4096 * t)) (t + 1) 0 d := by
  have hfirst : u32 (v2pAddr (p2vAddr (4096 * t)) + pageSize) / pageSize = t + 1 := by
    rw [v2pAddr, p2vAddr, kernelBaseAddrVirt, pageSize, u32_of_lt (by omega : 4096 * t + _ < _),
      sub32_of_le (by omega) (by omega), u32_of_lt (by omega)]
    omega
  have hlast : (t + 1) >>> 5 = (t + 1) / 32 := Nat.shiftRight_eq_div_pow _ 5
  have hlt : (t + 1) / 32 < 32 := by omega
  simp only [vmmInit, hfirst, hlast, dif_pos hlt]
  refine ⟨_, rfl, ?_, ?_, ?_, rfl, (if_pos rfl).symm⟩
  · intro i hi
    rw [bit_setWord hlt]
    split
    · next heq =>
      rw [getLsbD_remaining _ (Nat.mod_lt _ (by decide)) _ (Nat.mod_lt _ (by decide)),
        decide_eq_decide]
      omega
    · next hne =>
      rw [show i = 32 * (i / 32) + i % 32 by omega, bit_word (by omega) (by omega)]
      simp only [Vector.getElem_ofFn]
      split
      · next hlow =>
        rw [getLsbD_allOnes _ (Nat.mod_lt _ (by decide)), eq_comm, decide_eq_true_eq]
        omega
      · next hhigh =>
        rw [Fin.getElem_fin, hstale (i / 32) (by omega) (by omega), BitVec.ofNat_eq_ofNat,
          BitVec.getLsbD_zero, eq_comm, decide_eq_false_iff_not]
        omega
  · show sub32 pageTableIndices (t + 1) = _
    rw [pageTableIndices, sub32_of_le (by omega) (by omega)]
    omega
  · show t + 1 = _
    omega

theorem vmmInit_outOfBounds (desc : VmmBlockDesc) (s : State) :
    vmmInit desc (p2vAddr (4096 * 1023)) s = .error .outOfBounds s := by
  have hfirst : u32 (v2pAddr (p2vAddr (4096 * 1023)) + pageSize) / pageSize = 1024 := by decide
  simp only [vmmInit, hfirst]
  exact dif_neg (by decide)

/-! ### The boot -/

/-- A boot that gets through `vmm_init`, in which the page directory and the initial page table
got the frames `d` and `t` from the allocator `pmm` and left the allocator `pmm₂`; they lie below
4 MiB, and so does the kernel. -/
structure Boots (image : KernelImage) (mbt : MultibootInfo) (junk : Nat)
    (ram : Nat → Nat → PageEntry) (d t : Nat) (s : State) : Prop where
  boot_eq : boot image mbt junk ram = .ok s
  frames : ∃ g pmm₁ pmm₂, pmmInit image mbt junk .static = .ok () g ∧
    pmmAllocPage g.pmm = .ok (4096 * d) pmm₁ ∧ pmmAllocPage pmm₁ = .ok (4096 * t) pmm₂
  directory_pos : 0 < d
  table_pos : 0 < t
  kernel_le : image.kernelEndAddrPhys ≤ 0x400000
  directory_lt : d < 1024
  table_lt : t < 1024

/-- The state of the memory managers after `vmm_init`, with the page directory in frame `d` and
the page table in frame `t`. -/
structure Booted (pmm : PhysicalMemory) (d t : Nat) (s : State) : Prop where
  kernel : KernelTable s.paging d t
  pmm : s.paging.pmm = pmm
  directory : s.paging.kernelPageDirectory = p2vAddr (4096 * d)
  layout : Layout (p2vAddr (4096 * t)) (t + 1) (t + 1) s.vmmBlockList
  flag : s.allocatingNewBlock = false
  table_lt : t < 1023
  lt : d < t

theorem freshPage_kmallocInitBlock (image : KernelImage) :
    Kmalloc.FreshPage [] image.kmallocInitBlock := by
  have hge := image.block_ge
  have hle := image.block_le
  have hend := image.end_le
  have hstart := image.start_ge
  unfold kernelBaseAddrVirt at *
  exact ⟨image.block_mod, by omega, by omega, List.not_mem_nil⟩

theorem bootDesc_ok (image : KernelImage) :
    ∃ desc, bootDesc image = .ok desc ∧ ∀ i (h : i < 32), 0 < i → desc.bitmap[i] = 0 := by
  obtain ⟨p, h, hkmalloc, hmem⟩ := kmalloc_sizeofVmmBlockDesc (freshPage_kmallocInitBlock image)
    fun h => .error (.panic "out of memory\n") h
  refine ⟨VmmBlockDesc.load h.mem p, ?_, ?_⟩
  · rw [bootDesc, Kern.exec_ok hkmalloc, Kern.ok_bind]
    rfl
  · intro i hi h0
    simp only [VmmBlockDesc.load, Vector.getElem_ofFn, hmem i h0 hi]
    rfl

theorem pmmInit_startingAddr {image : KernelImage} {mbt : MultibootInfo} {junk : Nat} {s g : Globals}
    (h : pmmInit image mbt junk s = .ok () g) :
    g.pmm.startingAddr = pmmFirstPageAddr image.kernelEndAddrPhys := by
  rw [pmmInit] at h
  split at h
  · cases h
  · simp only [pmmInitUserTask] at h
    split at h
    · cases h
      rfl
    · cases h

/-- The frames of the page directory and the page table lie above the kernel, in this order. -/
theorem frames_above {image : KernelImage} {pmm pmm₁ pmm₂ : PhysicalMemory} {d t : Nat}
    (hstart : pmm.startingAddr = pmmFirstPageAddr image.kernelEndAddrPhys)
    (hkernel : image.kernelEndAddrPhys ≤ 0x400000) (hd0 : 0 < d) (ht0 : 0 < t)
    (hd : pmmAllocPage pmm = .ok (4096 * d) pmm₁) (ht : pmmAllocPage pmm₁ = .ok (4096 * t) pmm₂) :
    image.kernelEndAddrPhys ≤ 4096 * d ∧ d < t := by
  obtain ⟨hmod, hge, hlt⟩ := pmmFirstPageAddr_spec image.end_le'
  rcases pmmAllocPage_cases hd with ⟨h0, -, -⟩ | ⟨k, -, hk, hfirst, haddr, rfl⟩
  · omega
  rcases pmmAllocPage_cases ht with ⟨h0, -, -⟩ | ⟨k', -, hk', hfirst', haddr', -⟩
  · omega
  have hkk := lt_of_firstClear hfirst hk hfirst'
  dsimp only at haddr'
  rw [hstart, u32_of_lt (by omega)] at haddr haddr'
  exact ⟨by omega, by omega⟩

theorem boot_eq {image : KernelImage} {mbt : MultibootInfo} {junk v : Nat}
    {ram : Nat → Nat → PageEntry} {g : Globals} {p : Paging.Mem} {desc : VmmBlockDesc}
    (hinit : pmmInit image mbt junk .static = .ok () g)
    (hpage : pagingInit image (Paging.Mem.atEntry image g.pmm ram) = .ok v p)
    (hdesc : bootDesc image = .ok desc) :
    boot image mbt junk ram = (vmmInit desc v).exec ⟨p, [], false⟩ >>= fun r => .ok r.2 := by
  unfold boot
  -- the calls are not to be evaluated
  generalize bootDesc image = boot_desc at *
  generalize pagingInit image = paging_init at *
  generalize pmmInit image mbt junk = pmm_init at *
  generalize vmmInit = vmm_init
  subst hdesc
  rw [Kern.exec_ok hinit, Kern.ok_bind]
  dsimp only
  rw [Kern.exec_ok hpage, Kern.ok_bind]
  dsimp only
  rw [Kern.ok_bind]
  rfl

/-- **How a boot goes.**  When the allocator gives the frames `d` and `t` below 4 MiB, it ends
in the booted state, or outside the bitmap of the first block when `t` is the last of them. -/
theorem boot_cases {image : KernelImage} {mbt : MultibootInfo} {junk : Nat}
    (ram : Nat → Nat → PageEntry) {d t : Nat} {g : Globals} {pmm₁ pmm₂ : PhysicalMemory}
    (hinit : pmmInit image mbt junk .static = .ok () g)
    (hd : pmmAllocPage g.pmm = .ok (4096 * d) pmm₁) (ht : pmmAllocPage pmm₁ = .ok (4096 * t) pmm₂)
    (hd0 : 0 < d) (ht0 : 0 < t) (hkernel : image.kernelEndAddrPhys ≤ 0x400000) (hdlt : d < 1024)
    (htlt : t < 1024) :
    (t = 1023 ∧ boot image mbt junk ram = .error .outOfBounds) ∨
      ∃ s, boot image mbt junk ram = .ok s ∧ Booted pmm₂ d t s := by
  obtain ⟨hdk, hdt⟩ := frames_above (pmmInit_startingAddr hinit) hkernel hd0 ht0 hd ht
  have hend := image.end_gt
  have htd := image.tempDirectory_lt
  have htt := image.tempTable_lt
  rw [kernelBaseAddrVirt] at hend
  obtain ⟨p, hpage, hkernel, hpmm, hdir⟩ := pagingInit_eq image ram hd ht hdlt
    htlt hdt.ne (fun x hx => ⟨by omega, by omega⟩) (by omega)
  obtain ⟨desc, hdesc, hstale⟩ := bootDesc_ok image
  rw [boot_eq hinit hpage hdesc]
  by_cases hlast : t = 1023
  · left
    subst hlast
    exact ⟨rfl, by rw [Kern.exec_error (vmmInit_outOfBounds desc _)]; rfl⟩
  · right
    obtain ⟨block, hvmm, hblock⟩ := vmmInit_eq (by omega : t < 1023) hstale ⟨p, [], false⟩
    rw [Kern.exec_ok hvmm, Kern.ok_bind]
    refine ⟨_, rfl, hkernel, hpmm, hdir, ⟨?_, ?_⟩, rfl, by omega, hdt⟩
    · intro b hb
      obtain rfl : b = 0 := Nat.lt_one_iff.mp hb
      exact hblock
    · show 1 = _
      split_ifs <;> omega

theorem Boots.booted_pmm {image : KernelImage} {mbt : MultibootInfo} {junk : Nat}
    {ram : Nat → Nat → PageEntry} {d t : Nat} {s : State} (h : Boots image mbt junk ram d t s) :
    Booted s.paging.pmm d t s ∧ ∃ g pmm₁, pmmInit image mbt junk .static = .ok () g ∧
      pmmAllocPage g.pmm = .ok (4096 * d) pmm₁ ∧
      pmmAllocPage pmm₁ = .ok (4096 * t) s.paging.pmm := by
  obtain ⟨g, pmm₁, pmm₂, hinit, hd, ht⟩ := h.frames
  have hboot := h.boot_eq
  rcases boot_cases ram hinit hd ht h.directory_pos h.table_pos h.kernel_le h.directory_lt
    h.table_lt with ⟨-, herr⟩ | ⟨s', hs', hb⟩
  · rw [herr] at hboot
    cases hboot
  · rw [hs'] at hboot
    cases hboot
    rw [hb.pmm]
    exact ⟨hb, g, pmm₁, hinit, hd, ht⟩

/-- **The state after `vmm_init`.** -/
theorem Boots.booted {image : KernelImage} {mbt : MultibootInfo} {junk : Nat}
    {ram : Nat → Nat → PageEntry} {d t : Nat} {s : State} (h : Boots image mbt junk ram d t s) :
    Booted s.paging.pmm d t s := h.booted_pmm.1

theorem exists_boots {image : KernelImage} {mbt : MultibootInfo} {junk : Nat}
    (ram : Nat → Nat → PageEntry) {d t : Nat} {g : Globals} {pmm₁ pmm₂ : PhysicalMemory}
    (hinit : pmmInit image mbt junk .static = .ok () g)
    (hd : pmmAllocPage g.pmm = .ok (4096 * d) pmm₁) (ht : pmmAllocPage pmm₁ = .ok (4096 * t) pmm₂)
    (hd0 : 0 < d) (ht0 : 0 < t) (hkernel : image.kernelEndAddrPhys ≤ 0x400000) (hdlt : d < 1024)
    (htlt : t < 1023) : ∃ s, Boots image mbt junk ram d t s ∧ s.paging.pmm = pmm₂ := by
  rcases boot_cases ram hinit hd ht hd0 ht0 hkernel hdlt (by omega) with ⟨rfl, -⟩ | ⟨s, hs, hb⟩
  · exact absurd htlt (Nat.lt_irrefl _)
  · exact ⟨s, ⟨hs, ⟨g, pmm₁, pmm₂, hinit, hd, ht⟩, hd0, ht0, hkernel, hdlt, by omega⟩, hb.pmm⟩

/-- The small kernel, with the module in the first page of the pool. -/
theorem exists_boots_smallImage : ∃ s, Boots smallImage solidMap 0 (fun _ _ => {}) 385 386 s := by
  obtain ⟨s, hs, -⟩ : ∃ s, Boots smallImage solidMap 0 (fun _ _ => {}) 385 386 s ∧
      s.paging.pmm = _ := exists_boots (fun _ _ => {}) rfl rfl rfl (by decide) (by decide) (by decide)
        (by decide) (by decide)
  exact ⟨s, hs⟩

end Aosis.Memory.Vmm
