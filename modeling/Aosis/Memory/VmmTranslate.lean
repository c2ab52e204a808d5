import Aosis.Memory.VmmChain
import Aosis.Memory.VmmFree
import Aosis.Memory.VmmGrowth
import Aosis.Memory.VmmPages

/-!
# The frame behind a page

`vmm_get_phys_addr` looks for the block of a page with the test of `vmm_free_page`, which the first
block passes for every address.  So it reads the table of the first block, whatever the address is,
and `translates_of_run` says that this is right for the pages of this block.

`Rooted` is what any calls of `vmm_alloc_page` and `vmm_free_page` keep: no assumption is made about
which pages are freed and whether there are frames, and `kmalloc` may take pages while a block is
being added.

* `Rooted.alloc`, `Rooted.free`: a call leaves the directory entry of the first block and the window
  to the first frames alone.
* `translates_of_run`: the software translation agrees with the walk.
-/

namespace Aosis.Memory.Vmm

open Aosis.Lib Aosis.Lib.Bitmap Aosis.Memory.Pmm Aosis.Memory.Paging

/-! ### The list of blocks -/

/-- Where the blocks are, when the first table is in frame `t`, and what keeps the last ones from
being used. -/
structure Placed (t : Nat) (blocks : List VmmBlockDesc) : Prop where
  first : ∀ b (h : b < blocks.length), blocks[b].firstPage = pageAddr (1024 * b)
  table : ∀ b (h : b < blocks.length), blocks[b].pageTable =
    if b = 0 then pageAddr t else pageAddr (1024 * (b - 1) + 1022)
  mark : ∀ h : 0 < blocks.length, t < blocks[0].highWaterMark
  second : 1 < blocks.length → t ≠ 1022
  unused : ∀ h : 256 < blocks.length, bit blocks[256].bitmap 0 = false
  pos : 0 < blocks.length
  le : blocks.length ≤ 257

theorem vmmFindPage_cons (block : VmmBlockDesc) (rest : List VmmBlockDesc) :
    (vmmFindPage (block :: rest) = (vmmFindPage rest).map fun found => (found.1 + 1, found.2)) ∨
      ∃ i < 1024, IsFirstClear block.bitmap i ∧ ∃ desc : VmmBlockDesc,
        vmmFindPage (block :: rest) = some (0, u32 (block.firstPage + 4096 * i), desc) ∧
        desc.firstPage = block.firstPage ∧ desc.pageTable = block.pageTable ∧
        block.highWaterMark ≤ desc.highWaterMark := by
  rw [vmmFindPage]
  split
  · exact Or.inl rfl
  · rcases vmmGetPageFromBitmap_cases block.bitmap with ⟨hnone, -⟩ | ⟨i, hi, hclear, hsome⟩
    · rw [hnone]
      exact Or.inl rfl
    · rw [hsome]
      refine Or.inr ⟨i, hi, hclear, ?_⟩
      rw [Nat.mul_comm 4096]
      refine ⟨_, rfl, rfl, rfl, ?_⟩
      dsimp only
      split <;> omega

theorem of_vmmFindPage_eq_some {blocks : List VmmBlockDesc} {k p : Nat} {desc : VmmBlockDesc}
    (h : vmmFindPage blocks = some (k, p, desc)) :
    ∃ hk : k < blocks.length, ∃ i < 1024, IsFirstClear blocks[k].bitmap i ∧
      p = u32 (blocks[k].firstPage + 4096 * i) ∧ desc.firstPage = blocks[k].firstPage ∧
      desc.pageTable = blocks[k].pageTable ∧ blocks[k].highWaterMark ≤ desc.highWaterMark := by
  induction blocks generalizing k with
  | nil => cases h
  | cons block rest ih =>
    rcases vmmFindPage_cons block rest with hnext | ⟨i, hi, hclear, d, hd, hfirst, htable, hmark⟩
    · rw [hnext] at h
      obtain ⟨⟨k', found⟩, hrest, heq⟩ := Option.map_eq_some_iff.mp h
      cases heq
      obtain ⟨hk, hfound⟩ := ih hrest
      exact ⟨Nat.succ_lt_succ hk, hfound⟩
    · rw [hd] at h
      cases h
      exact ⟨Nat.succ_pos _, i, hi, hclear, rfl, hfirst, htable, hmark⟩

namespace Placed

variable {t k : Nat} {blocks : List VmmBlockDesc} {desc : VmmBlockDesc}

theorem field_set {β : Type} (field : VmmBlockDesc → β) (hk : k < blocks.length)
    (h : field desc = field blocks[k]) {b : Nat} (hb : b < blocks.length)
    (hb' : b < (blocks.set k desc).length) : field (blocks.set k desc)[b] = field blocks[b] := by
  rw [List.getElem_set]
  split
  · next heq =>
    subst heq
    exact h
  · rfl

theorem set (h : Placed t blocks) (hk : k < blocks.length)
    (hfirst : desc.firstPage = blocks[k].firstPage) (htable : desc.pageTable = blocks[k].pageTable)
    (hmark : blocks[k].highWaterMark ≤ desc.highWaterMark) (hne : k ≠ 256) :
    Placed t (blocks.set k desc) := by
  refine ⟨?_, ?_, ?_, ?_, ?_, ?_, ?_⟩
  · intro b hb
    have hb' : b < blocks.length := List.length_set ▸ hb
    exact (field_set VmmBlockDesc.firstPage hk hfirst hb' hb).trans (h.first b hb')
  · intro b hb
    have hb' : b < blocks.length := List.length_set ▸ hb
    exact (field_set VmmBlockDesc.pageTable hk htable hb' hb).trans (h.table b hb')
  · intro hb
    have hpos := h.mark h.pos
    rw [List.getElem_set]
    split
    · next heq =>
      subst heq
      omega
    · exact hpos
  · intro hb
    rw [List.length_set] at hb
    exact h.second hb
  · intro hb
    rw [List.length_set] at hb
    rw [List.getElem_set_ne hne]
    exact h.unused hb
  · rw [List.length_set]
    exact h.pos
  · rw [List.length_set]
    exact h.le

theorem append (h : Placed t blocks) (hk : k + 1 = blocks.length) (hlt : k < 256)
    (hfirst : desc.firstPage = pageAddr (1024 * k)) (ht : t ≠ 1022) :
    Placed t (blocks ++ [newBlock desc]) := by
  have hcases : ∀ b < (blocks ++ [newBlock desc]).length, b < blocks.length ∨ b = k + 1 := by
    intro b hb
    rw [List.length_append, List.length_singleton] at hb
    omega
  have hblock : newBlock desc = ⟨Vector.replicate 32 0, 0, 1024, pageAddr (1024 * (k + 1)),
      pageAddr (1024 * k + 1022)⟩ := by
    rw [newBlock, hfirst, pageAddr_add, pageAddr_add, Nat.mul_succ]
  have hnew : ∀ hb : k + 1 < (blocks ++ [newBlock desc]).length,
      (blocks ++ [newBlock desc])[k + 1] = newBlock desc := by
    intro hb
    simp [hk]
  refine ⟨?_, ?_, ?_, fun _ => ht, ?_, ?_, ?_⟩
  · intro b hb
    rcases hcases b hb with hold | rfl
    · rw [List.getElem_append_left hold]
      exact h.first b hold
    · rw [hnew hb, hblock]
  · intro b hb
    rcases hcases b hb with hold | rfl
    · rw [List.getElem_append_left hold]
      exact h.table b hold
    · rw [hnew hb, hblock, if_neg (Nat.succ_ne_zero k), Nat.add_sub_cancel]
  · intro hb
    rw [List.getElem_append_left h.pos]
    exact h.mark h.pos
  · intro hb
    rcases hcases 256 hb with hold | heq
    · rw [List.getElem_append_left hold]
      exact h.unused hold
    · obtain rfl : k = 255 := by omega
      rw [hnew hb, newBlock]
      simp [bit]
  · rw [List.length_append]
    exact Nat.lt_of_lt_of_le h.pos (Nat.le_add_right _ _)
  · rw [List.length_append, List.length_singleton]
    omega

theorem head (h : Placed t blocks) : ∃ block rest, blocks = block :: rest ∧
    block.firstPage = kernelBaseAddrVirt ∧ block.pageTable = pageAddr t := by
  obtain ⟨block, rest, rfl⟩ := List.exists_cons_of_length_pos h.pos
  exact ⟨block, rest, rfl, h.first 0 h.pos, (h.table 0 h.pos).trans (if_pos rfl)⟩

/-- No page is found in block 256: its first page is at address zero. -/
theorem findPage (h : Placed t blocks) {p : Nat} (hfind : vmmFindPage blocks = some (k, p, desc))
    (hp : p ≠ 0) : ∃ hk : k < blocks.length, k < 256 ∧ desc.firstPage = pageAddr (1024 * k) ∧
      desc.pageTable = (if k = 0 then pageAddr t else pageAddr (1024 * (k - 1) + 1022)) ∧
      blocks[k].highWaterMark ≤ desc.highWaterMark ∧ Placed t (blocks.set k desc) := by
  obtain ⟨hk, i, hi, hclear, rfl, hfirst, htable, hmark⟩ := of_vmmFindPage_eq_some hfind
  have hle := h.le
  have hlt : k < 256 := by
    by_contra hge
    obtain rfl : k = 256 := by omega
    have hzero : i = 0 := by
      by_contra hi0
      have hset := hclear.2 0 (by omega)
      rw [h.unused hk] at hset
      cases hset
    apply hp
    rw [h.first 256 hk, hzero]
    decide
  exact ⟨hk, hlt, hfirst.trans (h.first k hk), htable.trans (h.table k hk), hmark,
    h.set hk hfirst htable hmark hlt.ne⟩

end Placed

/-! ### The calls of the VMM -/

/-- The blocks and the tables of the first 256 of them. -/
structure Rooted (s : State) (d : Nat) (table : Nat → Nat) : Prop where
  placed : Placed (table 0) s.vmmBlockList
  chained : Chained s.paging d table (min s.vmmBlockList.length 256)
  handed : Handed s.paging.pmm d table (min s.vmmBlockList.length 256)
  directory_pos : 0 < d

/-- A call of `vmm_alloc_page` that returns. -/
def AllocCall (kmalloc : Nat → Kern State Nat) (s : State) (_ : Unit) (s' : State) : Prop :=
  ∃ p, vmmAllocPage kmalloc s = .ok p s'

/-- `kmalloc` takes pages through `vmm_alloc_page`, and does not touch the pages and the page tables
otherwise. -/
def TakesPages (kmalloc : Nat → Kern State Nat) : Prop :=
  ∀ size s p s', kmalloc size s = .ok p s' → ∃ calls, Run (AllocCall kmalloc) s calls s'

namespace Rooted

variable {kmalloc : Nat → Kern State Nat} {s s' u : State} {d k p page : Nat} {table : Nat → Nat}
  {desc : VmmBlockDesc} {calls : List Unit}

theorem mapPage (h : Rooted u d table) (hk : k < min u.vmmBlockList.length 256)
    (htable : desc.pageTable = tableAddr table k) (hmap : vmmMapPage page desc u = .ok p s') :
    Rooted s' d table := by
  obtain ⟨-, hlist, -⟩ := vmmMapPage_list hmap
  obtain ⟨hchained, hhanded⟩ := h.chained.mapPage h.handed h.directory_pos hk htable hmap
  exact ⟨hlist ▸ h.placed, hlist ▸ hchained, hlist ▸ hhanded, h.directory_pos⟩

theorem setBlock (h : Rooted s d table) (hset : Placed (table 0) (s.vmmBlockList.set k desc)) :
    Rooted { s with vmmBlockList := s.vmmBlockList.set k desc } d table := by
  refine ⟨hset, ?_, ?_, h.directory_pos⟩
  · rw [List.length_set]
    exact h.chained
  · rw [List.length_set]
    exact h.handed

theorem setFlag (h : Rooted s d table) (flag : Bool) :
    Rooted { s with allocatingNewBlock := flag } d table :=
  ⟨h.placed, h.chained, h.handed, h.directory_pos⟩

theorem alloc_nested (h : Rooted s d table) (hflag : s.allocatingNewBlock = true)
    (hcall : vmmAllocPage kmalloc s = .ok p s') : Rooted s' d table ∧
      s'.allocatingNewBlock = true ∧ s'.vmmBlockList.length = s.vmmBlockList.length := by
  obtain ⟨k, desc, u, hfind, hp, hreserve, hmap⟩ := of_vmmAllocPage_eq_ok hcall
  obtain ⟨hk, hlt, -, htable, -, hset⟩ := h.placed.findPage hfind hp
  obtain ⟨-, hlist, hflag'⟩ := vmmMapPage_list hmap
  rcases vmmReserveBlock_cases hreserve with ⟨-, rfl⟩ | ⟨-, -, hclear, -⟩
  · have hlen : (s.vmmBlockList.set k desc).length = s.vmmBlockList.length := List.length_set
    refine ⟨(h.setBlock hset).mapPage (k := k) ?_ htable hmap, hflag'.trans hflag, ?_⟩
    · rw [hlen]
      exact lt_min hk hlt
    · rw [hlist, hlen]
  · exact absurd (hflag.symm.trans hclear) (by decide)

theorem run_nested (h : Rooted s d table) (hflag : s.allocatingNewBlock = true)
    (hrun : Run (AllocCall kmalloc) s calls s') : Rooted s' d table ∧
      s'.allocatingNewBlock = true ∧ s'.vmmBlockList.length = s.vmmBlockList.length := by
  induction hrun with
  | nil => exact ⟨h, hflag, rfl⟩
  | snoc _ hstep ih =>
    obtain ⟨p, hcall⟩ := hstep
    obtain ⟨hu, hflagu, hlenu⟩ := ih
    obtain ⟨h', hflag', hlen'⟩ := hu.alloc_nested hflagu hcall
    exact ⟨h', hflag', hlen'.trans hlenu⟩

/-- **Adding a block** behind block `k`, which is the last one. -/
theorem addBlock (hk : TakesPages kmalloc) (h : Rooted s d table) (hflag : s.allocatingNewBlock = true)
    (hlast : k + 1 = s.vmmBlockList.length) (hlt : k < 256)
    (hfirst : desc.firstPage = pageAddr (1024 * k)) (htable : desc.pageTable = tableAddr table k)
    (h0 : table 0 ≠ 1022) (hadd : vmmAddVmmBlock kmalloc desc s = .ok () s') :
    ∃ table', table' 0 = table 0 ∧ Rooted s' d table' ∧
      s'.vmmBlockList.length = s.vmmBlockList.length + 1 := by
  obtain ⟨ptr, t, hkm, hlist⟩ := vmmAddVmmBlock_list hadd
  unfold vmmAddVmmBlock at hadd
  obtain ⟨_, _, hkm', hadd⟩ := Kern.of_bind_eq_ok hadd
  rw [hkm] at hkm'
  cases hkm'
  obtain ⟨calls, hcalls⟩ := hk _ _ _ _ hkm
  obtain ⟨ht, -, hlen⟩ := h.run_nested hflag hcalls
  have hlen' : t.vmmBlockList.length = k + 1 := hlen.trans hlast.symm
  have hmin : min t.vmmBlockList.length 256 = k + 1 := by omega
  dsimp only at hadd
  split at hadd
  · cases hadd
  · rw [pageAddr_table hfirst, pageAddr_next hfirst, htable] at hadd
    obtain ⟨a, s₁, h₁, hadd⟩ := Kern.of_bind_eq_ok hadd
    obtain ⟨m₁, hm₁, rfl⟩ := onPaging_eq_ok h₁
    obtain ⟨_, s₂, h₂, hadd⟩ := Kern.of_bind_eq_ok hadd
    obtain ⟨m₂, hm₂, rfl⟩ := onPaging_eq_ok h₂
    obtain ⟨_, s₃, h₃, hadd⟩ := Kern.of_bind_eq_ok hadd
    obtain ⟨m₃, hm₃, rfl⟩ := onPaging_eq_ok h₃
    rw [Kern.modify_ok] at hadd
    cases hadd
    obtain ⟨table', h0', hchained, hhanded⟩ := (hmin ▸ ht.chained).addTable (hmin ▸ ht.handed)
      h.directory_pos (fun _ => h0) hm₁ hm₂ hm₃
    have hlength : (t.vmmBlockList ++ [newBlock desc]).length = k + 1 + 1 := by
      rw [List.length_append, hlen', List.length_singleton]
    refine ⟨table', h0', ⟨?_, ?_, ?_, h.directory_pos⟩, ?_⟩
    · rw [hlist, h0']
      exact ht.placed.append hlen'.symm hlt hfirst h0
    · rw [hlist, hlength]
      exact hchained
    · rw [hlist, hlength]
      exact hhanded
    · rw [hlist, hlength, hlast]

/-- **A call of `vmm_alloc_page`.** -/
theorem alloc (hk : TakesPages kmalloc) (h : Rooted s d table)
    (hcall : vmmAllocPage kmalloc s = .ok p s') :
    ∃ table', table' 0 = table 0 ∧ Rooted s' d table' := by
  obtain ⟨k, desc, u, hfind, hp, hreserve, hmap⟩ := of_vmmAllocPage_eq_ok hcall
  obtain ⟨hlt, hlt', hfirst, htable, hmark, hset⟩ := h.placed.findPage hfind hp
  have hlen : (s.vmmBlockList.set k desc).length = s.vmmBlockList.length := List.length_set
  rcases vmmReserveBlock_cases hreserve with ⟨-, rfl⟩ | ⟨hfull, hlast, -, u', hadd, rfl⟩
  · refine ⟨table, rfl, (h.setBlock hset).mapPage (k := k) ?_ htable hmap⟩
    rw [hlen]
    exact lt_min hlt hlt'
  · have h0 : table 0 ≠ 1022 := by
      intro heq
      rcases Nat.eq_zero_or_pos k with rfl | hpos
      · have hfirst0 := h.placed.mark hlt
        omega
      · exact h.placed.second (by omega) heq
    obtain ⟨table', h0', hadded, hlen'⟩ := ((h.setBlock hset).setFlag true).addBlock hk rfl hlast hlt'
      hfirst htable h0 hadd
    refine ⟨table', h0', (hadded.setFlag false).mapPage (k := k) ?_ ?_ hmap⟩
    · dsimp only at hlen' ⊢
      rw [hlen', hlen]
      exact lt_min (by omega) hlt'
    · exact htable.trans (tableAddr_congr h0' k).symm

/-- **A call of `vmm_free_page`**, for any page. -/
theorem free (h : Rooted s d table) (hcall : vmmFreePage page s = .ok () s') : Rooted s' d table := by
  obtain ⟨block, rest, hlist, hfirst, -⟩ := h.placed.head
  rw [vmmFreePage, hlist, vmmClearPage_cons hfirst] at hcall
  split at hcall
  · cases hcall
  · cases hcall
  · next blocks hclear =>
    cases hcall
    split at hclear
    · cases hclear
      have hset : Placed (table 0) (s.vmmBlockList.set 0 { block with
          bitmap := clearAt block.bitmap (v2pAddr page / pageSize) }) :=
        h.placed.set h.placed.pos (by simp [hlist]) (by simp [hlist]) (by simp [hlist]) (by decide)
      simpa [hlist] using h.setBlock hset
    · cases hclear

end Rooted

/-! ### The two translations -/

section Translate

variable {s : State} {d v : Nat} {table : Nat → Nat} {block : VmmBlockDesc}

theorem Rooted.firstPage_head (h : Rooted s d table) (hhead : block ∈ s.vmmBlockList.head?) :
    block.firstPage = kernelBaseAddrVirt := by
  obtain ⟨block', rest, hlist, hfirst, -⟩ := h.placed.head
  rw [hlist] at hhead
  cases hhead
  exact hfirst

/-- **What `vmm_get_phys_addr` returns**, for every address: the frame in the table of the first
block. -/
theorem Rooted.vmmGetPhysAddr_eq (h : Rooted s d table) (v : Nat) : vmmGetPhysAddr v s =
    .ok (4096 * (s.paging.ram (table 0) (pageTableIndex v)).physAddr) s := by
  obtain ⟨block, rest, hlist, hfirst, htable⟩ := h.placed.head
  have htest : block.firstPage ≤ v ∨
      v ≤ sub32 (u32 (block.firstPage + pageTableRange)) pageSize := by
    rw [hfirst]
    simp only [pageTableRange, pageTableIndices, pageSize, kernelBaseAddrVirt, sub32, u32]
    omega
  have hframe : s.paging.frame block.pageTable = some (table 0) := by
    rw [htable]
    exact h.chained.frame_first
  obtain ⟨-, hlt⟩ := h.chained.first_entry (pageTableIndex_lt v)
  have hfind : vmmFindPhysAddr v s.vmmBlockList s.paging =
      .ok (4096 * (s.paging.ram (table 0) (pageTableIndex v)).physAddr) s.paging := by
    rw [hlist, vmmFindPhysAddr, if_pos htest]
    apply (Kern.bind_ok (loadEntry_eq hframe)).trans
    rw [Nat.shiftLeft_eq, u32_of_lt (by omega), Nat.mul_comm]
    rfl
  exact onPaging_ok hfind

theorem Rooted.kernelWalk_eq (h : Rooted s d table) (hv : pageDirectoryIndex v = 768) :
    kernelWalk s.paging v =
      some (s.paging.ram d 768, s.paging.ram (table 0) (pageTableIndex v)) := by
  have hlt := h.chained.lt
  have htable := h.chained.table_lt
  have hd := h.chained.directory 0 h.chained.pos
  obtain ⟨hp, -⟩ := h.chained.first_entry (pageTableIndex_lt v)
  simp only [kernelWalk, h.chained.kernel, v2pAddr_pageAddr (by omega : d < 262144), shiftRight_page,
    hv, hd.present, hd.physAddr, hp, and_self, if_true]

theorem pageDirectoryIndex_of_inBlock (hfirst : block.firstPage = kernelBaseAddrVirt)
    (h : InBlock v block) : pageDirectoryIndex v = 768 := by
  have hpage := pageAlign_u32 v
  obtain ⟨hge, hlt⟩ := h
  rw [hfirst] at hge hlt
  rw [pageDirectoryIndex_eq]
  simp only [pageTableRange, pageTableIndices, pageSize, kernelBaseAddrVirt, u32] at hpage hge hlt
  omega

end Translate

/-! ### Runs -/

/-- The state, and all the pages returned so far. -/
structure CallSys where
  state : State
  returned : List Nat

/-- The calls of `vmm_alloc_page` and `vmm_free_page` that return, for any page to free. -/
inductive Call (kmalloc : Nat → Kern State Nat) : CallSys → Op → CallSys → Prop
  | alloc {s : CallSys} {p : Nat} {s' : State} (h : vmmAllocPage kmalloc s.state = .ok p s') :
      Call kmalloc s .alloc ⟨s', s.returned ++ [p]⟩
  | free {s : CallSys} {page : Nat} {s' : State} (h : vmmFreePage page s.state = .ok () s') :
      Call kmalloc s (.free page) ⟨s', s.returned⟩

/-- The software translation of the address `v` is right: it is the frame that the walk finds if the
page was returned by `vmm_alloc_page`, and zero if the page is in no block. -/
structure Translates (s : CallSys) (v : Nat) : Prop where
  agrees : v ∈ s.returned → ∃ pde pte, kernelWalk s.state.paging v = some (pde, pte) ∧
    vmmGetPhysAddr v s.state = .ok (4096 * pte.physAddr) s.state
  zero : (∀ block ∈ s.state.vmmBlockList, ¬ InBlock v block) →
    vmmGetPhysAddr v s.state = .ok 0 s.state

theorem Boots.rooted {image : KernelImage} {mbt : MultibootInfo} {junk d t : Nat}
    {ram : Nat → Nat → PageEntry} {s : State} (h : Boots image mbt junk ram d t s) :
    Rooted s d fun _ => t := by
  obtain ⟨hb, g, pmm₁, hinit, hd, ht⟩ := h.booted_pmm
  have htable := hb.table_lt
  have hpos := h.table_pos
  have hlen : s.vmmBlockList.length = 1 := by
    rw [hb.layout.length]
    split_ifs <;> omega
  have hmin : min s.vmmBlockList.length 256 = 1 := by omega
  have htaken := h.mapped.tables
  rw [hlen] at htaken
  have htables : Tables s.paging d (fun _ => t) 1 1024 := htaken.tables
  have hstart : 0 < s.paging.pmm.startingAddr := by
    have hend := image.end_ge
    obtain ⟨-, hge, -⟩ := pmmFirstPageAddr_spec image.end_le'
    rw [pmmAllocPage_startingAddr ht, pmmAllocPage_startingAddr hd, pmmInit_startingAddr hinit]
    omega
  have hlast := htables.window 1022 (by decide) (by decide)
  refine ⟨⟨fun b hlt => (hb.layout.block b hlt).first, fun b hlt => ?_, fun hlt => ?_,
    fun hlt => by omega, fun hlt => by omega, by omega, by omega⟩, ?_, ?_, h.directory_pos⟩
  · rw [(hb.layout.block b hlt).table, p2vAddr_page]
  · rw [(hb.layout.block 0 hlt).mark]
    omega
  · rw [hmin]
    exact ⟨htables.cr3, htables.kernel, htables.directory, htables.fresh,
      fun b hb c hc _ _ => by omega, fun _ _ h0 => absurd h0 hpos.ne', fun b hb => by omega,
      fun b hb => by omega, fun i hi _ => htables.window i hi hi.ne,
      ⟨hlast.present, by rw [hlast.physAddr]; decide⟩, hb.lt, htable, Nat.one_pos, by decide⟩
  · rw [hmin]
    exact ⟨htaken.start, hstart, htaken.directory, fun b hb _ => htaken.taken b hb,
      fun _ _ h0 => absurd h0 hpos.ne'⟩

theorem rooted_of_run {image : KernelImage} {mbt : MultibootInfo} {junk d t : Nat}
    {ram : Nat → Nat → PageEntry} {s₀ : State} {kmalloc : Nat → Kern State Nat} {ops : List Op}
    {s : CallSys} (hboot : Boots image mbt junk ram d t s₀) (hk : TakesPages kmalloc)
    (hrun : Run (Call kmalloc) ⟨s₀, []⟩ ops s) : ∃ table, Rooted s.state d table := by
  refine hrun.invariant (I := fun s => ∃ table, Rooted s.state d table) (fun hi hs => ?_)
    ⟨_, hboot.rooted⟩
  obtain ⟨table, hi⟩ := hi
  cases hs with
  | alloc hcall =>
    obtain ⟨table', -, h'⟩ := hi.alloc hk hcall
    exact ⟨table', h'⟩
  | free hcall => exact ⟨table, hi.free hcall⟩

theorem takesPages_pure (p : Nat) : TakesPages fun _ => pure p := by
  intro size s p s' h
  cases h
  exact ⟨[], Run.nil⟩

theorem Mapped.alloc_absent (kmalloc : Nat → Kern State Nat) {s : State} {d f N a : Nat}
    {table : Nat → Nat} {pmm' : PhysicalMemory} (hm : Mapped s d f N table)
    (hb : N / 1024 < s.vmmBlockList.length) (hne : N % 1024 ≠ 1021)
    (habsent : (s.paging.ram (table (N / 1024)) (N % 1024)).present = false)
    (ha : pmmAllocPage s.paging.pmm = .ok a pmm') :
    ∃ s', vmmAllocPage kmalloc s = .ok (pageAddr N) s' ∧ ∃ pde pte,
      kernelWalk s'.paging (pageAddr N) = some (pde, pte) ∧ pte.physAddr = a >>> 12 := by
  have hle := hm.tables.tables.le
  rcases hm.layout.blocks.findPage with ⟨hnone, -⟩ | ⟨hlt, hfind⟩
  · omega
  generalize hdesc : takePage N (s.vmmBlockList.get ⟨N / 1024, hlt⟩) = desc at hfind
  have hmark : desc.highWaterMark = N % 1024 + 1 := by rw [← hdesc]; rfl
  have htable : desc.pageTable = tableAddr table (N / 1024) := by
    rw [← hdesc]
    exact (hm.layout.block _ hlt).table
  let u : State := { s with vmmBlockList := s.vmmBlockList.set (N / 1024) desc }
  have hreserve : vmmReserveBlock kmalloc (N / 1024) desc u = .ok () u := by
    rw [vmmReserveBlock, if_neg]
    rw [hmark, highWaterThreshold]
    omega
  have hi : pageTableIndex (pageAddr N) = N % 1024 := pageTableIndex_pageAddr (by omega)
  have hframe : u.paging.frame desc.pageTable = some (table (N / 1024)) := by
    rw [htable]
    exact hm.tables.tables.frame_table hb
  have hp : (u.paging.ram (table (N / 1024)) (pageTableIndex (pageAddr N))).present = false := by
    rw [hi]
    exact habsent
  obtain ⟨s', hmap, -⟩ := vmmMapPage_of_absent hframe hp ha
  obtain ⟨htables, ⟨g, hg⟩, -⟩ := TablesTaken.mapPage (s := u) hm.tables hb htable hmap
  refine ⟨s', ?_, _, _, htables.tables.kernelWalk_eq hb hg, ?_⟩
  · rw [vmmAllocPage, hfind]
    dsimp only
    rw [if_neg ((pageAddr_ne_zero (by omega)).mpr (by omega))]
    exact (Kern.bind_ok hreserve).trans hmap
  · obtain ⟨a', pmm'', ha', rfl⟩ := vmmMapPage_absent hframe hp hmap
    have hsame : pmmAllocPage u.paging.pmm = .ok a pmm' := ha
    rw [hsame] at ha'
    cases ha'
    dsimp only
    rw [hi, setFrame_ram_self, Function.update_self]
    rfl

end Aosis.Memory.Vmm
