import Aosis.Memory.VmmMapped

/-!
# The VMM grows in time

`vmm_alloc_page` adds a block when page 1021 of the last one is taken, and puts the table of the new
block behind its page 1022.  So every call up to the end of the address space finds a page, as long
as the frame allocator has the frames that the calls take (`Supplies`).

The last block but one is added at page 262141: its range starts at address zero, so `Tables` counts
it no longer, and `Grown` says what is left of it.

* `Grown.alloc`: one call.
* `grows_of_boots`: the calls after a boot return the pages one after the other, and a block is
  followed by another one before its last two pages are taken.
-/

namespace Aosis.Memory.Vmm

open Aosis.Lib Aosis.Lib.Bitmap Aosis.Memory.Pmm Aosis.Memory.Paging

/-! ### Frames -/

/-- The next `n` calls of `pmm_alloc_page` return a frame. -/
inductive Supplies : Nat → PhysicalMemory → Prop
  | zero {pmm : PhysicalMemory} : Supplies 0 pmm
  | succ {n a : Nat} {pmm pmm' : PhysicalMemory} (h0 : a ≠ 0) (h : pmmAllocPage pmm = .ok a pmm')
      (hrest : Supplies n pmm') : Supplies (n + 1) pmm

theorem Supplies.of_add {pmm : PhysicalMemory} {m : Nat} : ∀ {n : Nat},
    Supplies (n + m) pmm → Supplies n pmm := by
  intro n
  induction n generalizing pmm with
  | zero => intro _; exact .zero
  | succ n ih =>
    intro h
    rw [Nat.add_right_comm] at h
    cases h with
    | succ h0 ha hrest => exact .succ h0 ha (ih hrest)

/-- The frames that the call for page `N` takes: one for the table of a new block, and one for the
page, unless it lies in the first 4 MiB or has the table of a block behind it. -/
def framesFor (N : Nat) : Nat :=
  (if N % 1024 = 1021 then 1 else 0) + if N < 1024 ∨ N % 1024 = 1022 then 0 else 1

/-- The frames that `k` calls from page `f` on take. -/
def framesOf (f : Nat) : Nat → Nat
  | 0 => 0
  | k + 1 => framesOf f k + framesFor (f + k)

theorem Supplies.of_framesOf {pmm : PhysicalMemory} {f j k : Nat} (hj : j ≤ k)
    (h : Supplies (framesOf f k) pmm) : Supplies (framesOf f j) pmm := by
  induction hj with
  | refl => exact h
  | step _ ih => exact ih h.of_add

/-! ### The parts of a call -/

section Calls

variable {kmalloc : Nat → Kern State Nat} {s s' : State} {d f n N L r a : Nat} {table : Nat → Nat}
  {desc : VmmBlockDesc} {pmm' : PhysicalMemory}

theorem vmmMapPage_of_absent {page g : Nat} (hf : s.paging.frame desc.pageTable = some g)
    (hp : (s.paging.ram g (pageTableIndex page)).present = false)
    (ha : pmmAllocPage s.paging.pmm = .ok a pmm') :
    ∃ s', vmmMapPage page desc s = .ok page s' ∧ s'.paging.pmm = pmm' := by
  have hpresent := pagingIsVirtualPagePresent_eq page hf
  rw [hp] at hpresent
  have hbind : vmmMapPage page desc s =
      (onPaging (pagingMapVirtualPage desc.pageTable page) >>= fun _ => pure page) s :=
    Kern.bind_ok (onPaging_ok hpresent)
  have hmap := onPaging_ok (pagingMapVirtualPage_eq (v := page) hf ha)
  exact ⟨_, hbind.trans (Kern.bind_ok hmap), rfl⟩

/-- **Mapping page `n`** takes a frame at most, and none if the page is mapped. -/
theorem TablesTaken.mapPage_ok (ht : TablesTaken s.paging d table L) (hn : n / 1024 < L)
    (htable : desc.pageTable = tableAddr table (n / 1024)) {need : Nat}
    (hneed : need = 0 → (s.paging.ram (table (n / 1024)) (n % 1024)).present = true)
    (hsup : Supplies (r + need) s.paging.pmm) :
    ∃ s', vmmMapPage (pageAddr n) desc s = .ok (pageAddr n) s' ∧ Supplies r s'.paging.pmm := by
  obtain ⟨hf, hi⟩ := ht.frame_desc hn htable
  cases hp : (s.paging.ram (table (n / 1024)) (n % 1024)).present with
  | true => exact ⟨s, vmmMapPage_present hf (by rw [hi]; exact hp), hsup.of_add⟩
  | false =>
    cases need with
    | zero =>
      have hpresent := hneed rfl
      rw [hp] at hpresent
      cases hpresent
    | succ need =>
      have hsup' : Supplies (r + 1) s.paging.pmm := by
        rw [Nat.add_comm need 1, ← Nat.add_assoc] at hsup
        exact hsup.of_add
      cases hsup' with
      | succ _ ha hrest =>
        obtain ⟨s', hmap, hpmm⟩ := vmmMapPage_of_absent hf (by rw [hi]; exact hp) ha
        exact ⟨s', hmap, hpmm ▸ hrest⟩

/-- **Adding block 256**, whose range starts at address zero: the tables of the others stay. -/
theorem TablesTaken.addLast (hk : Succeeds kmalloc) (ht : TablesTaken s.paging d table 256)
    (htable : desc.pageTable = tableAddr table 255) (hfirst : desc.firstPage = pageAddr (1024 * 255))
    (ha : pmmAllocPage s.paging.pmm = .ok a pmm') (h0 : a ≠ 0) :
    ∃ s', vmmAddVmmBlock kmalloc desc s = .ok () s' ∧ s'.paging.pmm = pmm' ∧
      s'.vmmBlockList = s.vmmBlockList ++ [newBlock desc] ∧ TablesTaken s'.paging d table 256 ∧
      (s'.paging.ram (table 255) 1022).present = true := by
  obtain ⟨hstart, hmono, hfresh⟩ := pmmAllocPage_taken ht.start ha
  obtain ⟨hnew, -⟩ := hfresh h0
  have hholed : Tables s.paging d table 256 1022 := ht.tables
  obtain ⟨s', hcall, hpmm, hlist, hlinked, -⟩ := vmmAddVmmBlock_linked hk hholed htable hfirst ha
    (fun heq => hnew (heq ▸ ht.directory)) (fun b hb heq => hnew (heq ▸ ht.taken b hb))
  refine ⟨s', hcall, hpmm, hlist, ⟨hlinked.tables, fun b hb i hi hpi => ?_, hpmm ▸ hstart,
    hpmm ▸ hmono _ ht.directory, fun b hb => hpmm ▸ hmono _ (ht.taken b hb), ht.lt⟩,
    hlinked.link.present⟩
  by_cases hlink : b + 1 = 256 ∧ i = 1022
  · obtain ⟨hb', rfl⟩ := hlink
    obtain rfl : b = 255 := by omega
    exact hlinked.link.rW
  · rw [hlinked.kept b hb i fun hb' hi' => hlink ⟨hb', hi'⟩] at hpi ⊢
    exact ht.writable b hb i hi hpi

end Calls

/-! ### The invariant -/

/-- The blocks and the tables of the first 256 of them, when the pages from `f` to before `N` were
handed out. -/
structure Grown (s : State) (d f N : Nat) (table : Nat → Nat) : Prop where
  layout : Layout (tableAddr table 0) f N s.vmmBlockList
  flag : s.allocatingNewBlock = false
  tables : TablesTaken s.paging d table (min s.vmmBlockList.length 256)
  last : 262142 ≤ N → (s.paging.ram (table 255) 1022).present = true
  first : f = table 0 + 1
  le : f ≤ N
  small : f ≤ 1021

namespace Grown

variable {kmalloc : Nat → Kern State Nat} {s s' : State} {d f N r : Nat} {table : Nat → Nat}

theorem length (h : Grown s d f N table) : s.vmmBlockList.length = (N + 2) / 1024 + 1 := by
  rw [h.layout.length, if_pos h.small]

theorem addBlock (hk : Succeeds kmalloc) (h : Grown s d f N table) (hN : N < 262144)
    (hmod : N % 1024 = 1021) (blocks : List VmmBlockDesc) {desc : VmmBlockDesc}
    (htable : desc.pageTable = tableAddr table (N / 1024))
    (hfirst : desc.firstPage = pageAddr (1024 * (N / 1024)))
    (hsup : Supplies (r + 1) s.paging.pmm) :
    ∃ u table', vmmAddVmmBlock kmalloc desc { s with
        vmmBlockList := blocks
        allocatingNewBlock := true } = .ok () u ∧ Supplies r u.paging.pmm ∧
      TablesTaken u.paging d table' (min ((N + 3) / 1024 + 1) 256) ∧ table' 0 = table 0 ∧
      (262141 ≤ N → (u.paging.ram (table' 255) 1022).present = true) := by
  have hlen := h.length
  have htables := h.tables
  rcases hsup with _ | ⟨ha0, ha, hrest⟩
  by_cases hlast : N = 262141
  · subst hlast
    have hmin : min s.vmmBlockList.length 256 = 256 := by omega
    rw [hmin] at htables
    obtain ⟨u, hu, hpmm, -, ht, hpresent⟩ := TablesTaken.addLast (s := { s with
      vmmBlockList := blocks
      allocatingNewBlock := true }) hk htables htable hfirst ha ha0
    exact ⟨u, table, hu, hpmm ▸ hrest, ht, rfl, fun _ => hpresent⟩
  · have hmin : min s.vmmBlockList.length 256 = N / 1024 + 1 := by omega
    have hnext : min ((N + 3) / 1024 + 1) 256 = N / 1024 + 1 + 1 := by omega
    have hf := h.first
    have hsmall := h.small
    rw [hmin] at htables
    obtain ⟨u, table', hu, hpmm, -, ht, hold, -⟩ := TablesTaken.addBlock (s := { s with
      vmmBlockList := blocks
      allocatingNewBlock := true }) hk htables (by omega) (fun _ => by omega) htable hfirst ha ha0
    exact ⟨u, table', hu, hpmm ▸ hrest, hnext ▸ ht, hold 0 (Nat.succ_pos _), fun hge => by omega⟩

/-- **The block is reserved**, and the page is mapped now if no frame is meant for it. -/
theorem reserve (hk : Succeeds kmalloc) (h : Grown s d f N table) (hN : N < 262144)
    {desc : VmmBlockDesc} {blocks : List VmmBlockDesc} (hblocks : blocks.length = s.vmmBlockList.length)
    (hmark : desc.highWaterMark = N % 1024 + 1)
    (htable : desc.pageTable = tableAddr table (N / 1024))
    (hfirst : desc.firstPage = pageAddr (1024 * (N / 1024)))
    (hsup : Supplies (r + framesFor N) s.paging.pmm) :
    ∃ u table', vmmReserveBlock kmalloc (N / 1024) desc { s with vmmBlockList := blocks } = .ok () u ∧
      Supplies (r + if N < 1024 ∨ N % 1024 = 1022 then 0 else 1) u.paging.pmm ∧
      TablesTaken u.paging d table' (min ((N + 3) / 1024 + 1) 256) ∧ table' 0 = table 0 ∧
      (262141 ≤ N → (u.paging.ram (table' 255) 1022).present = true) := by
  have hlen := h.length
  generalize hneed : (if N < 1024 ∨ N % 1024 = 1022 then 0 else 1) = need at hsup ⊢
  by_cases hmod : N % 1024 = 1021
  · rw [framesFor, if_pos hmod, hneed, Nat.add_comm 1, ← Nat.add_assoc] at hsup
    obtain ⟨u, table', hu, hrest, ht, h0, hlast⟩ :=
      h.addBlock hk hN hmod blocks htable hfirst hsup
    refine ⟨{ u with allocatingNewBlock := false }, table', ?_, hrest, ht, h0, hlast⟩
    rw [vmmReserveBlock, if_pos]
    · apply (Kern.bind_ok (Kern.modify_ok _ _)).trans
      exact (Kern.bind_ok hu).trans rfl
    · exact ⟨by rw [hmark, hmod, highWaterThreshold], by dsimp only; omega, h.flag⟩
  · have hsame : (N + 3) / 1024 + 1 = s.vmmBlockList.length := by omega
    rw [framesFor, if_neg hmod, hneed, Nat.zero_add] at hsup
    refine ⟨{ s with vmmBlockList := blocks }, table, ?_, hsup, hsame ▸ h.tables, rfl,
      fun hge => h.last (by omega)⟩
    rw [vmmReserveBlock, if_neg]
    rw [hmark, highWaterThreshold]
    omega

theorem present {m : Paging.Mem} (ht : TablesTaken m d table (min ((N + 3) / 1024 + 1) 256))
    (hlast : 262141 ≤ N → (m.ram (table 255) 1022).present = true) (hN : N < 262144)
    (hfree : N < 1024 ∨ N % 1024 = 1022) :
    (m.ram (table (N / 1024)) (N % 1024)).present = true := by
  by_contra hp
  rw [Bool.not_eq_true] at hp
  obtain ⟨hblock, hlink⟩ := ht.of_absent (by omega) hp
  rcases hfree with hfree | hfree
  · omega
  · have hle := hlink hfree
    have hdiv : N / 1024 = 255 := by omega
    rw [hdiv, hfree, hlast (by omega)] at hp
    cases hp

/-- **One call** returns page `N`. -/
theorem alloc (hk : Succeeds kmalloc) (h : Grown s d f N table) (hN : N < 262144)
    (hsup : Supplies (r + framesFor N) s.paging.pmm) :
    ∃ s' table', vmmAllocPage kmalloc s = .ok (pageAddr N) s' ∧ Grown s' d f (N + 1) table' ∧
      Supplies r s'.paging.pmm := by
  have hlen := h.length
  have hle := h.le
  rcases h.layout.blocks.findPage with ⟨hnone, -⟩ | ⟨hlt, hfind⟩
  · omega
  have hblock := h.layout.block _ hlt
  generalize hdesc : takePage N (s.vmmBlockList.get ⟨N / 1024, hlt⟩) = desc at hfind
  have hmark : desc.highWaterMark = N % 1024 + 1 := by rw [← hdesc]; rfl
  have htable : desc.pageTable = tableAddr table (N / 1024) := by rw [← hdesc]; exact hblock.table
  have hfirst : desc.firstPage = pageAddr (1024 * (N / 1024)) := by rw [← hdesc]; exact hblock.first
  have hset : (s.vmmBlockList.set (N / 1024) desc).length = s.vmmBlockList.length := List.length_set
  obtain ⟨u, table', hreserve, hsup', ht, h0, hlast⟩ :=
    h.reserve hk hN hset hmark htable hfirst hsup
  have htable' : desc.pageTable = tableAddr table' (N / 1024) :=
    htable.trans (tableAddr_congr h0 _).symm
  have hn : N / 1024 < min ((N + 3) / 1024 + 1) 256 := by omega
  obtain ⟨s', hmap, hrest⟩ := ht.mapPage_ok hn htable' (fun hneed => present ht hlast hN (by
    by_contra hno
    rw [if_neg hno] at hneed
    omega)) hsup'
  have hcall : vmmAllocPage kmalloc s = .ok (pageAddr N) s' := by
    rw [vmmAllocPage, hfind]
    dsimp only
    rw [if_neg ((pageAddr_ne_zero (by omega)).mpr hN)]
    exact (Kern.bind_ok hreserve).trans hmap
  obtain ⟨-, -, -, hflag, M, hlayout, hM⟩ :=
    h.layout.alloc (hk.serves (s.vmmBlockList.length + 1)) h.le h.flag hcall
  obtain rfl : M = N + 1 := by omega
  obtain ⟨htables, ⟨g, hleads⟩, hkept⟩ := ht.mapPage hn htable' hmap
  refine ⟨s', table', hcall, ⟨?_, hflag, ?_, ?_, ?_, by omega, h.small⟩, hrest⟩
  · rw [tableAddr_congr h0]
    exact hlayout
  · have hlength := hlayout.length
    rw [if_pos h.small] at hlength
    rw [hlength]
    exact htables
  · intro hge
    by_cases heq : N = 262142
    · subst heq
      exact hleads.present
    · have hsame := hkept 262142 (Ne.symm heq) (by omega)
      rw [show 262142 / 1024 = 255 from rfl, show 262142 % 1024 = 1022 from rfl] at hsame
      rw [hsame]
      exact hlast (by omega)
  · rw [h0]
    exact h.first

/-- A block is followed by another one before its last two pages are taken. -/
theorem next_block (h : Grown s d f N table) {b : Nat} {desc : VmmBlockDesc}
    (hb : s.vmmBlockList[b]? = some desc) (hfull : ∀ i < 1022, bit desc.bitmap i = true) :
    b + 1 < s.vmmBlockList.length := by
  have hlen := h.length
  obtain ⟨hlt, rfl⟩ := List.getElem?_eq_some_iff.mp hb
  have hset := hfull 1021 (by decide)
  rw [(h.layout.block b hlt).bits 1021 (by decide), decide_eq_true_eq] at hset
  omega

end Grown

/-! ### Runs -/

/-- `k` calls of `vmm_alloc_page`, with the pages that they return. -/
def vmmAllocPages (kmalloc : Nat → Kern State Nat) : Nat → Kern State (List Nat)
  | 0 => pure []
  | k + 1 => do
    let pages ← vmmAllocPages kmalloc k
    let page ← vmmAllocPage kmalloc
    return pages ++ [page]

/-- A block of which the first 1022 pages are taken is followed by another one. -/
def GrowsInTime (s : State) : Prop :=
  ∀ b desc, s.vmmBlockList[b]? = some desc → (∀ i < 1022, bit desc.bitmap i = true) →
    b + 1 < s.vmmBlockList.length

/-- **A run of calls** returns the pages from `f` on. -/
theorem Grown.run {kmalloc : Nat → Kern State Nat} {s : State} {d f : Nat} {table : Nat → Nat}
    (hk : Succeeds kmalloc) (h : Grown s d f f table) : ∀ {k r : Nat}, f + k ≤ 262144 →
    Supplies (r + framesOf f k) s.paging.pmm →
    ∃ s' table', vmmAllocPages kmalloc k s = .ok ((List.range k).map fun j => pageAddr (f + j)) s' ∧
      Grown s' d f (f + k) table' ∧ Supplies r s'.paging.pmm := by
  intro k
  induction k with
  | zero => intro r _ hsup; exact ⟨s, table, rfl, h, hsup⟩
  | succ k ih =>
    intro r hk' hsup
    rw [framesOf, Nat.add_comm (framesOf f k), ← Nat.add_assoc] at hsup
    obtain ⟨u, table', hrun, hu, hrest⟩ := ih (by omega) hsup
    obtain ⟨s', table'', hcall, hs', hrest'⟩ := hu.alloc hk (by omega) hrest
    refine ⟨s', table'', ?_, hs', hrest'⟩
    rw [List.range_succ, List.map_append]
    exact (Kern.bind_ok hrun).trans (Kern.bind_ok hcall)

theorem Boots.grown {image : KernelImage} {mbt : MultibootInfo} {junk d t : Nat}
    {ram : Nat → Nat → PageEntry} {s : State} (h : Boots image mbt junk ram d t s)
    (ht : t + 1 ≤ 1021) : Grown s d (t + 1) (t + 1) fun _ => t := by
  have hm := h.mapped
  have hlen : s.vmmBlockList.length = 1 := by
    rw [hm.layout.length, if_pos ht]
    omega
  refine ⟨hm.layout, hm.flag, ?_, fun hge => by omega, rfl, le_rfl, ht⟩
  have htables := hm.tables
  rw [hlen] at htables ⊢
  exact htables

/-- **The VMM grows in time and in order.**  After a boot in which `vmm_init` sets the first free page
to `t + 1`, and as long as there are frames and the address space does not end, the calls of
`vmm_alloc_page` return the pages from there on, one after the other, and after each call a block of
which only two pages are left is followed by another one. -/
theorem grows_of_boots {image : KernelImage} {mbt : MultibootInfo} {junk d t k : Nat}
    {ram : Nat → Nat → PageEntry} {s : State} {kmalloc : Nat → Kern State Nat}
    (hboot : Boots image mbt junk ram d t s) (hk : Succeeds kmalloc) (ht : t + 1 ≤ 1021)
    (hend : t + 1 + k ≤ 256 * 1024) (hsup : Supplies (framesOf (t + 1) k) s.paging.pmm) :
    ∀ j ≤ k, ∃ s', vmmAllocPages kmalloc j s =
        .ok ((List.range j).map fun i => kernelBaseAddrVirt + (t + 1 + i) * 4096) s' ∧
      GrowsInTime s' := by
  intro j hj
  obtain ⟨s', table', hrun, hs', -⟩ := (hboot.grown ht).run hk (k := j) (r := 0) (by omega)
    (by rw [Nat.zero_add]; exact hsup.of_framesOf hj)
  refine ⟨s', ?_, fun b desc hb hfull => hs'.next_block hb hfull⟩
  rw [hrun]
  congr 1
  apply List.map_congr_left
  intro i hi
  have hlt := List.mem_range.mp hi
  rw [pageAddr_eq (by omega), kernelBaseAddrVirt, Nat.mul_comm]

/-- The small kernel gets to the first page of its second block, with a frame for the table of the
block and one for the page. -/
theorem grows_smallImage : ∃ s, Boots smallImage solidMap 0 (fun _ _ => {}) 385 386 s ∧
    ∃ s', vmmAllocPages (fun _ => pure 0xC0160F68) 638 s =
        .ok ((List.range 638).map fun i => kernelBaseAddrVirt + (386 + 1 + i) * 4096) s' ∧
      GrowsInTime s' := by
  obtain ⟨s, hboot, hpmm⟩ : ∃ s, Boots smallImage solidMap 0 (fun _ _ => {}) 385 386 s ∧
      s.paging.pmm = _ := exists_boots (fun _ _ => {}) rfl rfl rfl (by decide) (by decide) (by decide)
        (by decide) (by decide)
  have hk : Succeeds fun _ => pure 0xC0160F68 := succeeds_pure (by decide)
  have hframes : framesOf (386 + 1) 638 = 2 := by decide +kernel
  have hsup : Supplies (framesOf (386 + 1) 638) s.paging.pmm := by
    rw [hframes, hpmm]
    exact .succ (a := 0x183000) (by decide) rfl (.succ (a := 0x184000) (by decide) rfl .zero)
  have hend : 386 + 1 + 638 ≤ 256 * 1024 := by decide
  exact ⟨s, hboot, grows_of_boots hboot hk (by decide) hend hsup 638 le_rfl⟩

end Aosis.Memory.Vmm
