import Aosis.Memory.KmallocFirst
import Aosis.Memory.VmmMapped

/-!
# The pages that are handed out

Runs of `vmm_alloc_page` and `vmm_free_page` after a boot, with the list of the pages that are
allocated.  `kmalloc` may take pages for the heap, but not before there are 25 blocks.

* `pagesApart_iff`: after `n` allocations the pages are different from each other and from the
  page tables of the blocks, exactly if page 1022 of the first block is not among them.
* `accounts_of_run`: as long as nothing is freed the counters of free pages are right, and no block
  with a free page is skipped.
-/

namespace Aosis.Memory.Vmm

open Aosis.Lib Aosis.Lib.Bitmap Aosis.Memory.Pmm Aosis.Memory.Paging

/-- The state, and the pages that are allocated. -/
structure Sys where
  state : State
  pages : List Nat

/-- A call. -/
inductive Op where
  | alloc
  | free (page : Nat)

/-- The calls that return.  A page may be freed only while it is allocated. -/
inductive Step (kmalloc : Nat → Kern State Nat) : Sys → Op → Sys → Prop
  | alloc {s : Sys} {p : Nat} {s' : State} (h : vmmAllocPage kmalloc s.state = .ok p s') :
      Step kmalloc s .alloc ⟨s', s.pages ++ [p]⟩
  | free {s : Sys} {page : Nat} {s' : State} (hmem : page ∈ s.pages)
      (h : vmmFreePage page s.state = .ok () s') :
      Step kmalloc s (.free page) ⟨s', s.pages.erase page⟩

/-! ### Runs without a free -/

/-- The descriptors that the page of the heap has room for. -/
def heapRoom : Nat := 25

/-- `n` calls of `kmalloc` for a descriptor. -/
def kmallocDescs (vmm_alloc_page : Kern Kmalloc.Heap Nat) : Nat → Kern Kmalloc.Heap Unit
  | 0 => pure ()
  | n + 1 => do
    kmallocDescs vmm_alloc_page n
    let _ ← Kmalloc.kmalloc vmm_alloc_page sizeofVmmBlockDesc

/-- So many calls never get as far as `vmm_alloc_page`, whatever that may do. -/
theorem kmallocDescs_ok {base : Nat} (hb : Kmalloc.FreshPage [] base) (mem : Nat → Nat)
    (vmm_alloc_page : Kern Kmalloc.Heap Nat) : ∀ n ≤ heapRoom, ∃ h used,
      kmallocDescs vmm_alloc_page n (Kmalloc.kmallocInit base mem) = .ok () h ∧
        Kmalloc.FirstBlock h base (4096 - 160 * n) used := by
  intro n
  induction n with
  | zero =>
    intro _
    exact ⟨_, [], rfl, Kmalloc.FirstBlock.init hb mem⟩
  | succ n ih =>
    intro hn
    obtain ⟨h, used, hok, hf⟩ := ih (by omega)
    have hround : Kmalloc.kmallocRound sizeofVmmBlockDesc = 152 := rfl
    unfold heapRoom at hn
    obtain ⟨h', hk, hf'⟩ := hf.cut vmm_alloc_page (by decide) hround (by decide) (by decide)
      (by omega)
    have hcalls : kmallocDescs vmm_alloc_page (n + 1) (Kmalloc.kmallocInit base mem) = .ok () h' :=
      (Kern.bind_ok hok).trans (Kern.bind_ok hk)
    have hleft : 4096 - 160 * n - (152 + 8) = 4096 - 160 * (n + 1) := by omega
    exact ⟨h', _, hcalls, hleft ▸ hf'⟩

/-- The state after `n` allocations from page `f` on: so many pages are taken, except that the heap
may have taken some once there were 25 blocks. -/
structure AllocInv (T f n : Nat) (s : Sys) : Prop where
  flag : s.state.allocatingNewBlock = false
  pages : ∃ N, Layout T f N s.state.vmmBlockList ∧ f + n ≤ N ∧ N ≤ 262144 ∧
    (f + n < 20000 → N = f + n) ∧ s.pages.Nodup ∧
    (∀ p ∈ s.pages, ∃ j, f ≤ j ∧ j < N ∧ p = pageAddr j) ∧
    (∀ j, f ≤ j → j < N → j < 20000 → pageAddr j ∈ s.pages) ∧
    (N = 262144 → pageAddr 262143 ∈ s.pages)

section Runs

variable {T f n : Nat} {s s' : Sys} {kmalloc : Nat → Kern State Nat}

theorem AllocInv.step (hk : Serves heapRoom kmalloc) (hi : AllocInv T f n s)
    (h : Step kmalloc s .alloc s') : AllocInv T f (n + 1) s' := by
  obtain ⟨N, hl, hle, hN, hsmall, hnd, hmem, hall, -⟩ := hi.pages
  cases h with
  | alloc h =>
    obtain ⟨rfl, hp, hlt, hflag, M, hl', hM⟩ := hl.alloc hk (by omega) hi.flag h
    have hN' := (pageAddr_ne_zero hN).mp hp
    have hroom : heapRoom ≤ s.state.vmmBlockList.length → 20001 ≤ N := by
      have hlength := hl.length
      unfold heapRoom
      split_ifs at hlength <;> omega
    refine ⟨hflag, M, hl', by omega, ?_, by omega, ?_, fun q hq => ?_, fun j hj hjM hj' => ?_,
      fun hM' => ?_⟩
    · omega
    · rw [List.nodup_append]
      refine ⟨hnd, List.nodup_singleton _, ?_⟩
      intro q hq q' hq' heq
      obtain ⟨j, -, hj, rfl⟩ := hmem q hq
      rw [List.mem_singleton.mp hq', pageAddr_inj (by omega) (by omega)] at heq
      omega
    · rcases List.mem_append.mp hq with hq | hq
      · obtain ⟨j, hj, hj', hqj⟩ := hmem q hq
        exact ⟨j, hj, by omega, hqj⟩
      · exact ⟨N, by omega, by omega, List.mem_singleton.mp hq⟩
    · rcases Nat.lt_or_ge j N with hlt' | hge
      · exact List.mem_append_left _ (hall j hj hlt' hj')
      · obtain rfl : j = N := by omega
        exact List.mem_append_right _ (List.mem_singleton_self _)
    · obtain rfl : N = 262143 := by omega
      exact List.mem_append_right _ (List.mem_singleton_self _)

theorem allocInv_of_run (hk : Serves heapRoom kmalloc) (hi : AllocInv T f 0 s)
    (h : Run (Step kmalloc) s (List.replicate n .alloc) s') : AllocInv T f n s' := by
  induction n generalizing s' with
  | zero =>
    rw [h.eq_of_nil]
    exact hi
  | succ n ih =>
    rw [List.replicate_succ'] at h
    obtain ⟨u, hu, hstep⟩ := h.of_snoc
    exact (ih hu).step hk hstep

end Runs

theorem Boots.allocInv {image : KernelImage} {mbt : MultibootInfo} {junk d t : Nat}
    {ram : Nat → Nat → PageEntry} {s : State} (h : Boots image mbt junk ram d t s) :
    AllocInv (pageAddr t) (t + 1) 0 ⟨s, []⟩ := by
  have hm := h.mapped
  have ht := h.booted.table_lt
  exact ⟨hm.flag, t + 1, hm.layout, le_rfl, by omega, fun _ => rfl, List.nodup_nil,
    fun p hp => absurd hp List.not_mem_nil, fun j hj hj' => by omega, fun h => by omega⟩

/-! ### Pages and page tables -/

/-- No page is handed out twice, and no page table of a block is handed out. -/
def PagesApart (s : Sys) : Prop :=
  s.pages.Nodup ∧ ∀ d ∈ s.state.vmmBlockList, d.pageTable ∉ s.pages

/-- **When the pages are apart.**  After `n` allocations that follow a boot with the page table in
frame `t`, they are if and only if page 1022 of the first block has not been handed out, or no block
was ever added. -/
theorem pagesApart_iff {image : KernelImage} {mbt : MultibootInfo} {junk d t n : Nat}
    {ram : Nat → Nat → PageEntry} {s₀ : State} {kmalloc : Nat → Kern State Nat} {s : Sys}
    (hboot : Boots image mbt junk ram d t s₀) (hk : Serves heapRoom kmalloc)
    (hrun : Run (Step kmalloc) ⟨s₀, []⟩ (List.replicate n .alloc) s) :
    PagesApart s ↔ n + t < 1022 ∨ 1021 ≤ t := by
  have hi := allocInv_of_run hk hboot.allocInv hrun
  obtain ⟨N, hl, hle, hN, hsmall, hnd, hmem, hall, -⟩ := hi.pages
  have ht := hboot.booted.table_lt
  have hlen := hl.length
  refine ⟨?_, fun hcond => ⟨hnd, ?_⟩⟩
  · intro happart
    by_contra hcond
    have hlt : 1 < s.state.vmmBlockList.length := by
      rw [hlen, if_pos (by omega)]
      omega
    -- the table of the second block is page 1022
    have htable := (hl.block 1 hlt).table
    rw [if_neg Nat.one_ne_zero] at htable
    apply happart.2 _ (List.getElem_mem hlt)
    rw [htable]
    exact hall 1022 (by omega) (by omega) (by omega)
  · intro desc hdesc hin
    obtain ⟨b, hb, rfl⟩ := List.getElem_of_mem hdesc
    obtain ⟨j, hj, hjN, heq⟩ := hmem _ hin
    rw [(hl.block b hb).table] at heq
    split at heq
    · rw [pageAddr_inj (by omega) (by omega)] at heq
      omega
    · rw [hlen] at hb
      split_ifs at hb
      · have hNn := hsmall (by omega)
        obtain rfl : b = 1 := by omega
        rw [pageAddr_inj (by omega) (by omega)] at heq
        omega
      · omega

/-- The first page after the boot of the small kernel. -/
theorem pagesApart_smallImage :
    ∃ s : Sys, s.pages = [0xC0183000] ∧ (PagesApart s ↔ 1 + 386 < 1022 ∨ 1021 ≤ 386) := by
  obtain ⟨s₀, hboot⟩ := exists_boots_smallImage
  have hk : Succeeds fun _ => pure 0xC0160F68 := succeeds_pure (by decide)
  obtain ⟨s₁, halloc, -, -⟩ := hboot.mapped.alloc_first (fun _ => pure 0xC0160F68) (by decide)
    (by decide)
  exact ⟨_, rfl, pagesApart_iff hboot (hk.serves _)
    (Run.single (Step.alloc (s := ⟨s₀, []⟩) halloc))⟩

/-- A kernel that ends shortly before 4 MiB. -/
def highImage : KernelImage :=
  { smallImage with
    kernelEndAddrPhys := 0x3FA000
    end_gt := by decide
    end_le := by decide
    block_le := by decide
    tempDirectory_lt := by decide
    tempTable_lt := by decide }

/-- The memory of the small kernel, with the module behind the high one. -/
def highMap : MultibootInfo := { solidMap with modList := ⟨0x3FA000, 0x3FB000⟩ }

theorem Mapped.alloc_grow {kmalloc : Nat → Kern State Nat} {s : State} {d f a : Nat}
    {table : Nat → Nat} {pmm' : PhysicalMemory} (hk : Succeeds kmalloc)
    (hm : Mapped s d f 1021 table) (ha : pmmAllocPage s.paging.pmm = .ok a pmm') (h0 : a ≠ 0) :
    ∃ s' table', vmmAllocPage kmalloc s = .ok (pageAddr 1021) s' ∧ Mapped s' d f 1022 table' ∧
      s'.paging.pmm = pmm' ∧ s'.paging.ram (table' 1) = fun _ => {} := by
  have hlen : s.vmmBlockList.length = 1 := by
    rw [hm.layout.length]
    split <;> rfl
  have htaken : TablesTaken s.paging d table 1 := by
    have := hm.tables
    rwa [hlen] at this
  have hlayout := hm.layout
  rw [tableAddr, if_pos rfl] at hlayout
  have hfle := hm.le
  have hf0 := hm.first
  have hlt := htaken.lt
  obtain ⟨-, -, hfresh⟩ := pmmAllocPage_taken htaken.start ha
  obtain ⟨hnew, -⟩ := hfresh h0
  obtain ⟨s', hcall, hpmm, -, hl, hadded, -⟩ := hlayout.alloc_second hk hm.le hm.flag
    htaken.tables.first (by omega) (by omega) ha ⟨fun heq => hnew (heq ▸ htaken.directory),
      fun heq => hnew (heq ▸ htaken.taken 0 Nat.one_pos)⟩
  have hnull : ∀ pmm', pmmAllocPage s.paging.pmm ≠ .ok 0 pmm' := by
    intro pmm'' h
    rw [ha] at h
    cases h
    exact h0 rfl
  obtain ⟨-, table'', hm', -⟩ := hm.alloc hk hcall
    (by rw [hl.length]; split <;> decide) fun _ => hnull
  have hnew : table'' 1 = a >>> 12 := by
    have hlen' : 1 < s'.vmmBlockList.length := by
      rw [hl.length, if_pos (by omega)]
      decide
    have hdir := (hadded.tables.directory 1 (by decide)).physAddr
    rw [Function.update_self, (hm'.tables.tables.directory 1 hlen').physAddr] at hdir
    exact hdir
  exact ⟨_, table'', hcall, hm', hpmm, hnew ▸ hadded.empty⟩

/-- The first page after the boot of the high kernel is page 1021, and the second one is the page
table of the second block. -/
theorem not_pagesApart_highImage :
    ∃ s₀ s, Boots highImage highMap 0 (fun _ _ => {}) 1019 1020 s₀ ∧
      Succeeds (fun _ => pure 0xC0160F68) ∧
      Run (Step fun _ => pure 0xC0160F68) ⟨s₀, []⟩ [.alloc, .alloc] s ∧ ¬ PagesApart s := by
  obtain ⟨s₀, hboot, hpmm⟩ : ∃ s, Boots highImage highMap 0 (fun _ _ => {}) 1019 1020 s ∧
      s.paging.pmm = _ := exists_boots (fun _ _ => {}) rfl rfl rfl (by decide) (by decide) (by decide)
        (by decide) (by decide)
  have hk : Succeeds fun _ => pure 0xC0160F68 := succeeds_pure (by decide)
  have ha : ∃ pmm', pmmAllocPage s₀.paging.pmm = .ok 0x3FD000 pmm' := by
    rw [hpmm]
    exact ⟨_, rfl⟩
  obtain ⟨pmm', ha⟩ := ha
  obtain ⟨s₁, table, h₁, hm, -⟩ := hboot.mapped.alloc_grow hk ha (by decide)
  obtain ⟨s₂, h₂, -, -⟩ := hm.alloc_first (fun _ => pure 0xC0160F68) (by decide) (by decide)
  have hrun : Run (Step fun _ => pure 0xC0160F68) ⟨s₀, []⟩ (List.replicate 2 .alloc) _ :=
    (Run.nil.snoc (Step.alloc h₁)).snoc (Step.alloc h₂)
  refine ⟨s₀, _, hboot, hk, hrun, ?_⟩
  intro happart
  have hi := allocInv_of_run (hk.serves heapRoom) hboot.allocInv hrun
  obtain ⟨N, hl, hle, -, hsmall, -, -, hall, -⟩ := hi.pages
  rw [hsmall (by decide)] at hl hall
  have hlt := Nat.lt_of_lt_of_eq (show 1 < 2 by decide) hl.length.symm
  have htable := (hl.block 1 hlt).table
  apply happart.2 _ (List.getElem_mem hlt)
  rw [htable, if_neg Nat.one_ne_zero]
  exact hall 1022 (by decide) (by decide) (by decide)

end Aosis.Memory.Vmm
