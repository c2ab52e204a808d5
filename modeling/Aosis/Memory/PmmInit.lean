import Aosis.Common.Image
import Aosis.Memory.Pmm

/-!
# Setting up the pool

`pmm_init` reads the multiboot memory map, takes the low address word plus the low length
word of the last available entry as the end of memory, makes everything from the end of the
kernel to there the pool, and reserves a page for the first module.

* `pmmInit_isRam_iff`: the pool consists of free memory exactly when no page between the
  kernel and that end is missing from the available entries.
* `reservation_iff`: the reservation protects the module exactly when the module lies in
  the first page of the pool, because it takes a byte offset for a page number.
-/

namespace Aosis.Memory.Pmm

open Aosis.Lib Aosis.Lib.Bitmap

/-! ### Multiboot -/

/-- `struct multiboot_mmap_entry`, without its own size. -/
structure MultibootMmapEntry where
  addrLow : Word
  addrHigh : Word
  lenLow : Word
  lenHigh : Word
  type : Word
  deriving DecidableEq

/-- The module's place, from `struct multiboot_mod_list`. -/
structure MultibootModList where
  modStart : Word
  modEnd : Word

/-- The fields of `struct multiboot_info` that `pmm_init` reads.  `mmap` stands for the
`mmap_length` bytes at `mmap_addr`, `modList` for the first module at `mods_addr`. -/
structure MultibootInfo where
  flags : Word
  mmap : List MultibootMmapEntry
  modList : MultibootModList

/-- `MULTIBOOT_MEMORY_AVAILABLE`. -/
def multibootMemoryAvailable : Word := 1

namespace MultibootMmapEntry

/-- The map marks the region available. -/
def Available (e : MultibootMmapEntry) : Prop := e.type = multibootMemoryAvailable

instance (e : MultibootMmapEntry) : Decidable e.Available :=
  inferInstanceAs (Decidable (e.type = multibootMemoryAvailable))

/-- The 64-bit start of the region. -/
def base (e : MultibootMmapEntry) : Nat := e.addrHigh.toNat * 2 ^ 32 + e.addrLow.toNat

/-- The 64-bit length of the region. -/
def len (e : MultibootMmapEntry) : Nat := e.lenHigh.toNat * 2 ^ 32 + e.lenLow.toNat

/-- The end of the region as the code computes it: low words only, modulo `2 ^ 32`. -/
def lowEnd (e : MultibootMmapEntry) : Nat := u32 (e.addrLow.toNat + e.lenLow.toNat)

end MultibootMmapEntry

/-- `struct user_task_info`. -/
structure UserTaskInfo where
  startingEip : Nat
  physAddrStart : Nat
  physAddrEnd : Nat
  len : Nat

/-- `pmm` together with the static `user_task` of `task.c`, which is `none` until its first
assignment. -/
structure Globals where
  pmm : PhysicalMemory
  userTask : Option UserTaskInfo

/-- The globals at power-on. -/
def Globals.static : Globals := ⟨pmmStatic, none⟩

/-! ### The source -/

/-- The first page address of `pmm_init_struct`. -/
def pmmFirstPageAddr (kernel_end_addr_phys : Nat) : Nat :=
  let first_page_addr := pageAlign kernel_end_addr_phys
  if first_page_addr < kernel_end_addr_phys then pageIncrement first_page_addr
  else first_page_addr

/-- The last page address of `pmm_init_struct`. -/
def pmmLastPageAddr (last_mem_addr : Nat) : Nat :=
  let last_page_addr := pageAlign last_mem_addr
  if last_mem_addr < pageIncrement last_page_addr then pageDecrement last_page_addr
  else last_page_addr

/-- `pmm_init_struct`. -/
def pmmInitStruct (image : KernelImage) (last_mem_addr : Nat) (pmm : PhysicalMemory) :
    PhysicalMemory :=
  let first_page_addr := pmmFirstPageAddr image.kernelEndAddrPhys
  let total_page_memory :=
    sub32 (pageIncrement (pmmLastPageAddr last_mem_addr)) first_page_addr
  { pmm with
    startingAddr := first_page_addr
    totalPageMemory := total_page_memory
    pageCount := total_page_memory / pageSize }

/-- `task_init_user_task_info`: only the first call stores its argument. -/
def taskInitUserTaskInfo (info : UserTaskInfo) (userTask : Option UserTaskInfo) :
    Option UserTaskInfo :=
  match userTask with
  | none => some info
  | some task => some task

/-- `pmm_init_user_task`. -/
def pmmInitUserTask (user_module : MultibootModList) : Kern Globals Unit := fun s =>
  let page := sub32 user_module.modStart.toNat s.pmm.startingAddr
  let bitmap_index := page >>> 5
  let bitmap_bit := (~~~(0xFFFFFFFF#32 <<< (page % 32))).toNat
  if h : bitmap_index < 8192 then
    let user_task : UserTaskInfo :=
      { startingEip := 0
        physAddrStart := user_module.modStart.toNat
        physAddrEnd := user_module.modEnd.toNat
        len := sub32 user_module.modEnd.toNat user_module.modStart.toNat }
    .ok ()
      { pmm := { s.pmm with
          bitmap := s.pmm.bitmap.set bitmap_index (setBit s.pmm.bitmap[bitmap_index] bitmap_bit) }
        userTask := taskInitUserTaskInfo user_task s.userTask }
  else .error .outOfBounds s

/-- One turn of the loop of `pmm_init` over the memory map, on `pmm.total_memory` and
`last_mem_addr`. -/
def pmmInitEntry (acc : Nat × Nat) (entry : MultibootMmapEntry) : Nat × Nat :=
  if entry.Available then (entry.lenLow.toNat, entry.lowEnd) else acc

/-- `pmm_init`.  The local `last_mem_addr` starts out uninitialised, with the value
`junk`. -/
def pmmInit (image : KernelImage) (mbt : MultibootInfo) (junk : Nat) : Kern Globals Unit :=
  fun s =>
    if (mbt.flags >>> 6) &&& 0x01 = 0 then .error (.panic "invalid GRUB memory map") s
    else
      let acc := mbt.mmap.foldl pmmInitEntry (s.pmm.totalMemory, junk)
      let pmm := pmmInitStruct image acc.2 { s.pmm with totalMemory := acc.1 }
      pmmInitUserTask mbt.modList { s with pmm := pmm }

/-! ### The ends of the pool -/

/-- The last entry of the map that is available. -/
def lastAvailable (mmap : List MultibootMmapEntry) : Option MultibootMmapEntry :=
  (mmap.filter (fun e => e.Available)).getLast?

theorem foldl_pmmInitEntry (mmap : List MultibootMmapEntry) (acc : Nat × Nat)
    {e : MultibootMmapEntry} (he : lastAvailable mmap = some e) :
    (mmap.foldl pmmInitEntry acc).2 = e.lowEnd := by
  induction mmap using List.reverseRecOn with
  | nil => exact absurd he (by simp [lastAvailable])
  | append_singleton mmap f ih =>
    rw [List.foldl_append, List.foldl_cons, List.foldl_nil, pmmInitEntry]
    by_cases hf : f.Available
    · have hef : f = e := by simpa [lastAvailable, List.filter_append, hf] using he
      rw [if_pos hf, hef]
    · rw [if_neg hf]
      exact ih (by simpa [lastAvailable, List.filter_append, hf] using he)

theorem lastAvailable_isSome {mmap : List MultibootMmapEntry} {e : MultibootMmapEntry}
    (he : e ∈ mmap) (ha : e.Available) : ∃ f, lastAvailable mmap = some f := by
  have hmem : e ∈ mmap.filter (fun e => e.Available) :=
    List.mem_filter.mpr ⟨he, decide_eq_true ha⟩
  exact Option.isSome_iff_exists.mp (by
    rw [lastAvailable, List.getLast?_isSome]
    exact List.ne_nil_of_mem hmem)

theorem pmmFirstPageAddr_spec {e : Nat} (he : e ≤ 0x40000000) :
    pmmFirstPageAddr e % 4096 = 0 ∧ e ≤ pmmFirstPageAddr e ∧ pmmFirstPageAddr e < e + 4096 := by
  have hal : pageAlign e = e / 4096 * 4096 := pageAlign_eq (by omega)
  rw [pmmFirstPageAddr, pageIncrement, pageSize, hal, u32_of_lt (by omega)]
  split_ifs <;> omega

/-- Short of the last page below 4 GiB the end of the pool is the end of memory rounded
down to a page; from there on, and for an end below the first page, it is zero. -/
theorem pageIncrement_pmmLastPageAddr {e : Nat} (he : e < 2 ^ 32) :
    pageIncrement (pmmLastPageAddr e) =
      if 4096 ≤ e ∧ e < 0xFFFFF000 then e / 4096 * 4096 else 0 := by
  unfold pmmLastPageAddr pageIncrement pageDecrement pageSize sub32 u32
  rw [pageAlign_eq he]
  dsimp only
  split_ifs <;> omega

/-! ### The pool is free memory -/

/-- The page at `a` lies entirely inside one region that the map marks available. -/
def UsablePage (mmap : List MultibootMmapEntry) (a : Nat) : Prop :=
  ∃ e ∈ mmap, e.Available ∧ e.base ≤ a ∧ a + 4096 ≤ e.base + e.len

/-- Every page of the pool lies inside an available region and above the kernel. -/
def PoolIsRam (image : KernelImage) (mmap : List MultibootMmapEntry) (pmm : PhysicalMemory) :
    Prop :=
  ∀ k < pmm.pageCount, UsablePage mmap (pmm.startingAddr + k * 4096) ∧
    image.kernelEndAddrPhys ≤ pmm.startingAddr + k * 4096

/-- The size of the pool, `PAGE_INCREMENT(last_page_addr) - first_page_addr`, does not wrap
around zero. -/
def SizeFits (image : KernelImage) (last_mem_addr : Nat) : Prop :=
  pmmFirstPageAddr image.kernelEndAddrPhys ≤ pageIncrement (pmmLastPageAddr last_mem_addr)

/-- No page between the end of the kernel and `e` is missing from the available regions,
and `e` is short of the last page below 4 GiB. -/
def NoHole (image : KernelImage) (mmap : List MultibootMmapEntry) (e : Nat) : Prop :=
  pmmFirstPageAddr image.kernelEndAddrPhys ≤ e ∧ e < 0xFFFFF000 ∧
    ∀ a, a % 4096 = 0 → pmmFirstPageAddr image.kernelEndAddrPhys ≤ a → a + 4096 ≤ e →
      UsablePage mmap a

theorem sizeFits_iff (image : KernelImage) {e : Nat} (he : e < 2 ^ 32) :
    SizeFits image e ↔ pmmFirstPageAddr image.kernelEndAddrPhys ≤ e ∧ e < 0xFFFFF000 := by
  obtain ⟨hal, hge, -⟩ := pmmFirstPageAddr_spec image.end_le'
  have hpos := image.end_ge
  rw [SizeFits, pageIncrement_pmmLastPageAddr he]
  split_ifs <;> omega

theorem pmmInitStruct_isRam_iff (image : KernelImage) (mmap : List MultibootMmapEntry)
    (pmm : PhysicalMemory) {e : Nat} (he : e < 2 ^ 32) :
    PoolIsRam image mmap (pmmInitStruct image e pmm) ∧ SizeFits image e ↔ NoHole image mmap e := by
  obtain ⟨hal, hge, hlt⟩ := pmmFirstPageAddr_spec image.end_le'
  have hpos := image.end_ge
  have hle := image.end_le'
  rw [sizeFits_iff image he, NoHole, PoolIsRam]
  simp only [pmmInitStruct, pageSize]
  generalize pmmFirstPageAddr image.kernelEndAddrPhys = first at *
  have hcount : first ≤ e → e < 0xFFFFF000 →
      sub32 (pageIncrement (pmmLastPageAddr e)) first / 4096 = (e - first) / 4096 := by
    intro h1 h2
    rw [pageIncrement_pmmLastPageAddr he, if_pos ⟨by omega, h2⟩,
      sub32_of_le (by omega) (by omega)]
    omega
  refine ⟨?_, ?_⟩
  · rintro ⟨hram, h1, h2⟩
    refine ⟨h1, h2, ?_⟩
    intro a ha hfa hae
    have hk := (hram ((a - first) / 4096) (by rw [hcount h1 h2]; omega)).1
    rwa [show first + (a - first) / 4096 * 4096 = a by omega] at hk
  · rintro ⟨h1, h2, hall⟩
    refine ⟨?_, h1, h2⟩
    intro k hk
    rw [hcount h1 h2] at hk
    exact ⟨hall _ (by omega) (by omega) (by omega), by omega⟩

/-- Whether or not the module fits into the bitmap, `pmm_init` leaves the pool that
`pmm_init_struct` has set up. -/
theorem pmmInit_pool (image : KernelImage) {mbt : MultibootInfo} (junk : Nat) (s : Globals)
    (hflags : (mbt.flags >>> 6) &&& 0x01 ≠ 0) {e : MultibootMmapEntry}
    (he : lastAvailable mbt.mmap = some e) :
    ∃ pmm : PhysicalMemory,
      (stateAfter (pmmInit image mbt junk s)).pmm.startingAddr =
          (pmmInitStruct image e.lowEnd pmm).startingAddr ∧
        (stateAfter (pmmInit image mbt junk s)).pmm.pageCount =
          (pmmInitStruct image e.lowEnd pmm).pageCount := by
  refine ⟨s.pmm, ?_⟩
  have hlast := foldl_pmmInitEntry mbt.mmap (s.pmm.totalMemory, junk) he
  simp only [pmmInit, if_neg hflags, hlast]
  unfold pmmInitUserTask
  dsimp only
  split <;> exact ⟨rfl, rfl⟩

/-- **When the pool is free memory.**  For a map with the flag set and an available entry,
every page of the pool is free memory above the kernel and the size does not wrap, if and
only if the end of the last available entry lies above the kernel and below the last page
of the address space and every page up to it is inside some available region. -/
theorem pmmInit_isRam_iff (image : KernelImage) (mbt : MultibootInfo) (junk : Nat) (s : Globals)
    (hflags : (mbt.flags >>> 6) &&& 0x01 ≠ 0) {f : MultibootMmapEntry} (hf : f ∈ mbt.mmap)
    (havail : f.Available) :
    (PoolIsRam image mbt.mmap (stateAfter (pmmInit image mbt junk s)).pmm ∧
        SizeFits image (mbt.mmap.foldl pmmInitEntry (s.pmm.totalMemory, junk)).2) ↔
      ∃ e, lastAvailable mbt.mmap = some e ∧ NoHole image mbt.mmap e.lowEnd := by
  obtain ⟨e, he⟩ := lastAvailable_isSome hf havail
  obtain ⟨pmm, hstart, hcount⟩ := pmmInit_pool image junk s hflags he
  have hiff := pmmInitStruct_isRam_iff image mbt.mmap pmm (u32_lt (e.addrLow.toNat + e.lenLow.toNat))
  rw [PoolIsRam, hstart, hcount, foldl_pmmInitEntry _ _ he]
  refine ⟨fun h => ⟨e, he, hiff.mp h⟩, ?_⟩
  intro ⟨g, hg, hno⟩
  obtain rfl : e = g := Option.some.inj (he.symm.trans hg)
  exact hiff.mpr hno

/-- A kernel that ends at 1.5 MiB. -/
def smallImage : KernelImage where
  kernelStartAddrVirt := 0xC0101000
  kernelEndAddrPhys := 0x180000
  kmallocInitBlock := 0xC0160000
  tempPageDirectory := 0x150
  tempPageTable := 0x151
  start_ge := by decide
  end_gt := by decide
  end_le := by decide
  block_mod := by decide
  block_ge := by decide
  block_le := by decide
  temp_ne := by decide
  tempDirectory_lt := by decide
  tempTable_lt := by decide

/-- Free memory from 1 MiB to 8 MiB, without a hole. -/
def solidMap : MultibootInfo where
  flags := 0x40
  mmap := [⟨0x100000, 0, 0x700000, 0, multibootMemoryAvailable⟩]
  modList := ⟨0x180000, 0x181000⟩

theorem pmmInit_isRam_solidMap :
    PoolIsRam smallImage solidMap.mmap (stateAfter (pmmInit smallImage solidMap 0 .static)).pmm ∧
      SizeFits smallImage (solidMap.mmap.foldl pmmInitEntry (Globals.static.pmm.totalMemory, 0)).2 := by
  refine (pmmInit_isRam_iff smallImage solidMap 0 .static (by decide)
    (List.mem_singleton.mpr rfl) rfl).mpr ⟨_, rfl, by decide, by decide, ?_⟩
  intro a _ ha hae
  have hfirst : pmmFirstPageAddr smallImage.kernelEndAddrPhys = 0x180000 := rfl
  have hend : a + 4096 ≤ 0x800000 := hae
  rw [hfirst] at ha
  refine ⟨_, List.mem_singleton.mpr rfl, rfl, ?_, ?_⟩
  · show 0 * 2 ^ 32 + 0x100000 ≤ a
    omega
  · show a + 4096 ≤ (0 * 2 ^ 32 + 0x100000) + (0 * 2 ^ 32 + 0x700000)
    omega

/-- Free memory from 1 MiB to 2 MiB and from 4 MiB to 8 MiB, with device memory between. -/
def holeMap : MultibootInfo where
  flags := 0x40
  mmap := [⟨0x100000, 0, 0x100000, 0, multibootMemoryAvailable⟩, ⟨0x200000, 0, 0x200000, 0, 2⟩,
    ⟨0x400000, 0, 0x400000, 0, multibootMemoryAvailable⟩]
  modList := ⟨0x180000, 0x181000⟩

/-- The page at 2 MiB belongs to the pool although it is device memory. -/
theorem pmmInit_isRam_holeMap :
    (holeMap.flags >>> 6) &&& 0x01 ≠ 0 ∧
      (∃ e ∈ holeMap.mmap, e.Available ∧ smallImage.kernelEndAddrPhys < e.base + e.len) ∧
      ¬ (PoolIsRam smallImage holeMap.mmap
            (stateAfter (pmmInit smallImage holeMap 0 .static)).pmm ∧
          SizeFits smallImage
            (holeMap.mmap.foldl pmmInitEntry (Globals.static.pmm.totalMemory, 0)).2) := by
  refine ⟨by decide, ⟨_, List.mem_cons_self, rfl, by decide⟩, ?_⟩
  intro h
  have hstart : (stateAfter (pmmInit smallImage holeMap 0 .static)).pmm.startingAddr = 0x180000 :=
    rfl
  have hcount : (stateAfter (pmmInit smallImage holeMap 0 .static)).pmm.pageCount = 1664 := rfl
  obtain ⟨e, he, havail, hbase, hend⟩ := (h.1 128 (by rw [hcount]; decide)).1
  rw [hstart] at hbase hend
  simp only [holeMap, List.mem_cons, List.not_mem_nil, or_false] at he
  rcases he with rfl | rfl | rfl
  · revert hend; decide
  · revert havail; decide
  · revert hbase; decide

/-! ### The page of the module -/

/-- The calls of the allocator that leave the page at `a` alone: allocations, and frees of
other pages. -/
inductive StepSparing (a : Nat) : PhysicalMemory → Op → PhysicalMemory → Prop
  | alloc {pmm pmm' : PhysicalMemory} {p : Nat} (h : pmmAllocPage pmm = .ok p pmm') :
      StepSparing a pmm .alloc pmm'
  | free {pmm pmm' : PhysicalMemory} {page : Nat} (hne : pageAlign page ≠ a)
      (h : pmmFreePage page pmm = .ok () pmm') : StepSparing a pmm (.free page) pmm'

/-- What reserving the module's page is for: the call returns without writing outside the
bitmap, the page of the module is the only one it marks, and no later allocation returns
that page. -/
def ReservationHolds (s : Globals) (user_module : MultibootModList) : Prop :=
  ∃ s', pmmInitUserTask user_module s = .ok () s' ∧
    (∀ i, bit s'.pmm.bitmap i = true →
      bit s.pmm.bitmap i = true ∨ frameAddr s.pmm i = user_module.modStart.toNat) ∧
    ∀ ops pmm, Run (StepSparing user_module.modStart.toNat) s'.pmm ops pmm →
      ∀ a pmm', pmmAllocPage pmm = .ok a pmm' → a ≠ 0 → a ≠ user_module.modStart.toNat

/-- For a page-aligned module `k` pages into the pool the reservation marks the page
`4096 * k`. -/
theorem pmmInitUserTask_aligned {s : Globals} {user_module : MultibootModList} {k : Nat}
    (hmod : user_module.modStart.toNat = frameAddr s.pmm k) :
    (8192 ≤ 128 * k → pmmInitUserTask user_module s = .error .outOfBounds s) ∧
      (128 * k < 8192 → ∃ s', pmmInitUserTask user_module s = .ok () s' ∧
        s'.pmm = { s.pmm with bitmap := setAt s.pmm.bitmap (4096 * k) }) := by
  have hpage : sub32 user_module.modStart.toNat s.pmm.startingAddr = 4096 * k := by
    rw [sub32_of_le user_module.modStart.isLt (by rw [hmod]; exact Nat.le_add_right _ _), hmod,
      frameAddr, Nat.add_sub_cancel_left]
  have hindex : (4096 * k) >>> 5 = 128 * k := by rw [Nat.shiftRight_eq_div_pow]; omega
  have hbit : (~~~(0xFFFFFFFF#32 <<< (4096 * k % 32))).toNat = 0 := by
    rw [show 4096 * k % 32 = 0 by omega]
    rfl
  unfold pmmInitUserTask
  simp only [hpage, hindex, hbit]
  refine ⟨fun h => dif_neg (by omega), ?_⟩
  intro h
  rw [dif_pos h, set_setBit h (by decide), show 32 * (128 * k) + 0 = 4096 * k by ring]
  exact ⟨_, rfl, rfl⟩

theorem bit_of_run {pmm pmm' : PhysicalMemory} {k : Nat} {ops : List Op}
    (hal : pmm.startingAddr % 4096 = 0) (hset : bit pmm.bitmap k = true)
    (h : Run (StepSparing (frameAddr pmm k)) pmm ops pmm') :
    pmm'.startingAddr = pmm.startingAddr ∧ pmm'.pageCount = pmm.pageCount ∧
      bit pmm'.bitmap k = true := by
  have hinit : pmm.startingAddr = pmm.startingAddr ∧ pmm.pageCount = pmm.pageCount ∧
      bit pmm.bitmap k = true := ⟨rfl, rfl, hset⟩
  refine h.invariant (I := fun q => q.startingAddr = pmm.startingAddr ∧
    q.pageCount = pmm.pageCount ∧ bit q.bitmap k = true) ?_ hinit
  rintro t op u ⟨hstart, hcount, hbit⟩ hs
  cases hs with
  | alloc h =>
    rcases pmmAllocPage_cases h with ⟨-, rfl, -⟩ | ⟨i, -, hi, -, -, rfl⟩
    · exact ⟨hstart, hcount, hbit⟩
    · exact ⟨hstart, hcount, by rw [bit_setAt hi, hbit, Bool.true_or]⟩
  | @free _ page hne h =>
    obtain ⟨hge, i, hi, hib, rfl⟩ := pmmFreePage_cases h
    -- the page that is freed is page `i` of the pool, and it is not the module's
    have hik : k ≠ i := by
      intro hki
      have hmod := pageAlign_mod page
      rw [sub32_of_le (pageAlign_lt page) hge] at hi
      apply hne
      rw [frameAddr, hki]
      omega
    exact ⟨hstart, hcount, by rw [bit_clearAt hib, hbit]; simp [hik]⟩

/-- **When the reservation protects the module.**  For a page-aligned module inside a pool
whose bitmap is empty, the reservation does what it is for if and only if the module starts
with the pool. -/
theorem reservation_iff {s : Globals} (hal : s.pmm.startingAddr % 4096 = 0)
    (hend : s.pmm.startingAddr + 4096 * s.pmm.pageCount ≤ 2 ^ 32)
    (hempty : ∀ i, bit s.pmm.bitmap i = false) {user_module : MultibootModList} {k : Nat}
    (hk : k < s.pmm.pageCount) (hmod : user_module.modStart.toNat = frameAddr s.pmm k) :
    ReservationHolds s user_module ↔ user_module.modStart.toNat = s.pmm.startingAddr := by
  obtain ⟨hout, hin⟩ := pmmInitUserTask_aligned hmod
  have hk0 : user_module.modStart.toNat = s.pmm.startingAddr ↔ k = 0 := by
    rw [hmod, frameAddr]
    omega
  rw [hk0]
  refine ⟨?_, ?_⟩
  · rintro ⟨s', hs', hmarks, -⟩
    by_cases hlt : 128 * k < 8192
    · obtain ⟨s'', hs'', hpmm⟩ := hin hlt
      obtain rfl : s'' = s' := by rw [hs''] at hs'; cases hs'; rfl
      have hset : bit s''.pmm.bitmap (4096 * k) = true := by
        rw [hpmm, bit_setAt (by omega)]
        simp
      rcases hmarks _ hset with hold | hframe
      · rw [hempty] at hold
        cases hold
      · rw [hmod, frameAddr_inj] at hframe
        omega
    · rw [hout (by omega)] at hs'
      cases hs'
  · rintro rfl
    obtain ⟨s', hs', hpmm⟩ := hin (by decide)
    have hbits : ∀ i, bit s'.pmm.bitmap i = decide (i = 0) := by
      intro i
      rw [hpmm, bit_setAt (by decide), hempty, Bool.false_or]
    have hstart : s'.pmm.startingAddr = s.pmm.startingAddr := by rw [hpmm]
    have hcount : s'.pmm.pageCount = s.pmm.pageCount := by rw [hpmm]
    refine ⟨s', hs', ?_, ?_⟩
    · intro i hi
      rw [hbits, decide_eq_true_eq] at hi
      exact Or.inr (by rw [hi, hmod])
    · intro ops pmm hrun a pmm' ha hne heq
      have hrun' : Run (StepSparing (frameAddr s'.pmm 0)) s'.pmm ops pmm := by
        rwa [frameAddr, hstart, ← frameAddr, ← hmod]
      obtain ⟨hst, hct, hbit⟩ := bit_of_run (by rw [hstart]; exact hal) (by rw [hbits]; rfl) hrun'
      rcases pmmAllocPage_cases ha with ⟨h0, -⟩ | ⟨i, hi, -, hfirst, hai, -⟩
      · exact hne h0
      · have hi0 : i ≠ 0 := by
          rintro rfl
          rw [hfirst.1] at hbit
          cases hbit
        rw [heq, hmod, frameAddr, hst, hstart, u32_of_lt (by omega)] at hai
        omega

/-- An empty pool of 64 frames at 2 MiB. -/
def smallGlobals : Globals := ⟨smallPool, none⟩

theorem bit_smallGlobals (i : Nat) : bit smallGlobals.pmm.bitmap i = false := by
  simp [bit, smallGlobals, smallPool, pmmStatic]

/-- A module that starts with the pool is protected. -/
theorem reservation_first_page : ReservationHolds smallGlobals ⟨0x200000, 0x201000⟩ :=
  (reservation_iff rfl (by decide) bit_smallGlobals (k := 0) (by decide) rfl).mpr rfl

/-- A module in the second page is given away, and the call marks page 4096 instead. -/
theorem reservation_second_page : ¬ ReservationHolds smallGlobals ⟨0x201000, 0x202000⟩ := by
  intro ⟨s', hs', hmarks, _⟩
  have hmod : (⟨0x201000, 0x202000⟩ : MultibootModList).modStart.toNat =
      frameAddr smallGlobals.pmm 1 := rfl
  obtain ⟨s'', hs'', hpmm⟩ := (pmmInitUserTask_aligned hmod).2 (by decide)
  obtain rfl : s'' = s' := by rw [hs''] at hs'; cases hs'; rfl
  have hset : bit s''.pmm.bitmap 4096 = true := by
    rw [hpmm, bit_setAt (by decide)]
    rfl
  rcases hmarks _ hset with hold | hframe
  · rw [bit_smallGlobals] at hold
    cases hold
  · revert hframe
    decide

end Aosis.Memory.Pmm
