import Aosis.Memory.Kmalloc
import Aosis.Memory.Paging
import Aosis.Memory.PmmInit

/-!
# The virtual memory manager

`kernel/memory/vmm.c`.  The kernel's address space is divided into blocks of 1024 pages; a
descriptor holds the bitmap of its block, the number of free pages, and the addresses of the
first page and of the page table.  The linked list of descriptors is the list
`vmmBlockList`.  A new block's page table is put at page 1022 of the block before it, when
that block has handed out page 1021.

`vmm_add_vmm_block` gets its descriptor from `kmalloc`, which in turn may call
`vmm_alloc_page`; here `kmalloc` is a parameter, and the null pointer is not mapped.
-/

namespace Aosis.Memory.Vmm

open Aosis.Memory.Pmm Aosis.Memory.Paging

/-- `HIGH_WATER_THRESHOLD`. -/
def highWaterThreshold : Nat := 1022

/-- `struct vmm_block_desc`, without the link to the next one. -/
structure VmmBlockDesc where
  bitmap : Vector Word 32
  highWaterMark : Nat
  freePages : Nat
  firstPage : Nat
  pageTable : Nat

/-- `sizeof(struct vmm_block_desc)`. -/
def sizeofVmmBlockDesc : Nat := 148

/-- The descriptor that the words of memory from `ptr` on make up. -/
def VmmBlockDesc.load (mem : Nat → Nat) (ptr : Nat) : VmmBlockDesc where
  bitmap := Vector.ofFn fun i : Fin 32 => BitVec.ofNat 32 (mem (ptr + 4 * i))
  highWaterMark := mem (ptr + 128)
  freePages := mem (ptr + 132)
  firstPage := mem (ptr + 136)
  pageTable := mem (ptr + 140)

/-- The paging structures, the list of blocks, and the static variable of
`vmm_alloc_page`. -/
structure State where
  paging : Paging.Mem
  vmmBlockList : List VmmBlockDesc
  allocatingNewBlock : Bool

/-! ### The source -/

/-- A call of a function of `paging.c`. -/
def onPaging {α : Type} (x : Kern Paging.Mem α) : Kern State α :=
  x.zoom State.paging fun paging s => { s with paging := paging }

/-- `vmm_get_page_from_bitmap`: the index and the new bitmap.  The search stays inside the
array. -/
def vmmGetPageFromBitmap (bitmap : Vector Word 32) : Option (Nat × Vector Word 32) :=
  match scanBitmap bitmap 32 0 with
  | .ok (some (i, j)) => some (32 * i + j, bitmap.set i (setBit bitmap[i] j))
  | .ok none => none
  | .error _ => none

/-- `vmm_add_vmm_block`. -/
def vmmAddVmmBlock (kmalloc : Nat → Kern State Nat) (vmm_block : VmmBlockDesc) : Kern State Unit := do
  let new_vmm_block ← kmalloc sizeofVmmBlockDesc
  if new_vmm_block = 0 then throw (.pageFault 0)
  else
    let page_table := u32 (vmm_block.firstPage + highWaterThreshold * pageSize)
    let first_page := u32 (vmm_block.firstPage + pageTableRange)
    let phys_addr ← onPaging (pagingMapVirtualPage vmm_block.pageTable page_table)
    onPaging (pagingAddPageTable phys_addr first_page)
    onPaging (clearPage page_table)
    let desc : VmmBlockDesc :=
      { bitmap := Vector.replicate 32 0
        highWaterMark := 0
        freePages := pageTableIndices
        firstPage := first_page
        pageTable := page_table }
    modify fun s => { s with vmmBlockList := s.vmmBlockList ++ [desc] }

/-- `vmm_init`, with the descriptor as `kmalloc` returned it. -/
def vmmInit (initial_vmm_block : VmmBlockDesc) (initial_page_table : Nat) : Kern State Unit :=
  fun s =>
    let first_free_page := u32 (v2pAddr initial_page_table + pageSize) / pageSize
    let last_fully_occupied_bitmap_index := first_free_page >>> 5
    let remaining_pages := first_free_page % 32
    let remaining_bits_to_set := ~~~(0xFFFFFFFF#32 <<< remaining_pages)
    if h : last_fully_occupied_bitmap_index < 32 then
      let bitmap := Vector.ofFn fun i : Fin 32 =>
        if i < last_fully_occupied_bitmap_index then 0xFFFFFFFF#32 else initial_vmm_block.bitmap[i]
      let desc : VmmBlockDesc :=
        { bitmap := bitmap.set last_fully_occupied_bitmap_index remaining_bits_to_set
          highWaterMark := first_free_page
          freePages := sub32 pageTableIndices first_free_page
          firstPage := kernelBaseAddrVirt
          pageTable := initial_page_table }
      .ok () { s with vmmBlockList := [desc] }
    else .error .outOfBounds s

/-- The loop of `vmm_alloc_page`: where it stops, the address of the page and the descriptor
with the page taken. -/
def vmmFindPage : List VmmBlockDesc → Option (Nat × Nat × VmmBlockDesc)
  | [] => none
  | vmm_block :: rest =>
    let next := (vmmFindPage rest).map fun (k, found) => (k + 1, found)
    if vmm_block.freePages = 0 then next
    else
      match vmmGetPageFromBitmap vmm_block.bitmap with
      | none => next
      | some (index_in_bitmap, bitmap) =>
        let next_page := index_in_bitmap + 1
        some (0, u32 (vmm_block.firstPage + index_in_bitmap * pageSize),
          { vmm_block with
            bitmap := bitmap
            freePages := sub32 vmm_block.freePages 1
            highWaterMark :=
              if vmm_block.highWaterMark ≤ next_page then next_page else vmm_block.highWaterMark })

/-- The part of `vmm_alloc_page` that adds a block when the last one, at place `k`, is nearly
full. -/
def vmmReserveBlock (kmalloc : Nat → Kern State Nat) (k : Nat) (vmm_block : VmmBlockDesc) :
    Kern State Unit := fun s =>
  if vmm_block.highWaterMark = highWaterThreshold ∧ k + 1 = s.vmmBlockList.length ∧
      s.allocatingNewBlock = false then
    (do
      modify fun s => { s with allocatingNewBlock := true }
      vmmAddVmmBlock kmalloc vmm_block
      modify fun s => { s with allocatingNewBlock := false } : Kern State Unit) s
  else .ok () s

/-- The part of `vmm_alloc_page` that maps the page. -/
def vmmMapPage (vmm_page : Nat) (vmm_block : VmmBlockDesc) : Kern State Nat := do
  let is_vmm_page_mapped ← onPaging (pagingIsVirtualPagePresent vmm_block.pageTable vmm_page)
  if is_vmm_page_mapped then return vmm_page
  else
    let _ ← onPaging (pagingMapVirtualPage vmm_block.pageTable vmm_page)
    return vmm_page

/-- `vmm_alloc_page`. -/
def vmmAllocPage (kmalloc : Nat → Kern State Nat) : Kern State Nat := fun s =>
  match vmmFindPage s.vmmBlockList with
  | none => .error (.panic "out of memory\n") s
  | some (k, vmm_page, vmm_block) =>
    let s := { s with vmmBlockList := s.vmmBlockList.set k vmm_block }
    if vmm_page = 0 then .error (.panic "out of memory\n") s
    else
      (do
        vmmReserveBlock kmalloc k vmm_block
        vmmMapPage vmm_page vmm_block : Kern State Nat) s

/-- The loop of `vmm_free_page`: the list with the bit of the page cleared in the first block
whose range is found to have the page, if there is one.  The test of the range joins its two
halves with an or, and the index is that of the page in the kernel's whole address space. -/
def vmmClearPage (page : Nat) : List VmmBlockDesc → Option (Except Fault (List VmmBlockDesc))
  | [] => none
  | vmm_block :: rest =>
    let page_to_free := pageAlign page
    let page_table_base_page := vmm_block.firstPage
    let page_table_last_page := sub32 (u32 (vmm_block.firstPage + pageTableRange)) pageSize
    if page_table_base_page ≤ page_to_free ∨ page_to_free ≤ page_table_last_page then
      let page_index := v2pAddr page / pageSize
      let bitmap_index := page_index / 32
      let bit_in_bitmap := page_index % 32
      if h : bitmap_index < 32 then
        let bitmap := vmm_block.bitmap.set bitmap_index
          (clearBit vmm_block.bitmap[bitmap_index] bit_in_bitmap)
        some (.ok ({ vmm_block with bitmap := bitmap } :: rest))
      else some (.error .outOfBounds)
    else (vmmClearPage page rest).map fun r => r.map fun rest => vmm_block :: rest

/-- `vmm_free_page`. -/
def vmmFreePage (page : Nat) : Kern State Unit := fun s =>
  match vmmClearPage page s.vmmBlockList with
  | none => .error (.panic "invalid page provided\n") s
  | some (.error e) => .error e s
  | some (.ok vmm_block_list) => .ok () { s with vmmBlockList := vmm_block_list }

/-- The loop of `vmm_get_phys_addr`.  The test of the range joins its two halves with an or. -/
def vmmFindPhysAddr (vmm_page : Nat) : List VmmBlockDesc → Kern Paging.Mem Nat
  | [] => pure 0
  | vmm_block :: rest =>
    let page_table_base_page := vmm_block.firstPage
    let page_table_last_page := sub32 (u32 (vmm_block.firstPage + pageTableRange)) pageSize
    if page_table_base_page ≤ vmm_page ∨ vmm_page ≤ page_table_last_page then do
      let pt_entry ← loadEntry vmm_block.pageTable (pageTableIndex vmm_page)
      return u32 (pt_entry.physAddr <<< 12)
    else vmmFindPhysAddr vmm_page rest

/-- `vmm_get_phys_addr`. -/
def vmmGetPhysAddr (vmm_page : Nat) : Kern State Nat := fun s =>
  onPaging (vmmFindPhysAddr vmm_page s.vmmBlockList) s

/-! ### From power-on to `vmm_init` -/

/-- The descriptor that `vmm_init` gets from the heap, which `kmalloc_init` has set up in zeroed
memory.  There is no block of pages yet, so this heap cannot grow. -/
def bootDesc (image : KernelImage) : Except Fault VmmBlockDesc := do
  let vmm_alloc_page : Kern Kmalloc.Heap Nat := fun h => .error (.panic "out of memory\n") h
  let (initial_vmm_block, heap) ← (Kmalloc.kmalloc vmm_alloc_page sizeofVmmBlockDesc).exec
    (Kmalloc.kmallocInit image.kmallocInitBlock fun _ => 0)
  return VmmBlockDesc.load heap.mem initial_vmm_block

/-- `pmm_init`, `paging_init`, `kmalloc_init` and `vmm_init`, with the memory map of the boot
loader and `ram` as the contents of memory. -/
def boot (image : KernelImage) (mbt : MultibootInfo) (junk : Nat) (ram : Nat → Nat → PageEntry) :
    Except Fault State := do
  let (_, g) ← (pmmInit image mbt junk).exec .static
  let (initial_page_table, paging) ← (pagingInit image).exec (Paging.Mem.atEntry image g.pmm ram)
  let initial_vmm_block ← bootDesc image
  let (_, s) ← (vmmInit initial_vmm_block initial_page_table).exec ⟨paging, [], false⟩
  return s

end Aosis.Memory.Vmm
