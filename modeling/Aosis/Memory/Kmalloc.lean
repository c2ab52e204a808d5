import Aosis.Common.Word
import Mathlib.Logic.Function.Basic

/-!
# The kernel heap

`kernel/memory/kmalloc.c` keeps its free blocks in a singly linked list.  A block begins
with a header of two words, its size (header included) and the next block; a third field,
`free_memory`, lies in the first word of the payload.  The heap grows by pages that
`vmm_alloc_page` returns.

`Heap` is the memory the list lives in, word by word, with the two list pointers.  The loops
over the list get fuel for as many blocks as there are addresses: a loop that takes longer
has met a block twice and never ends.
-/

namespace Aosis.Memory.Kmalloc

/-- `BLOCK_HEADER_SIZE`. -/
def blockHeaderSize : Nat := 8

/-- `SMALLEST_BLOCK_SIZE`. -/
def smallestBlockSize : Nat := 32

/-- The memory, and `block_list_head` and `block_list_tail`. -/
structure Heap where
  mem : Nat → Nat
  head : Nat
  tail : Nat

namespace Heap

/-- `block->size`. -/
def size (h : Heap) (block : Nat) : Nat := h.mem block

/-- `block->next_block`. -/
def next (h : Heap) (block : Nat) : Nat := h.mem (block + 4)

/-- `block->free_memory`. -/
def freeMemory (h : Heap) (block : Nat) : Nat := h.mem (block + 8)

/-- Store the word `v` at the address `a`. -/
def store (h : Heap) (a v : Nat) : Heap := { h with mem := Function.update h.mem a v }

/-- `block->size = v`. -/
def setSize (h : Heap) (block v : Nat) : Heap := h.store block v

/-- `block->next_block = v`. -/
def setNext (h : Heap) (block v : Nat) : Heap := h.store (block + 4) v

/-- `block->free_memory = v`. -/
def setFreeMemory (h : Heap) (block v : Nat) : Heap := h.store (block + 8) v

end Heap

/-- The number of turns after which a loop over the list has met a block twice. -/
def loopFuel : Nat := 2 ^ 32

/-- `kmalloc_split_block`. -/
def kmallocSplitBlock (block alloc_size : Nat) (h : Heap) : Nat × Heap :=
  let new_block := sub32 (u32 (block + h.size block)) (u32 (alloc_size + blockHeaderSize))
  let h := h.setSize new_block (u32 (alloc_size + blockHeaderSize))
  let h := h.setNext new_block 0
  let h := h.setFreeMemory new_block (u32 (blockHeaderSize + new_block))
  let h := h.setSize block (sub32 (h.size block) (h.size new_block))
  (h.freeMemory new_block, h)

/-- The part of `kmalloc_coalesce` that looks at the next block. -/
def kmallocCoalesceNext (new_block next_block : Nat) (h : Heap) : Heap :=
  if next_block ≠ 0 ∧ next_block = u32 (new_block + h.size new_block) then
    let h := h.setNext new_block (h.next next_block)
    let h := h.setSize new_block (u32 (h.size new_block + h.size next_block))
    if h.tail = next_block then { h with tail := new_block } else h
  else h

/-- The part of `kmalloc_coalesce` that looks at the previous block. -/
def kmallocCoalescePrev (prev_block new_block : Nat) (h : Heap) : Heap :=
  if prev_block ≠ 0 ∧ new_block = u32 (prev_block + h.size prev_block) then
    let h := h.setNext prev_block (h.next new_block)
    h.setSize prev_block (u32 (h.size prev_block + h.size new_block))
  else h

/-- `kmalloc_coalesce`. -/
def kmallocCoalesce (prev_block new_block next_block : Nat) (h : Heap) : Heap :=
  kmallocCoalescePrev prev_block new_block (kmallocCoalesceNext new_block next_block h)

/-- `kmalloc_init`, with the address of `kmalloc_init_block`. -/
def kmallocInit (kmalloc_init_block : Nat) (mem : Nat → Nat) : Heap :=
  let h : Heap := { mem := mem, head := kmalloc_init_block, tail := kmalloc_init_block }
  let h := h.setSize kmalloc_init_block 4096
  let h := h.setNext kmalloc_init_block 0
  h.setFreeMemory kmalloc_init_block (u32 (blockHeaderSize + kmalloc_init_block))

/-- The rounded size, `((size + 0b111) >> 3) << 3`. -/
def kmallocRound (size : Nat) : Nat := u32 ((u32 (size + 0b111) >>> 3) <<< 3)

/-- The loop of `kmalloc`: the first block with enough free memory. -/
def kmallocFind (h : Heap) (alloc_size : Nat) : Nat → Nat → Except Fault (Option Nat)
  | 0, _ => .error .diverge
  | fuel + 1, block =>
    if block = 0 then .ok none
    else if alloc_size ≤ sub32 (h.size block) blockHeaderSize then .ok (some block)
    else kmallocFind h alloc_size fuel (h.next block)

/-- What `kmalloc` does with the block it has found: the allocated pointer and the heap. -/
def kmallocTake (block alloc_size : Nat) (h : Heap) : Nat × Heap :=
  let mem_left_over := sub32 (sub32 (h.size block) blockHeaderSize) alloc_size
  if smallestBlockSize ≤ mem_left_over then kmallocSplitBlock block alloc_size h
  else (h.freeMemory block, h)

/-- The growth step of `kmalloc`, on the page it got. -/
def kmallocGrow (new_free_block : Nat) (h : Heap) : Heap :=
  let h := h.setSize new_free_block pageSize
  let h := h.setFreeMemory new_free_block (u32 (new_free_block + blockHeaderSize))
  let h := h.setNext new_free_block 0
  h.setNext h.tail new_free_block

/-- `kmalloc`, with `vmm_alloc_page` as a parameter. -/
def kmalloc (vmm_alloc_page : Kern Heap Nat) (size : Nat) : Kern Heap Nat := fun h =>
  if size = 0 then .ok 0 h
  else
    let alloc_size := kmallocRound size
    match kmallocFind h alloc_size loopFuel h.head with
    | .error e => .error e h
    | .ok found =>
      let (alloc_ptr, h) := match found with
        | some block => kmallocTake block alloc_size h
        | none => (0, h)
      if alloc_ptr = 0 then
        match vmm_alloc_page h with
        | .error e h => .error e h
        | .ok page h => .ok 0 (kmallocGrow page h)
      else .ok alloc_ptr h

/-- The loop of `kfree`: the blocks before and after the place of `new_block`, or two null
pointers. -/
def kfreeFind (h : Heap) (new_block : Nat) : Nat → Nat → Except Fault (Nat × Nat)
  | 0, _ => .error .diverge
  | fuel + 1, block =>
    if block = 0 then .ok (0, 0)
    else if block < new_block ∧ (new_block < h.next block ∨ h.next block = 0) then
      .ok (block, h.next block)
    else kfreeFind h new_block fuel (h.next block)

/-- The part of `kfree` that links the block in. -/
def kfreeLink (prev_block new_block next_block : Nat) (h : Heap) : Heap :=
  if prev_block = 0 then { h.setNext new_block next_block with head := new_block }
  else if next_block = 0 then
    { (h.setNext prev_block new_block).setNext new_block 0 with tail := new_block }
  else (h.setNext prev_block new_block).setNext new_block next_block

/-- `kfree`. -/
def kfree (ptr : Nat) : Kern Heap Unit := fun h =>
  if ptr = 0 then .ok () h
  else
    let new_block := sub32 ptr blockHeaderSize
    let place := if new_block < h.head then .ok (0, h.head)
      else kfreeFind h new_block loopFuel h.head
    match place with
    | .error e => .error e h
    | .ok (prev_block, next_block) =>
      .ok () (kmallocCoalesce prev_block new_block next_block
        (kfreeLink prev_block new_block next_block h))

end Aosis.Memory.Kmalloc
