import Aosis.Lib.Extent
import Aosis.Lib.Path
import Aosis.Memory.Kmalloc

/-!
# The free list

`Linked h free`: the blocks `free`, one after the other, are the free list of the heap `h`.
The blocks are pairwise apart; nothing is said about their order, where they lie or what
else there is in memory.

* `Linked.find_cases`: the search of `kmalloc` ends, at the first block with room.
* `kmallocSplitBlock_eq`: `kmalloc_split_block` makes a block of the end of another one.
* `Linked.cut`: this shortens the other one in place.
-/

namespace Aosis.Memory.Kmalloc

open Aosis.Lib Aosis.Lib.Extent

/-! ### Stores and fields -/

namespace Heap

variable {h : Heap} {a b v : Nat}

theorem store_mem : (h.store a v).mem b = if b = a then v else h.mem b :=
  Function.update_apply h.mem a v b

@[simp] theorem tail_setSize : (h.setSize b v).tail = h.tail := rfl

@[simp] theorem tail_setNext : (h.setNext b v).tail = h.tail := rfl

@[simp] theorem tail_setFreeMemory : (h.setFreeMemory b v).tail = h.tail := rfl

theorem next_setNext : (h.setNext b v).next = Function.update h.next b v := by
  funext a
  rw [next, setNext, store_mem, Function.update_apply]
  simp [next]

theorem next_setSize (ha : a % 8 = 0) (hb : b % 8 = 0) :
    (h.setSize b v).next a = h.next a := by
  rw [next, setSize, store_mem, if_neg (by omega), next]

theorem next_setFreeMemory (ha : a % 8 = 0) (hb : b % 8 = 0) :
    (h.setFreeMemory b v).next a = h.next a := by
  rw [next, setFreeMemory, store_mem, if_neg (by omega), next]

theorem size_setNext (ha : a % 8 = 0) (hb : b % 8 = 0) :
    (h.setNext b v).size a = h.size a := by
  rw [size, setNext, store_mem, if_neg (by omega), size]

theorem size_setSize : (h.setSize b v).size a = if a = b then v else h.size a := by
  rw [size, setSize, store_mem, size]

theorem size_setFreeMemory : (h.setFreeMemory b v).size a = if a = b + 8 then v else h.size a := by
  rw [size, setFreeMemory, store_mem, size]

theorem freeMemory_setFreeMemory : (h.setFreeMemory b v).freeMemory b = v := by
  rw [freeMemory, setFreeMemory, store_mem, if_pos rfl]

theorem freeMemory_setSize (hab : a + 8 ≠ b) : (h.setSize b v).freeMemory a = h.freeMemory a := by
  rw [freeMemory, setSize, store_mem, if_neg hab, freeMemory]

theorem freeMemory_setNext (hab : a + 8 ≠ b + 4) :
    (h.setNext b v).freeMemory a = h.freeMemory a := by
  rw [freeMemory, setNext, store_mem, if_neg hab, freeMemory]

end Heap

/-! ### Blocks -/

/-- A block has a header, and its bytes are the addresses of words. -/
structure IsBlock (b : Extent) : Prop where
  pos : 0 < b.start
  header : blockHeaderSize ≤ b.len
  le : b.start + b.len ≤ 2 ^ 32

theorem IsBlock.len_pos {b : Extent} (hb : IsBlock b) : 0 < b.len := by
  have := hb.header
  rw [blockHeaderSize] at this
  omega

/-- The free list consists of the blocks `free`. -/
structure Linked (h : Heap) (free : List Extent) : Prop where
  links : Path h.next h.head (free.map Extent.start) 0
  sizes : ∀ b ∈ free, h.size b.start = b.len
  separate : Separate free
  blocks : ∀ b ∈ free, IsBlock b

namespace Linked

variable {h : Heap} {free : List Extent}

theorem nodup (hl : Linked h free) : (free.map Extent.start).Nodup :=
  hl.separate.nodup_starts fun c hc => (hl.blocks c hc).len_pos

theorem length_lt (hl : Linked h free) : free.length < loopFuel := by
  refine hl.separate.length_lt (fun c hc => (hl.blocks c hc).len_pos)
    (fun c hc => (hl.blocks c hc).pos) ?_ (by decide)
  intro c hc
  have h₁ := (hl.blocks c hc).len_pos
  have h₂ := (hl.blocks c hc).le
  rw [loopFuel]
  omega

end Linked

/-! ### The search of `kmalloc` -/

theorem kmallocFind_path {h : Heap} {s : Nat} {free : List Extent}
    (hfree : ∀ b ∈ free, h.size b.start = b.len ∧ IsBlock b) {a fuel : Nat}
    (hp : Path h.next a (free.map Extent.start) 0) (hfuel : free.length < fuel) :
    kmallocFind h s fuel a = .ok ((free.find? (fun b => s + 8 ≤ b.len)).map Extent.start) := by
  induction free generalizing a fuel with
  | nil =>
    obtain ⟨fuel, rfl⟩ := Nat.exists_eq_succ_of_ne_zero (by omega : fuel ≠ 0)
    obtain rfl : a = 0 := hp
    rfl
  | cons b free ih =>
    obtain ⟨fuel, rfl⟩ := Nat.exists_eq_succ_of_ne_zero (by omega : fuel ≠ 0)
    obtain ⟨rfl, hrest⟩ := hp
    obtain ⟨hsize, hblock⟩ := hfree b List.mem_cons_self
    have hpos := hblock.pos
    have hlen := hblock.header
    have hle := hblock.le
    rw [blockHeaderSize] at hlen
    rw [kmallocFind, if_neg (by omega), hsize, blockHeaderSize,
      sub32_of_le (by omega) (by omega)]
    by_cases hs : s + 8 ≤ b.len
    · rw [if_pos (by omega), List.find?_cons_of_pos (by simpa using hs)]
      rfl
    · rw [if_neg (by omega), List.find?_cons_of_neg (by simpa using hs)]
      rw [List.length_cons] at hfuel
      exact ih (fun c hc => hfree c (List.mem_cons_of_mem b hc)) hrest (by omega)

namespace Linked

variable {h : Heap} {free : List Extent} {s : Nat}

theorem find_eq (hl : Linked h free) (s : Nat) :
    kmallocFind h s loopFuel h.head =
      .ok ((free.find? (fun b => s + 8 ≤ b.len)).map Extent.start) :=
  kmallocFind_path (fun b hb => ⟨hl.sizes b hb, hl.blocks b hb⟩) hl.links hl.length_lt

theorem find_cases (hl : Linked h free) (s : Nat) :
    (kmallocFind h s loopFuel h.head = .ok none ∧ ∀ c ∈ free, c.len < s + 8) ∨
      ∃ f₁ b f₂, free = f₁ ++ b :: f₂ ∧ kmallocFind h s loopFuel h.head = .ok (some b.start) ∧
        s + 8 ≤ b.len ∧ ∀ c ∈ f₁, c.len < s + 8 := by
  rw [hl.find_eq]
  cases hfind : free.find? (fun b => s + 8 ≤ b.len) with
  | none =>
    refine Or.inl ⟨rfl, ?_⟩
    intro c hc
    simpa using List.find?_eq_none.mp hfind c hc
  | some b =>
    obtain ⟨hb, f₁, f₂, rfl, hf₁⟩ := List.find?_eq_some_iff_append.mp hfind
    refine Or.inr ⟨f₁, b, f₂, rfl, rfl, of_decide_eq_true hb, ?_⟩
    intro c hc
    simpa using hf₁ c hc

theorem of_find_eq {block : Nat} (hl : Linked h free)
    (hfind : kmallocFind h s loopFuel h.head = .ok (some block)) :
    ∃ f₁ b f₂, free = f₁ ++ b :: f₂ ∧ b.start = block ∧ s + 8 ≤ b.len ∧ ∀ c ∈ f₁, c.len < s + 8 := by
  rcases hl.find_cases s with ⟨hnone, -⟩ | ⟨f₁, b, f₂, rfl, hsome, hroom, hf₁⟩
  · rw [hfind] at hnone
    cases hnone
  · rw [hfind] at hsome
    cases hsome
    exact ⟨f₁, b, f₂, rfl, rfl, hroom, hf₁⟩

end Linked

theorem left_over_eq {h : Heap} {b : Extent} {s : Nat} (hb : IsBlock b)
    (hsize : h.size b.start = b.len) (hs : s + 8 ≤ b.len) :
    sub32 (sub32 (h.size b.start) blockHeaderSize) s = b.len - 8 - s := by
  have hpos := hb.pos
  have hle := hb.le
  rw [hsize, blockHeaderSize, sub32_of_le (a := b.len) (by omega) (by omega),
    sub32_of_le (by omega) (by omega)]

theorem size_ne_zero_of_kmalloc {h h' : Heap} {vmm_alloc_page : Kern Heap Nat} {size p : Nat}
    (hk : kmalloc vmm_alloc_page size h = .ok p h') (hp : p ≠ 0) : size ≠ 0 := by
  rintro rfl
  rw [kmalloc, if_pos rfl] at hk
  cases hk
  exact hp rfl

theorem kmalloc_of_take {h h' : Heap} {vmm_alloc_page : Kern Heap Nat} {size s b p : Nat}
    (h0 : size ≠ 0) (hs : kmallocRound size = s)
    (hfind : kmallocFind h s loopFuel h.head = .ok (some b)) (htake : kmallocTake b s h = (p, h'))
    (hp : p ≠ 0) : kmalloc vmm_alloc_page size h = .ok p h' := by
  rw [kmalloc, if_neg h0]
  dsimp only
  rw [hs, hfind]
  dsimp only
  simp only [htake, if_neg hp]

/-! ### Cutting a block -/

namespace Heap

/-- The heap with the header of a new block at `n`, as `kmalloc_split_block` stores it. -/
def putHeader (h : Heap) (n alloc_size : Nat) : Heap :=
  ((h.setSize n (u32 (alloc_size + blockHeaderSize))).setNext n 0).setFreeMemory n
    (u32 (blockHeaderSize + n))

/-- The heap that `kmalloc_split_block` leaves when the new block lies at `n`. -/
def cut (h : Heap) (block n alloc_size : Nat) : Heap :=
  (h.putHeader n alloc_size).setSize block
    (sub32 ((h.putHeader n alloc_size).size block) ((h.putHeader n alloc_size).size n))

variable {h : Heap} {n s b x : Nat}

theorem cut_mem (hb : x ≠ b) (hn : x ≠ n) (hn4 : x ≠ n + 4) (hn8 : x ≠ n + 8) :
    (h.cut b n s).mem x = h.mem x := by
  rw [cut, setSize, store_mem, if_neg hb, putHeader, setFreeMemory, store_mem, if_neg hn8, setNext,
    store_mem, if_neg hn4, setSize, store_mem, if_neg hn]

theorem size_putHeader_self : (h.putHeader n s).size n = u32 (s + blockHeaderSize) := by
  rw [size, putHeader, setFreeMemory, store_mem, if_neg (by omega), setNext, store_mem,
    if_neg (by omega), setSize, store_mem, if_pos rfl]

theorem size_putHeader (hn : b ≠ n) (hn4 : b ≠ n + 4) (hn8 : b ≠ n + 8) :
    (h.putHeader n s).size b = h.size b := by
  rw [size, putHeader, setFreeMemory, store_mem, if_neg hn8, setNext, store_mem, if_neg hn4, setSize,
    store_mem, if_neg hn, size]

theorem size_cut_new (hb : n ≠ b) : (h.cut b n s).size n = u32 (s + blockHeaderSize) := by
  rw [cut, size_setSize, if_neg hb, size_putHeader_self]

theorem size_cut (hn : b ≠ n) (hn4 : b ≠ n + 4) (hn8 : b ≠ n + 8) :
    (h.cut b n s).size b = sub32 (h.size b) (u32 (s + blockHeaderSize)) := by
  rw [cut, size_setSize, if_pos rfl, size_putHeader hn hn4 hn8, size_putHeader_self]

theorem freeMemory_cut_new (hb : n + 8 ≠ b) :
    (h.cut b n s).freeMemory n = u32 (blockHeaderSize + n) := by
  rw [cut, freeMemory_setSize hb, putHeader, freeMemory_setFreeMemory]

end Heap

theorem kmallocSplitBlock_cut (h : Heap) (block alloc_size : Nat) :
    kmallocSplitBlock block alloc_size h =
      let n := sub32 (u32 (block + h.size block)) (u32 (alloc_size + blockHeaderSize))
      ((h.cut block n alloc_size).freeMemory n, h.cut block n alloc_size) := rfl

section Cut

variable {h : Heap} {b c : Extent} {s n : Nat}

theorem sizes_cut (hle : b.start + b.len ≤ 2 ^ 32) (hsize : h.size b.start = b.len)
    (hn : n + (s + 8) = b.start + b.len) (hb : b.start + 16 ≤ n) :
    (h.cut b.start n s).size b.start = b.len - (s + 8) ∧ (h.cut b.start n s).size n = s + 8 := by
  have hs : u32 (s + blockHeaderSize) = s + 8 := u32_of_lt (by rw [blockHeaderSize]; omega)
  rw [Heap.size_cut (by omega) (by omega) (by omega), Heap.size_cut_new (by omega), hsize, hs]
  refine ⟨?_, rfl⟩
  unfold sub32 u32
  omega

theorem cut_mem_of_apart (h8 : 8 ≤ s) (hn : n + (s + 8) = b.start + b.len)
    (hb : b.start + 16 ≤ n) (hbc : Apart b c) {k : Nat} (hk : k < c.len) :
    (h.cut b.start n s).mem (c.start + k) = h.mem (c.start + k) := by
  unfold Apart at hbc
  exact Heap.cut_mem (by omega) (by omega) (by omega) (by omega)

/-- What `kmalloc_split_block` does to a block with room.  The payload of an empty block at the end of
the memory would start at `2 ^ 32`. -/
theorem kmallocSplitBlock_u32 (hle : b.start + b.len ≤ 2 ^ 32) (hsize : h.size b.start = b.len)
    (hn : n + (s + 8) = b.start + b.len) (hb : b.start + 16 ≤ n) :
    kmallocSplitBlock b.start s h = (u32 (n + 8), h.cut b.start n s) := by
  have hnew : sub32 (u32 (b.start + h.size b.start)) (u32 (s + blockHeaderSize)) = n := by
    rw [hsize, blockHeaderSize]
    unfold sub32 u32
    omega
  rw [kmallocSplitBlock_cut, hnew]
  dsimp only
  rw [Heap.freeMemory_cut_new (by omega), blockHeaderSize, Nat.add_comm]

theorem kmallocSplitBlock_eq (hle : b.start + b.len ≤ 2 ^ 32) (hsize : h.size b.start = b.len)
    (h8 : 8 ≤ s) (hn : n + (s + 8) = b.start + b.len) (hb : b.start + 16 ≤ n) :
    kmallocSplitBlock b.start s h = (n + 8, h.cut b.start n s) := by
  rw [kmallocSplitBlock_u32 hle hsize hn hb, u32_of_lt (by omega)]

end Cut

namespace Linked

variable {h : Heap} {f₁ f₂ : List Extent} {b : Extent} {s n : Nat}

theorem apart_of_mem {c : Extent} (hl : Linked h (f₁ ++ b :: f₂)) (hc : c ∈ f₁ ++ f₂) :
    Apart b c :=
  (Separate.cons_iff.mp (hl.separate.perm List.perm_middle)).1 c hc

/-- **Cutting a block of the list** shortens it in place. -/
theorem cut (hl : Linked h (f₁ ++ b :: f₂)) (hn : n + (s + 8) = b.start + b.len)
    (hb : b.start + 16 ≤ n) (hothers : ∀ c ∈ f₁ ++ f₂,
      (h.cut b.start n s).size c.start = h.size c.start ∧
        (h.cut b.start n s).next c.start = h.next c.start) :
    Linked (h.cut b.start n s) (f₁ ++ ⟨b.start, b.len - (s + 8)⟩ :: f₂) := by
  have hbm : b ∈ f₁ ++ b :: f₂ := List.mem_append_right f₁ List.mem_cons_self
  have hblock := hl.blocks b hbm
  have hle := hblock.le
  have hmem : ∀ c ∈ f₁ ++ f₂, c ∈ f₁ ++ b :: f₂ := fun c hc =>
    List.perm_middle.mem_iff.mpr (List.mem_cons_of_mem b hc)
  have hsep := Separate.cons_iff.mp (hl.separate.perm List.perm_middle)
  have hmap : (f₁ ++ (⟨b.start, b.len - (s + 8)⟩ : Extent) :: f₂).map Extent.start =
      (f₁ ++ b :: f₂).map Extent.start := by
    rw [List.map_append, List.map_append, List.map_cons, List.map_cons]
  refine ⟨?_, ?_, ?_, ?_⟩
  · rw [hmap]
    apply hl.links.congr
    intro x hx
    obtain ⟨c, hc, rfl⟩ := List.mem_map.mp hx
    rcases List.mem_cons.mp (List.perm_middle.mem_iff.mp hc) with rfl | hc
    · exact Heap.cut_mem (by omega) (by omega) (by omega) (by omega)
    · exact (hothers c hc).2
  · intro c hc
    rcases List.mem_cons.mp (List.perm_middle.mem_iff.mp hc) with rfl | hc
    · exact (sizes_cut hle (hl.sizes b hbm) hn hb).1
    · rw [(hothers c hc).1, hl.sizes c (hmem c hc)]
  · apply (hsep.2.cons fun c hc => ?_).perm List.perm_middle.symm
    exact (hsep.1 c hc).of_le le_rfl (by dsimp only; omega)
  · intro c hc
    rcases List.mem_cons.mp (List.perm_middle.mem_iff.mp hc) with rfl | hc
    · exact ⟨hblock.pos, by rw [blockHeaderSize]; dsimp only; omega, by dsimp only; omega⟩
    · exact hl.blocks c (hmem c hc)

end Linked

end Aosis.Memory.Kmalloc
