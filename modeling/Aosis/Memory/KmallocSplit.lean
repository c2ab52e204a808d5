import Aosis.Memory.KmallocSafe

/-!
# The block that `kmalloc` cuts

When `kmalloc` finds a block with `SMALLEST_BLOCK_SIZE` bytes to spare it cuts the request off its end.
Nothing is assumed here about where the blocks of the list come from, or that their addresses are
aligned.

* `WellFormed.cut`: the list stays well-formed.
* `WellFormed.noUnderflow`: the operands of the four subtractions.
* `kmalloc_splits`: the block is the first one with room, its end becomes the new block, the rest of it
  stays on the list, and nothing else changes.
-/

namespace Aosis.Memory.Kmalloc

open Aosis.Lib Aosis.Lib.Extent

/-! ### Free lists -/

/-- A well-formed free list: the blocks ascend and are disjoint, they have at least 16 bytes and a
multiple of 8, and the sum of the address and the size of a block does not wrap. -/
structure WellFormed (h : Heap) (free : List Extent) : Prop where
  linked : Linked h free
  ascending : free.Pairwise fun a b => a.start < b.start
  len_ge : ∀ b ∈ free, 16 ≤ b.len
  len_mod : ∀ b ∈ free, b.len % 8 = 0
  end_lt : ∀ b ∈ free, b.start + b.len < 2 ^ 32

/-- The size rounded up to a multiple of 8. -/
def round8 (size : Nat) : Nat := (size + 7) / 8 * 8

/-- `kmalloc(size)` takes the split path: its search ends at `block`, and enough of this block would be
left over. -/
structure TakesSplit (h : Heap) (size block : Nat) : Prop where
  size_ne : size ≠ 0
  find : kmallocFind h (kmallocRound size) loopFuel h.head = .ok (some block)
  left : smallestBlockSize ≤ sub32 (sub32 (h.size block) blockHeaderSize) (kmallocRound size)

/-- No subtraction underflows: that of the header in the search, which looks at the blocks `seen`, that
of the bytes left over, that of the address `n` of the new block, and that of the size. -/
structure NoUnderflow (h : Heap) (seen : List Extent) (block alloc_size n : Nat) : Prop where
  free : ∀ c ∈ seen, blockHeaderSize ≤ h.size c.start
  left : alloc_size ≤ sub32 (h.size block) blockHeaderSize
  address : u32 (alloc_size + blockHeaderSize) ≤ u32 (block + h.size block)
  size : (h.putHeader n alloc_size).size n ≤ (h.putHeader n alloc_size).size block

/-- What a call leaves that cuts `s` bytes and a header off the block `b`, which comes after `f₁` and
before `f₂` on the list.  The new block lies at `n`. -/
structure SplitLaw (h h' : Heap) (f₁ : List Extent) (b : Extent) (f₂ : List Extent) (n s : Nat) :
    Prop where
  room : s + blockHeaderSize ≤ b.len
  first : ∀ c ∈ f₁, c.len < s + blockHeaderSize
  size_new : h'.size n = s + blockHeaderSize
  suffix : n + h'.size n = b.start + b.len
  tiles : b.start + h'.size b.start = n
  size_ge : smallestBlockSize ≤ h'.size b.start
  link : h'.next b.start = h.next b.start
  nodes : ∀ c ∈ f₁ ++ f₂, h'.size c.start = h.size c.start ∧ h'.next c.start = h.next c.start ∧
    h'.freeMemory c.start = h.freeMemory c.start
  outside : ∀ x, x + 4 ≤ b.start ∨ b.start + b.len ≤ x → h'.mem x = h.mem x
  list : WellFormed h' (f₁ ++ ⟨b.start, h'.size b.start⟩ :: f₂)
  noUnderflow : NoUnderflow h (f₁ ++ [b]) b.start s n

/-! ### The split path -/

namespace WellFormed

variable {h : Heap} {free f₁ f₂ : List Extent} {b : Extent} {s n : Nat}

theorem nodes_cut (hw : WellFormed h (f₁ ++ b :: f₂)) (h8 : 8 ≤ s)
    (hn : n + (s + 8) = b.start + b.len) (hb : b.start + 16 ≤ n) {c : Extent} (hc : c ∈ f₁ ++ f₂) :
    (h.cut b.start n s).size c.start = h.size c.start ∧
      (h.cut b.start n s).next c.start = h.next c.start ∧
      (h.cut b.start n s).freeMemory c.start = h.freeMemory c.start := by
  have hlen := hw.len_ge c (List.perm_middle.mem_iff.mpr (List.mem_cons_of_mem b hc))
  have hapart := hw.linked.apart_of_mem hc
  exact ⟨cut_mem_of_apart h8 hn hb hapart (k := 0) (by omega),
    cut_mem_of_apart h8 hn hb hapart (k := 4) (by omega),
    cut_mem_of_apart h8 hn hb hapart (k := 8) (by omega)⟩

theorem cut (hw : WellFormed h (f₁ ++ b :: f₂)) (hmod : s % 8 = 0) (h8 : 8 ≤ s)
    (hn : n + (s + 8) = b.start + b.len) (hb : b.start + 16 ≤ n) :
    WellFormed (h.cut b.start n s) (f₁ ++ ⟨b.start, b.len - (s + 8)⟩ :: f₂) := by
  have hbm : b ∈ f₁ ++ b :: f₂ := List.mem_append_right f₁ List.mem_cons_self
  have hlm := hw.len_mod b hbm
  have hlt := hw.end_lt b hbm
  have hmem : ∀ c ∈ f₁ ++ f₂, c ∈ f₁ ++ b :: f₂ := fun c hc =>
    List.perm_middle.mem_iff.mpr (List.mem_cons_of_mem b hc)
  have hblocks : ∀ c ∈ f₁ ++ (⟨b.start, b.len - (s + 8)⟩ : Extent) :: f₂,
      16 ≤ c.len ∧ c.len % 8 = 0 ∧ c.start + c.len < 2 ^ 32 := by
    intro c hc
    rcases List.mem_cons.mp (List.perm_middle.mem_iff.mp hc) with rfl | hc
    · dsimp only
      omega
    · exact ⟨hw.len_ge c (hmem c hc), hw.len_mod c (hmem c hc), hw.end_lt c (hmem c hc)⟩
  refine ⟨hw.linked.cut hn hb fun c hc => ?_, ?_, fun c hc => (hblocks c hc).1,
    fun c hc => (hblocks c hc).2.1, fun c hc => (hblocks c hc).2.2⟩
  · obtain ⟨hsize, hnext, -⟩ := hw.nodes_cut h8 hn hb hc
    exact ⟨hsize, hnext⟩
  · -- the starts are what they were
    have hstarts : ((f₁ ++ b :: f₂).map Extent.start).Pairwise (· < ·) :=
      List.pairwise_map.mpr hw.ascending
    rw [List.map_append, List.map_cons] at hstarts
    rw [← List.pairwise_map (R := (· < ·)), List.map_append, List.map_cons]
    exact hstarts

/-- No subtraction underflows, because the block has room and its end is a word. -/
theorem noUnderflow (hw : WellFormed h (f₁ ++ b :: f₂)) (hroom : s + 8 ≤ b.len)
    (hn : n + (s + 8) = b.start + b.len) (hb : b.start + 16 ≤ n) :
    NoUnderflow h (f₁ ++ [b]) b.start s n := by
  have hbm : b ∈ f₁ ++ b :: f₂ := List.mem_append_right f₁ List.mem_cons_self
  have hsize := hw.linked.sizes b hbm
  have hlt := hw.end_lt b hbm
  have hs : u32 (s + 8) = s + 8 := u32_of_lt (by omega)
  refine ⟨?_, ?_, ?_, ?_⟩
  · intro c hc
    have hcm : c ∈ f₁ ++ b :: f₂ := by
      rw [List.append_cons]
      exact List.mem_append_left f₂ hc
    rw [hw.linked.sizes c hcm]
    exact (hw.linked.blocks c hcm).header
  · rw [hsize, blockHeaderSize, sub32_of_le (by omega) (by omega)]
    omega
  · rw [hsize, blockHeaderSize, hs, u32_of_lt hlt]
    omega
  · rw [Heap.size_putHeader_self, Heap.size_putHeader (by omega) (by omega) (by omega), hsize,
      blockHeaderSize, hs]
    exact hroom

/-- **What cutting a block leaves.** -/
theorem splitLaw (hw : WellFormed h (f₁ ++ b :: f₂)) (hmod : s % 8 = 0) (h8 : 8 ≤ s)
    (hleft : s + 8 + 32 ≤ b.len) (hfirst : ∀ c ∈ f₁, c.len < s + 8)
    (hn : n + (s + 8) = b.start + b.len) : SplitLaw h (h.cut b.start n s) f₁ b f₂ n s := by
  have hbm : b ∈ f₁ ++ b :: f₂ := List.mem_append_right f₁ List.mem_cons_self
  have hb : b.start + 16 ≤ n := by omega
  have hlt := hw.end_lt b hbm
  obtain ⟨hsb, hsn⟩ := sizes_cut hlt.le (hw.linked.sizes b hbm) hn hb
  have hroom : s + blockHeaderSize ≤ b.len := by
    rw [blockHeaderSize]
    omega
  have htiles : b.start + (h.cut b.start n s).size b.start = n := by
    rw [hsb]
    omega
  have hge : smallestBlockSize ≤ (h.cut b.start n s).size b.start := by
    rw [hsb, smallestBlockSize]
    omega
  have hlink : (h.cut b.start n s).next b.start = h.next b.start :=
    Heap.cut_mem (by omega) (by omega) (by omega) (by omega)
  refine ⟨hroom, hfirst, hsn, by rw [hsn, hn], htiles, hge, hlink,
    fun c hc => hw.nodes_cut h8 hn hb hc, ?_, ?_, hw.noUnderflow hroom hn hb⟩
  · intro x hx
    exact Heap.cut_mem (by omega) (by omega) (by omega) (by omega)
  · rw [hsb]
    exact hw.cut hmod h8 hn hb

end WellFormed

/-- **First fit with an exact split.**  On every well-formed free list, and for every size on which
`kmalloc` takes the split path, the block is the first one with room.  The new block is the end of it,
the rest stays on the list, the two tile the old block, and no subtraction underflows. -/
theorem kmalloc_splits {h : Heap} {free : List Extent} {size block : Nat} (hw : WellFormed h free)
    (hsize : size ≤ 2 ^ 32 - 16) (hsplit : TakesSplit h size block)
    (vmm_alloc_page : Kern Heap Nat) :
    ∃ f₁ b f₂ n h', free = f₁ ++ b :: f₂ ∧ b.start = block ∧
      kmalloc vmm_alloc_page size h = .ok (n + 8) h' ∧ SplitLaw h h' f₁ b f₂ n (round8 size) := by
  have hround : kmallocRound size = round8 size := kmallocRound_eq (by omega)
  have h0 := hsplit.size_ne
  have hmod : round8 size % 8 = 0 := Nat.mul_mod_left _ 8
  have h8 : 8 ≤ round8 size := by
    unfold round8
    omega
  have hfind := hsplit.find
  have hleft := hsplit.left
  rw [hround] at hfind hleft
  obtain ⟨f₁, b, f₂, rfl, rfl, hroom, hfirst⟩ := hw.linked.of_find_eq hfind
  have hbm : b ∈ f₁ ++ b :: f₂ := List.mem_append_right f₁ List.mem_cons_self
  have hb := hw.linked.sizes b hbm
  have hlt := hw.end_lt b hbm
  have hmargin : round8 size + 8 + 32 ≤ b.len := by
    rw [left_over_eq (hw.linked.blocks b hbm) hb hroom, smallestBlockSize] at hleft
    omega
  have hn : b.start + b.len - (round8 size + 8) + (round8 size + 8) = b.start + b.len := by omega
  refine ⟨f₁, b, f₂, b.start + b.len - (round8 size + 8), _, rfl, rfl, ?_,
    hw.splitLaw hmod h8 hmargin hfirst hn⟩
  refine kmalloc_of_take h0 hround hfind ?_ (Nat.succ_ne_zero _)
  rw [kmallocTake, if_pos hleft, kmallocSplitBlock_eq hlt.le hb h8 hn (by omega)]

/-! ### Two blocks -/

/-- A memory with two free blocks, of 16 and of 64 bytes. -/
def twoBlocks : Heap :=
  ⟨fun a => if a = 64 then 16 else if a = 68 then 96 else if a = 96 then 64 else 0, 64, 96⟩

theorem wellFormed_twoBlocks : WellFormed twoBlocks [⟨64, 16⟩, ⟨96, 64⟩] := by
  refine ⟨⟨⟨rfl, rfl, rfl⟩, by decide, by simp [Separate, Apart], ?_⟩, by simp, by decide, by decide,
    by decide⟩
  intro b hb
  simp only [List.mem_cons, List.not_mem_nil, or_false] at hb
  rcases hb with rfl | rfl <;> exact ⟨by decide, by decide, by decide⟩

theorem takesSplit_twoBlocks : TakesSplit twoBlocks 10 96 := by
  refine ⟨by decide, ?_, by decide⟩
  rw [wellFormed_twoBlocks.linked.find_eq]
  rfl

/-- The request for 10 bytes skips the first block and cuts the second one. -/
theorem kmalloc_splits_twoBlocks : ∃ f₁ b f₂ n h', [⟨64, 16⟩, ⟨96, 64⟩] = f₁ ++ b :: f₂ ∧
    b.start = 96 ∧ kmalloc (pure 0) 10 twoBlocks = .ok (n + 8) h' ∧
    SplitLaw twoBlocks h' f₁ b f₂ n (round8 10) :=
  kmalloc_splits wellFormed_twoBlocks (by decide) takesSplit_twoBlocks (pure 0)

end Aosis.Memory.Kmalloc
