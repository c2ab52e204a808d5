import Aosis.Memory.KmallocList

/-!
# The heap invariant

A heap is a set of blocks, some of them on the free list and the others allocated.  `Tiling`
says that the size words of the blocks are right, that the blocks are pairwise apart and
aligned, and that they lie in the pages of the heap; `HeapInv` adds that the free blocks are
what one meets on the list, and that the tail pointer points into the pages.

The tail pointer need not be the end of the list: `kmalloc` does not move it when it grows
the heap, and merging a block with the one before it can leave it inside a larger block.
What a stale tail can do is cut the list (`HeapInv.grow`), which loses blocks but never
makes two of them overlap.

* `HeapInv.splitBlock`, `HeapInv.grow`: cutting a block and growing the heap keep the invariant.
-/

namespace Aosis.Memory.Kmalloc

open Aosis.Lib Aosis.Lib.Extent

/-! ### Pages and blocks -/

/-- The address lies in one of the pages. -/
def InPages (pages : List Nat) (x : Nat) : Prop := ∃ p ∈ pages, p ≤ x ∧ x < p + 4096

/-- A page that can be added to the heap: aligned, not at address zero and not there
already. -/
structure FreshPage (pages : List Nat) (page : Nat) : Prop where
  aligned : page % 4096 = 0
  pos : 0 < page
  le : page + 4096 ≤ 2 ^ 32
  not_mem : page ∉ pages

/-- A block of the heap: aligned, with room for its header and eight bytes, and inside the
pages. -/
structure Fit (pages : List Nat) (b : Extent) : Prop where
  start_mod : b.start % 8 = 0
  len_mod : b.len % 8 = 0
  len_ge : 16 ≤ b.len
  pos : 0 < b.start
  le : b.start + b.len ≤ 2 ^ 32
  within : b.Within (InPages pages)

theorem Fit.mono {pages : List Nat} {b : Extent} (hb : Fit pages b) (page : Nat) :
    Fit (page :: pages) b :=
  { hb with
    within := hb.within.mono fun _ ⟨p, hp, hx⟩ => ⟨p, List.mem_cons_of_mem page hp, hx⟩ }

theorem Fit.isBlock {pages : List Nat} {b : Extent} (hb : Fit pages b) : IsBlock b := by
  have := hb.len_ge
  exact ⟨hb.pos, by rw [blockHeaderSize]; omega, hb.le⟩

theorem FreshPage.fit {pages : List Nat} {page : Nat} (hf : FreshPage pages page) :
    Fit (page :: pages) ⟨page, 4096⟩ := by
  have hal := hf.aligned
  exact ⟨by dsimp only; omega, by dsimp only, by dsimp only; omega, hf.pos, hf.le,
    fun x hx => ⟨page, List.mem_cons_self, hx.1, hx.2⟩⟩

/-- The blocks have right size words, are pairwise apart and fit into the pages. -/
structure Tiling (h : Heap) (pages : List Nat) (tiles : List Extent) : Prop where
  sizes : ∀ b ∈ tiles, h.size b.start = b.len
  separate : Separate tiles
  fit : ∀ b ∈ tiles, Fit pages b

namespace Tiling

variable {h h' : Heap} {pages : List Nat} {tiles tiles' : List Extent} {a b n : Extent}

theorem len_pos (ht : Tiling h pages tiles) : ∀ c ∈ tiles, 0 < c.len := by
  intro c hc
  have := (ht.fit c hc).len_ge
  omega

theorem perm (ht : Tiling h pages tiles) (hp : tiles.Perm tiles') : Tiling h pages tiles' :=
  ⟨fun b hb => ht.sizes b (hp.mem_iff.mpr hb), ht.separate.perm hp,
    fun b hb => ht.fit b (hp.mem_iff.mpr hb)⟩

theorem sublist (ht : Tiling h pages tiles) (hs : tiles'.Sublist tiles) :
    Tiling h pages tiles' :=
  ⟨fun b hb => ht.sizes b (hs.subset hb), ht.separate.sublist hs,
    fun b hb => ht.fit b (hs.subset hb)⟩

theorem congr (ht : Tiling h pages tiles) (heq : ∀ b ∈ tiles, h'.size b.start = h.size b.start) :
    Tiling h' pages tiles :=
  ⟨fun b hb => (heq b hb).trans (ht.sizes b hb), ht.separate, ht.fit⟩

theorem apart (ht : Tiling h pages (a :: tiles)) (hb : b ∈ tiles) : Apart a b :=
  (Separate.cons_iff.mp ht.separate).1 b hb

theorem start_not_mem (ht : Tiling h pages (a :: tiles)) (hb : b ∈ tiles) : ¬ a.Mem b.start := by
  refine (ht.apart hb).symm.not_mem ⟨le_rfl, ?_⟩
  have := ht.len_pos b (List.mem_cons_of_mem a hb)
  omega

theorem split (ht : Tiling h pages (a :: tiles)) (hb : b.start = a.start)
    (hbn : b.start + b.len = n.start) (hn : n.start + n.len = a.start + a.len)
    (hbf : b.len % 8 = 0 ∧ 16 ≤ b.len) (hnf : n.len % 8 = 0 ∧ 16 ≤ n.len)
    (hsb : h'.size b.start = b.len) (hsn : h'.size n.start = n.len)
    (heq : ∀ c ∈ tiles, h'.size c.start = h.size c.start) : Tiling h' pages (b :: n :: tiles) := by
  have ha := ht.fit a List.mem_cons_self
  have hmod := ha.start_mod
  have hpos := ha.pos
  have hle := ha.le
  refine ⟨?_, ht.separate.split (by omega) (by omega) (by omega), ?_⟩
  · intro c hc
    rcases List.mem_cons.mp hc with rfl | hc
    · exact hsb
    rcases List.mem_cons.mp hc with rfl | hc
    · exact hsn
    · exact (heq c hc).trans (ht.sizes c (List.mem_cons_of_mem a hc))
  · intro c hc
    rcases List.mem_cons.mp hc with rfl | hc
    · refine ⟨by omega, hbf.1, hbf.2, by omega, by omega, fun x hx => ha.within x ?_⟩
      unfold Mem at *
      omega
    rcases List.mem_cons.mp hc with rfl | hc
    · refine ⟨by omega, hnf.1, hnf.2, by omega, by omega, fun x hx => ha.within x ?_⟩
      unfold Mem at *
      omega
    · exact ht.fit c (List.mem_cons_of_mem a hc)

theorem join (ht : Tiling h pages (a :: b :: tiles)) (hab : a.start + a.len = b.start)
    (hsa : h'.size a.start = a.len + b.len)
    (heq : ∀ c ∈ tiles, h'.size c.start = h.size c.start) :
    Tiling h' pages (⟨a.start, a.len + b.len⟩ :: tiles) := by
  have hmem : ∀ c ∈ tiles, c ∈ a :: b :: tiles :=
    fun c hc => List.mem_cons_of_mem a (List.mem_cons_of_mem b hc)
  have ha := ht.fit a List.mem_cons_self
  have hb := ht.fit b (List.mem_cons_of_mem a List.mem_cons_self)
  have hamod := ha.len_mod
  have hbmod := hb.len_mod
  have hage := ha.len_ge
  have hble := hb.le
  refine ⟨?_, ht.separate.join (fun c hc => ht.len_pos c (hmem c hc)) hab, ?_⟩
  · intro c hc
    rcases List.mem_cons.mp hc with rfl | hc
    · exact hsa
    · exact (heq c hc).trans (ht.sizes c (hmem c hc))
  · intro c hc
    rcases List.mem_cons.mp hc with rfl | hc
    · refine ⟨ha.start_mod, by dsimp only; omega, by dsimp only; omega, ha.pos,
        by dsimp only; omega, fun x hx => ?_⟩
      unfold Mem at hx
      by_cases hxa : x < a.start + a.len
      · exact ha.within x ⟨hx.1, hxa⟩
      · exact hb.within x ⟨by omega, by dsimp only at hx; omega⟩
    · exact ht.fit c (hmem c hc)

theorem apart_fresh {c : Extent} {page : Nat} (hc : Fit pages c) (hf : FreshPage pages page)
    (hp : ∀ p ∈ pages, p % 4096 = 0) : Apart c ⟨page, 4096⟩ := by
  have hlen := hc.len_ge
  apply apart_of_not_mem (by omega) (Nat.succ_pos 4095)
  intro x hx hxp
  obtain ⟨p, hmem, hle, hlt⟩ := hc.within x hx
  have hpm := hp p hmem
  have hal := hf.aligned
  unfold Mem at hxp
  dsimp only at hxp
  have hpe : p = page := by omega
  exact hf.not_mem (hpe ▸ hmem)

end Tiling

/-- The blocks of the heap, the free ones in the order of the list. -/
structure HeapInv (h : Heap) (free used : List Extent) (pages : List Nat) : Prop where
  links : Path h.next h.head (free.map Extent.start) 0
  tiling : Tiling h pages (free ++ used)
  tail_mod : h.tail % 8 = 0
  tail_within : (⟨h.tail, 8⟩ : Extent).Within (InPages pages)
  aligned : ∀ p ∈ pages, p % 4096 = 0

theorem HeapInv.linked {h : Heap} {free used : List Extent} {pages : List Nat}
    (hi : HeapInv h free used pages) : Linked h free :=
  ⟨hi.links, fun b hb => hi.tiling.sizes b (List.mem_append_left used hb),
    hi.tiling.separate.sublist (List.sublist_append_left free used),
    fun b hb => (hi.tiling.fit b (List.mem_append_left used hb)).isBlock⟩

namespace HeapInv

variable {h : Heap} {free used used' f₁ f₂ : List Extent} {pages : List Nat}
  {a b p u : Extent}

/-- **The search of `kmalloc`.**  It ends, at the first free block with room. -/
theorem find_eq (hi : HeapInv h free used pages) (s : Nat) :
    kmallocFind h s loopFuel h.head =
      .ok ((free.find? (fun b => s + 8 ≤ b.len)).map Extent.start) :=
  hi.linked.find_eq s

theorem left_over (hi : HeapInv h free used pages) (hb : b ∈ free) {s : Nat}
    (hs : s + 8 ≤ b.len) :
    sub32 (sub32 (h.size b.start) blockHeaderSize) s = b.len - 8 - s := by
  have hbm := List.mem_append_left used hb
  exact left_over_eq (hi.tiling.fit b hbm).isBlock (hi.tiling.sizes b hbm) hs

theorem perm_used (hi : HeapInv h free used pages) (hp : used.Perm used') :
    HeapInv h free used' pages :=
  { hi with tiling := hi.tiling.perm (hp.append_left free) }

theorem tiling_front (hi : HeapInv h (f₁ ++ b :: f₂) used pages) :
    Tiling h pages (b :: (f₁ ++ f₂ ++ used)) := by
  apply hi.tiling.perm
  rw [List.append_assoc, List.cons_append, List.append_assoc]
  exact List.perm_middle

end HeapInv

namespace HeapInv

variable {h : Heap} {free used used' f₁ f₂ : List Extent} {pages : List Nat}
  {a b p u : Extent}

/-- **Cutting a block.**  The lower part stays on the list, the upper part is allocated. -/
theorem splitBlock (hi : HeapInv h (f₁ ++ b :: f₂) used pages) {s n : Nat} (hs : s % 8 = 0)
    (h8 : 8 ≤ s) (hn : n + (s + 8) = b.start + b.len) (hb : b.start + 16 ≤ n) :
    ∃ h', kmallocSplitBlock b.start s h = (n + 8, h') ∧
      HeapInv h' (f₁ ++ ⟨b.start, b.len - (s + 8)⟩ :: f₂) (⟨n, s + 8⟩ :: used) pages ∧
      h'.tail = h.tail := by
  have ht := hi.tiling_front
  have hfit := ht.fit b List.mem_cons_self
  have hlm := hfit.len_mod
  have hsize := ht.sizes b List.mem_cons_self
  obtain ⟨hsb, hsn⟩ := sizes_cut hfit.le hsize hn hb
  have hothers : ∀ c ∈ f₁ ++ f₂ ++ used, (h.cut b.start n s).size c.start = h.size c.start ∧
      (h.cut b.start n s).next c.start = h.next c.start := by
    intro c hc
    have hlen := (ht.fit c (List.mem_cons_of_mem b hc)).len_ge
    exact ⟨cut_mem_of_apart h8 hn hb (ht.apart hc) (k := 0) (by omega),
      cut_mem_of_apart h8 hn hb (ht.apart hc) (k := 4) (by omega)⟩
  refine ⟨_, kmallocSplitBlock_eq hfit.le hsize h8 hn hb, ⟨?_, ?_, hi.tail_mod, hi.tail_within,
    hi.aligned⟩, rfl⟩
  · exact (hi.linked.cut hn hb fun c hc => hothers c (List.mem_append_left used hc)).links
  · have htiles : Tiling (h.cut b.start n s) pages
        (⟨b.start, b.len - (s + 8)⟩ :: ⟨n, s + 8⟩ :: (f₁ ++ f₂ ++ used)) :=
      ht.split rfl (by dsimp only; omega) (by dsimp only; omega)
        ⟨by dsimp only; omega, by dsimp only; omega⟩
        ⟨by dsimp only; omega, by dsimp only; omega⟩ hsb hsn fun c hc => (hothers c hc).1
    apply htiles.perm
    rw [List.append_assoc, List.append_assoc, List.cons_append]
    refine (List.Perm.cons _ ?_).trans List.perm_middle.symm
    rw [← List.append_assoc, ← List.append_assoc]
    exact List.perm_middle.symm

theorem freeMemory_splitBlock (hi : HeapInv h (f₁ ++ b :: f₂) used pages) {s n : Nat} {h' : Heap}
    (h8 : 8 ≤ s) (hn : n + (s + 8) = b.start + b.len) (hb : b.start + 16 ≤ n)
    (hsplit : kmallocSplitBlock b.start s h = (n + 8, h')) :
    h'.freeMemory n = n + 8 ∧
      ∀ c ∈ f₁ ++ b :: f₂ ++ used, h'.freeMemory c.start = h.freeMemory c.start := by
  have ht := hi.tiling_front
  have hle := (ht.fit b List.mem_cons_self).le
  rw [kmallocSplitBlock_eq hle (ht.sizes b List.mem_cons_self) h8 hn hb] at hsplit
  cases hsplit
  refine ⟨?_, ?_⟩
  · rw [Heap.freeMemory_cut_new (by omega), blockHeaderSize, u32_of_lt (by omega), Nat.add_comm]
  · intro c hc
    have hperm : (f₁ ++ b :: f₂ ++ used).Perm (b :: (f₁ ++ f₂ ++ used)) := by
      rw [List.append_assoc, List.cons_append, List.append_assoc]
      exact List.perm_middle
    rcases List.mem_cons.mp (hperm.mem_iff.mp hc) with rfl | hc
    · exact Heap.cut_mem (by omega) (by omega) (by omega) (by omega)
    · have hlen := (ht.fit c (List.mem_cons_of_mem b hc)).len_ge
      exact cut_mem_of_apart h8 hn hb (ht.apart hc) (by omega)

/-! ### Growing the heap -/

theorem freeMemory_kmallocGrow {page x : Nat} (hpage : page % 8 = 0) (htail : h.tail % 8 = 0)
    (hx : x % 8 = 0) (hne : x + 8 ≠ page) :
    (kmallocGrow page h).freeMemory x =
      if x = page then u32 (page + blockHeaderSize) else h.freeMemory x := by
  simp only [kmallocGrow, Heap.tail_setNext, Heap.tail_setFreeMemory, Heap.tail_setSize]
  rw [Heap.freeMemory_setNext (by omega), Heap.freeMemory_setNext (by omega)]
  split
  · next hxp => rw [hxp, Heap.freeMemory_setFreeMemory]
  · next hxp =>
    rw [Heap.freeMemory, Heap.setFreeMemory, Heap.store_mem, if_neg (by omega), ← Heap.freeMemory,
      Heap.freeMemory_setSize hne]

theorem size_kmallocGrow {page x : Nat} (hpage : page % 8 = 0) (htail : h.tail % 8 = 0)
    (hx : x % 8 = 0) (hne : x ≠ page + 8) :
    (kmallocGrow page h).size x = if x = page then 4096 else h.size x := by
  simp only [kmallocGrow, Heap.tail_setNext, Heap.tail_setFreeMemory, Heap.tail_setSize]
  rw [Heap.size_setNext hx htail, Heap.size_setNext hx hpage, Heap.size_setFreeMemory, if_neg hne,
    Heap.size_setSize, pageSize]

theorem next_kmallocGrow {page x : Nat} (hpage : page % 8 = 0) (hx : x % 8 = 0) :
    (kmallocGrow page h).next x =
      Function.update (Function.update h.next page 0) h.tail page x := by
  have hstep : ∀ y, y % 8 = 0 → (((h.setSize page pageSize).setFreeMemory page
      (u32 (page + blockHeaderSize))).setNext page 0).next y =
      Function.update h.next page 0 y := by
    intro y hy
    rw [Heap.next_setNext, Function.update_apply, Function.update_apply,
      Heap.next_setFreeMemory hy hpage, Heap.next_setSize hy hpage]
  simp only [kmallocGrow, Heap.tail_setNext, Heap.tail_setFreeMemory, Heap.tail_setSize]
  rw [Heap.next_setNext]
  by_cases hxt : x = h.tail
  · rw [hxt, Function.update_self, Function.update_self]
  · rw [Function.update_of_ne hxt, Function.update_of_ne hxt, hstep x hx]

theorem tiling_grow (hi : HeapInv h free used pages) {page : Nat} (hf : FreshPage pages page) :
    Tiling (kmallocGrow page h) (page :: pages) (⟨page, 4096⟩ :: (free ++ used)) := by
  have hal := hf.aligned
  have hapart : ∀ c ∈ free ++ used, Apart c ⟨page, 4096⟩ := fun c hc =>
    Tiling.apart_fresh (hi.tiling.fit c hc) hf hi.aligned
  refine ⟨?_, hi.tiling.separate.cons fun c hc => (hapart c hc).symm, ?_⟩
  · intro c hc
    rcases List.mem_cons.mp hc with rfl | hc
    · rw [size_kmallocGrow (by omega) hi.tail_mod (by dsimp only; omega) (by dsimp only; omega),
        if_pos rfl]
    · have hfit := hi.tiling.fit c hc
      have hlen := hfit.len_ge
      have hac := hapart c hc
      unfold Apart at hac
      dsimp only at hac
      rw [size_kmallocGrow (by omega) hi.tail_mod hfit.start_mod (by omega), if_neg (by omega)]
      exact hi.tiling.sizes c hc
  · intro c hc
    rcases List.mem_cons.mp hc with rfl | hc
    · exact hf.fit
    · exact (hi.tiling.fit c hc).mono page

theorem start_ne_fresh (hi : HeapInv h free used pages) {page : Nat} (hf : FreshPage pages page)
    {c : Extent} (hc : c ∈ free) : c.start % 8 = 0 ∧ c.start ≠ page := by
  have hfit := hi.tiling.fit c (List.mem_append_left used hc)
  have hlen := hfit.len_ge
  have hac := Tiling.apart_fresh hfit hf hi.aligned
  unfold Apart at hac
  dsimp only at hac
  exact ⟨hfit.start_mod, by omega⟩

/-- Among the free blocks the growth changes the link of the tail only. -/
theorem path_grow (hi : HeapInv h free used pages) {page : Nat} (hf : FreshPage pages page)
    {l : List Extent} {z w : Nat} (hl : ∀ c ∈ l, c ∈ free)
    (hp : Path (Function.update h.next h.tail page) z (l.map Extent.start) w) :
    Path (kmallocGrow page h).next z (l.map Extent.start) w := by
  have hal := hf.aligned
  apply hp.congr
  intro x hx
  obtain ⟨c, hc, rfl⟩ := List.mem_map.mp hx
  obtain ⟨hcm, hcp⟩ := hi.start_ne_fresh hf (hl c hc)
  rw [next_kmallocGrow (by omega) hcm, Function.update_apply, Function.update_of_ne hcp,
    Function.update_apply]

theorem aligned_cons (hi : HeapInv h free used pages) {page : Nat} (hf : FreshPage pages page) :
    ∀ q ∈ page :: pages, q % 4096 = 0 := by
  intro q hq
  rcases List.mem_cons.mp hq with rfl | hq
  · exact hf.aligned
  · exact hi.aligned q hq

theorem tail_within_cons (hi : HeapInv h free used pages) (page : Nat) :
    (⟨h.tail, 8⟩ : Extent).Within (InPages (page :: pages)) :=
  hi.tail_within.mono fun _ ⟨q, hq, hx⟩ => ⟨q, List.mem_cons_of_mem page hq, hx⟩

/-- **Growing the heap when the tail pointer is a free block.**  The list is cut there and goes on
with the page. -/
theorem grow_at (hi : HeapInv h (f₁ ++ b :: f₂) used pages) (htail : b.start = h.tail)
    {page : Nat} (hf : FreshPage pages page) :
    HeapInv (kmallocGrow page h) (f₁ ++ [b] ++ [⟨page, 4096⟩]) used (page :: pages) := by
  have hc : b ∈ f₁ ++ b :: f₂ := List.mem_append_right f₁ List.mem_cons_self
  have hal := hf.aligned
  have hl := hi.links
  have hnd := hi.linked.nodup
  rw [List.map_append, List.map_cons] at hl hnd
  have hb₁ : b.start ∉ f₁.map Extent.start := fun hm =>
    (List.nodup_append.mp hnd).2.2 _ hm _ List.mem_cons_self rfl
  refine ⟨?_, ?_, hi.tail_mod, hi.tail_within_cons page, hi.aligned_cons hf⟩
  · have hr := hl.redirect (x := page) hb₁
    rw [htail] at hr
    rw [List.map_append]
    refine Path.append_iff.mpr ⟨page, hi.path_grow hf ?_ ?_, rfl, ?_⟩
    · intro d hd
      rcases List.mem_append.mp hd with hd | hd
      · exact List.mem_append_left _ hd
      · exact List.mem_append_right _ (List.mem_singleton.mp hd ▸ List.mem_cons_self)
    · rwa [List.map_append, List.map_cons, List.map_nil, htail]
    · show (kmallocGrow page h).next page = 0
      rw [next_kmallocGrow (by omega) (by omega), Function.update_of_ne, Function.update_self]
      rw [← htail]
      exact (hi.start_ne_fresh hf hc).2.symm
  · have hsub : (f₁ ++ [b] ++ used).Sublist (f₁ ++ b :: f₂ ++ used) :=
      (((List.nil_sublist f₂).cons_cons b).append_left f₁).append_right used
    apply ((hi.tiling_grow hf).sublist (hsub.cons_cons _)).perm
    rw [List.append_assoc (f₁ ++ [b])]
    exact List.perm_middle.symm

/-- **Growing the heap.**  The new page goes where the tail pointer says.  When that is not a free
block, the page is lost. -/
theorem grow (hi : HeapInv h free used pages) {page : Nat} (hf : FreshPage pages page) :
    ∃ free', HeapInv (kmallocGrow page h) free' used (page :: pages) ∧
      ∀ c ∈ free', c = ⟨page, 4096⟩ ∨ c ∈ free := by
  by_cases hm : h.tail ∈ free.map Extent.start
  · obtain ⟨c, hc, hct⟩ := List.mem_map.mp hm
    obtain ⟨f₁, f₂, rfl⟩ := List.append_of_mem hc
    refine ⟨_, hi.grow_at hct hf, ?_⟩
    intro d hd
    simp only [List.append_assoc, List.mem_append, List.mem_cons, List.not_mem_nil,
      or_false] at hd ⊢
    rcases hd with hd | hd | hd
    · exact Or.inr (Or.inl hd)
    · exact Or.inr (Or.inr (Or.inl hd))
    · exact Or.inl hd
  · exact ⟨free, ⟨hi.path_grow hf (fun c hc => hc) (hi.links.congr_update hm),
      (hi.tiling_grow hf).sublist (List.sublist_cons_self _ _), hi.tail_mod,
      hi.tail_within_cons page, hi.aligned_cons hf⟩, fun c hc => Or.inr hc⟩

theorem freeMemory_grow (hi : HeapInv h free used pages) {page : Nat} (hf : FreshPage pages page)
    {c : Extent} (hc : c ∈ free ++ used) :
    (kmallocGrow page h).freeMemory c.start = h.freeMemory c.start := by
  have hfit := hi.tiling.fit c hc
  have hlen := hfit.len_ge
  have hal := hf.aligned
  have hapart := Tiling.apart_fresh hfit hf hi.aligned
  unfold Apart at hapart
  dsimp only at hapart
  rw [freeMemory_kmallocGrow (by omega) hi.tail_mod hfit.start_mod (by omega), if_neg (by omega)]

end HeapInv

end Aosis.Memory.Kmalloc
