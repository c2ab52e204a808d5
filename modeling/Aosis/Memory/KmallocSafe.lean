import Aosis.Lib.Run
import Aosis.Memory.KfreeInv

/-!
# Heap safety

The heap together with its clients: `live` lists the pointers that `kmalloc` returned and
that were not freed, each with the size that was asked for, and `pages` the pages the heap
consists of.  Clients may store words into their payloads.

When the block that `kmalloc` finds is too small to be cut, the block is returned but stays
on the list.  `Cuts` says that this does not happen in the next call, and `heapSafe_of_run`
that the heap is safe in every run without such a call.
-/

namespace Aosis.Memory.Kmalloc

open Aosis.Lib Aosis.Lib.Extent

/-! ### Clients -/

/-- A pointer returned by `kmalloc(size)`. -/
structure Live where
  ptr : Nat
  size : Nat
  deriving DecidableEq

namespace Live

/-- The bytes that were asked for. -/
def payload (l : Live) : Extent := ⟨l.ptr, l.size⟩

/-- The block around the payload. -/
def block (l : Live) : Extent := ⟨l.ptr - blockHeaderSize, kmallocRound l.size + blockHeaderSize⟩

end Live

/-- The heap, the live pointers and the pages of the heap. -/
structure Sys where
  heap : Heap
  live : List Live
  pages : List Nat

/-- The state that `kmalloc_init` leaves. -/
def Sys.init (kmalloc_init_block : Nat) (mem : Nat → Nat) : Sys :=
  ⟨kmallocInit kmalloc_init_block mem, [], [kmalloc_init_block]⟩

/-- A call of the heap, or a store of a client.  `page` is what `vmm_alloc_page` returns if
`kmalloc` calls it. -/
inductive Op where
  | kmalloc (size page : Nat)
  | kfree (ptr : Nat)
  | write (a v : Nat)

/-- The steps of the system: calls that return, `kfree` on live pointers and null, and stores
into payloads. -/
inductive Step : Sys → Op → Sys → Prop
  | null {s : Sys} {size page : Nat} {h' : Heap} (hsize : size < 2 ^ 32)
      (hpage : size ≠ 0 → FreshPage s.pages page)
      (h : kmalloc (pure page) size s.heap = .ok 0 h') :
      Step s (.kmalloc size page) ⟨h', s.live, if size = 0 then s.pages else page :: s.pages⟩
  | kmalloc {s : Sys} {size page p : Nat} {h' : Heap} (hsize : size < 2 ^ 32)
      (h : kmalloc (pure page) size s.heap = .ok p h') (hp : p ≠ 0) :
      Step s (.kmalloc size page) ⟨h', ⟨p, size⟩ :: s.live, s.pages⟩
  | kfreeNull {s : Sys} {h' : Heap} (h : kfree 0 s.heap = .ok () h') :
      Step s (.kfree 0) ⟨h', s.live, s.pages⟩
  | kfree {s : Sys} {l : Live} {h' : Heap} (hl : l ∈ s.live)
      (h : kfree l.ptr s.heap = .ok () h') :
      Step s (.kfree l.ptr) ⟨h', s.live.erase l, s.pages⟩
  | write {s : Sys} {l : Live} {a v : Nat} (hl : l ∈ s.live) (hal : a % 4 = 0)
      (ha : l.payload.Mem a) : Step s (.write a v) ⟨s.heap.store a v, s.live, s.pages⟩

/-- The block is on the free list: following the links from the head one comes to it before
the null pointer. -/
def OnList (h : Heap) (b : Nat) : Prop :=
  b ≠ 0 ∧ ∃ bs, Path h.next h.head bs b ∧ 0 ∉ bs

/-- **Heap safety.**  The payloads are pairwise disjoint, the pointers are aligned, and no
payload overlaps a block of the free list. -/
structure HeapSafe (s : Sys) : Prop where
  disjoint : Separate (s.live.map Live.payload)
  aligned : ∀ l ∈ s.live, l.ptr % 8 = 0
  free : ∀ l ∈ s.live, ∀ b, OnList s.heap b → Apart l.payload ⟨b, s.heap.size b⟩

/-- The block has `s` bytes besides its header. -/
def HasRoom (h : Heap) (s b : Nat) : Prop := s + blockHeaderSize ≤ h.size b

/-- The first block of the free list with room for `s` bytes. -/
def FirstFit (h : Heap) (s b : Nat) : Prop :=
  b ≠ 0 ∧ HasRoom h s b ∧
    ∃ bs, Path h.next h.head bs b ∧ 0 ∉ bs ∧ ∀ c ∈ bs, ¬ HasRoom h s c

theorem FirstFit.onList {h : Heap} {s b : Nat} (hb : FirstFit h s b) : OnList h b := by
  obtain ⟨hne, -, bs, hpath, h0, -⟩ := hb
  exact ⟨hne, bs, hpath, h0⟩

/-- The size does not wrap when it is rounded, and the first block of the free list with room
for it, if there is one, has `SMALLEST_BLOCK_SIZE` bytes more.  `kmalloc(0)` returns at once. -/
def Cuts (s : Sys) : Op → Prop
  | .kmalloc size _ => size ≠ 0 → size ≤ 2 ^ 32 - 8 ∧ ∀ b, FirstFit s.heap (kmallocRound size) b →
      kmallocRound size + blockHeaderSize + smallestBlockSize ≤ s.heap.size b
  | .kfree _ => True
  | .write _ _ => True

/-! ### The invariant of the system -/

theorem kmallocRound_eq {size : Nat} (h : size ≤ 2 ^ 32 - 8) :
    kmallocRound size = (size + 7) / 8 * 8 := by
  rw [kmallocRound, u32_of_lt (by omega : size + 7 < 2 ^ 32), Nat.shiftLeft_eq,
    Nat.shiftRight_eq_div_pow, u32_of_lt (by omega)]

/-- The live blocks are the allocated blocks of the heap. -/
structure Inv (s : Sys) (free : List Extent) : Prop where
  heap : HeapInv s.heap free (s.live.map Live.block) s.pages
  sizes : ∀ l ∈ s.live, l.size ≤ kmallocRound l.size

theorem HeapInv.init {base : Nat} (hb : FreshPage [] base) (mem : Nat → Nat) :
    HeapInv (kmallocInit base mem) [⟨base, 4096⟩] [] [base] := by
  have hal := hb.aligned
  have hsize : (kmallocInit base mem).size base = 4096 := by
    rw [kmallocInit, Heap.size_setFreeMemory, if_neg (by omega),
      Heap.size_setNext (by omega) (by omega), Heap.size_setSize, if_pos rfl]
  have hnext : (kmallocInit base mem).next base = 0 := by
    rw [kmallocInit, Heap.next_setFreeMemory (by omega) (by omega), Heap.next_setNext,
      Function.update_self]
  have hin : ∀ x, base ≤ x → x < base + 4096 → InPages [base] x :=
    fun x h₁ h₂ => ⟨base, List.mem_singleton.mpr rfl, h₁, h₂⟩
  refine ⟨⟨rfl, hnext⟩, ⟨?_, List.pairwise_singleton _ _, ?_⟩, ?_, ?_, ?_⟩
  · intro b hbm
    obtain rfl := List.mem_singleton.mp hbm
    exact hsize
  · intro b hbm
    obtain rfl := List.mem_singleton.mp hbm
    exact hb.fit
  · show base % 8 = 0
    omega
  · intro x hx
    have hlo : base ≤ x := hx.1
    have hhi : x < base + 8 := hx.2
    exact hin x hlo (by omega)
  · intro p hp
    obtain rfl := List.mem_singleton.mp hp
    exact hal

theorem Linked.mem_of_onList {h : Heap} {free : List Extent} (hl : Linked h free) {x : Nat}
    (hx : OnList h x) : ∃ c ∈ free, c.start = x := by
  obtain ⟨hne, bs, hp, h0⟩ := hx
  have hpath : Path h.next h.head (bs ++ [x]) (h.next x) := Path.append_cons_iff.mpr ⟨hp, rfl⟩
  have hpre := hl.links.isPrefix hpath (by
    simp only [List.mem_append, List.mem_singleton, not_or]
    exact ⟨h0, hne.symm⟩)
  exact List.mem_map.mp (hpre.subset (List.mem_append_right bs List.mem_cons_self))

theorem Linked.onList_of_mem {h : Heap} {free : List Extent} (hl : Linked h free) {b : Extent}
    (hb : b ∈ free) : OnList h b.start := by
  obtain ⟨f₁, f₂, rfl⟩ := List.append_of_mem hb
  have hlinks := hl.links
  rw [List.map_append, List.map_cons, Path.append_cons_iff] at hlinks
  have hpos := (hl.blocks b hb).pos
  refine ⟨by omega, _, hlinks.1, ?_⟩
  intro h0
  obtain ⟨c, hc, hc0⟩ := List.mem_map.mp h0
  have := (hl.blocks c (List.mem_append_left _ hc)).pos
  omega

namespace HeapInv

variable {h : Heap} {free used f₁ f₂ : List Extent} {pages : List Nat} {a b p u : Extent}

theorem mem_of_onList (hi : HeapInv h free used pages) {x : Nat} (hx : OnList h x) :
    ∃ c ∈ free, c.start = x := hi.linked.mem_of_onList hx

theorem firstFit_of_find (hi : HeapInv h (f₁ ++ b :: f₂) used pages) {s : Nat}
    (hb : s + 8 ≤ b.len) (hf₁ : ∀ c ∈ f₁, ¬ s + 8 ≤ c.len) : FirstFit h s b.start := by
  have hmem : ∀ c ∈ f₁, c ∈ f₁ ++ b :: f₂ ++ used := fun c hc =>
    List.mem_append_left used (List.mem_append_left (b :: f₂) hc)
  have hbm : b ∈ f₁ ++ b :: f₂ ++ used :=
    List.mem_append_left used (List.mem_append_right f₁ List.mem_cons_self)
  have hpos := (hi.tiling.fit b hbm).pos
  have hlinks := hi.links
  rw [List.map_append, List.map_cons] at hlinks
  refine ⟨by omega, ?_, f₁.map Extent.start, (Path.append_cons_iff.mp hlinks).1, ?_, ?_⟩
  · rw [HasRoom, hi.tiling.sizes b hbm]
    exact hb
  · intro h0
    obtain ⟨c, hc, hc0⟩ := List.mem_map.mp h0
    have := (hi.tiling.fit c (hmem c hc)).pos
    omega
  · intro x hx
    obtain ⟨c, hc, rfl⟩ := List.mem_map.mp hx
    rw [HasRoom, hi.tiling.sizes c (hmem c hc)]
    exact hf₁ c hc

theorem firstFit_cases (hi : HeapInv h free used pages) (s : Nat) :
    (kmallocFind h s loopFuel h.head = .ok none ∧ ∀ x, OnList h x → ¬ HasRoom h s x) ∨
      ∃ f₁ b f₂, free = f₁ ++ b :: f₂ ∧ kmallocFind h s loopFuel h.head = .ok (some b.start) ∧
        s + 8 ≤ b.len ∧ FirstFit h s b.start := by
  rcases hi.linked.find_cases s with ⟨hfind, hnone⟩ | ⟨f₁, b, f₂, rfl, hfind, hb, hf₁⟩
  · refine Or.inl ⟨hfind, ?_⟩
    intro x hx hroom
    obtain ⟨c, hc, rfl⟩ := hi.mem_of_onList hx
    rw [HasRoom, hi.tiling.sizes c (List.mem_append_left used hc), blockHeaderSize] at hroom
    exact absurd (hnone c hc) (not_lt.mpr hroom)
  · exact Or.inr ⟨f₁, b, f₂, rfl, hfind, hb,
      hi.firstFit_of_find hb fun c hc => not_le.mpr (hf₁ c hc)⟩

theorem write (hi : HeapInv h free (u :: used) pages) {x v : Nat} (hlo : u.start + 8 ≤ x)
    (hhi : x < u.start + u.len) : HeapInv (h.store x v) free (u :: used) pages := by
  have ht : Tiling h pages (u :: (free ++ used)) := hi.tiling.perm List.perm_middle
  have hout : ∀ c ∈ free ++ used, c.start ≠ x ∧ c.start + 4 ≠ x := by
    intro c hc
    have hac := ht.apart hc
    have hlen := (ht.fit c (List.mem_cons_of_mem u hc)).len_ge
    unfold Apart at hac
    exact ⟨by omega, by omega⟩
  refine ⟨hi.links.congr fun y hy => ?_, hi.tiling.congr fun c hc => ?_, hi.tail_mod,
    hi.tail_within, hi.aligned⟩
  · obtain ⟨c, hc, rfl⟩ := List.mem_map.mp hy
    rw [Heap.next, Heap.store_mem, if_neg (hout c (List.mem_append_left used hc)).2, Heap.next]
  · have hcx : c.start ≠ x := by
      rcases List.mem_append.mp hc with hc | hc
      · exact (hout c (List.mem_append_left used hc)).1
      rcases List.mem_cons.mp hc with rfl | hc
      · omega
      · exact (hout c (List.mem_append_right free hc)).1
    rw [Heap.size, Heap.store_mem, if_neg hcx, Heap.size]

end HeapInv

/-- **The invariant implies heap safety.** -/
theorem Inv.heapSafe {s : Sys} {free : List Extent} (hi : Inv s free) : HeapSafe s := by
  have hfit : ∀ l ∈ s.live, Fit s.pages l.block := fun l hl =>
    hi.heap.tiling.fit _ (List.mem_append_right free (List.mem_map_of_mem hl))
  -- the payload of a live pointer lies inside its block
  have hin : ∀ l ∈ s.live, ∀ c, Apart l.block c → Apart l.payload c := by
    intro l hl c hac
    have hsize := hi.sizes l hl
    have hpos := (hfit l hl).pos
    unfold Live.block blockHeaderSize at hac hpos
    dsimp only at hpos
    refine hac.of_le ?_ ?_
    · show l.ptr - 8 ≤ l.ptr
      omega
    · show l.ptr + l.size ≤ l.ptr - 8 + (kmallocRound l.size + 8)
      omega
  have hsep := hi.heap.tiling.separate
  rw [Separate, List.pairwise_append] at hsep
  obtain ⟨_, hused, hcross⟩ := hsep
  refine ⟨?_, ?_, ?_⟩
  · rw [Separate, List.pairwise_map]
    rw [List.pairwise_map] at hused
    refine List.Pairwise.imp_of_mem ?_ hused
    intro l m hl hm hlm
    exact (hin m hm _ (hin l hl _ hlm).symm).symm
  · intro l hl
    have hpos := (hfit l hl).pos
    have hmod := (hfit l hl).start_mod
    unfold Live.block blockHeaderSize at hpos hmod
    dsimp only at hpos hmod
    omega
  · intro l hl b hb
    obtain ⟨c, hc, rfl⟩ := hi.heap.mem_of_onList hb
    rw [hi.heap.tiling.sizes c (List.mem_append_left _ hc)]
    exact hin l hl c (hcross c hc _ (List.mem_map_of_mem hl)).symm

/-! ### The steps keep the invariant -/

/-- What a call of `kmalloc` that cuts a block or grows the heap does. -/
theorem HeapInv.kmalloc_cases {h h' : Heap} {free used : List Extent} {pages : List Nat}
    (hi : HeapInv h free used pages) {size page p : Nat} (hle : size ≤ 2 ^ 32 - 8)
    (hcut : ∀ b, FirstFit h (kmallocRound size) b →
      kmallocRound size + blockHeaderSize + smallestBlockSize ≤ h.size b)
    (h0 : size ≠ 0) (hk : Kmalloc.kmalloc (pure page) size h = .ok p h') :
    (p = 0 ∧ h' = kmallocGrow page h ∧ ∀ b, ¬ FirstFit h (kmallocRound size) b) ∨
      (p ≠ 0 ∧ ∃ free', HeapInv h' free' (Live.block ⟨p, size⟩ :: used) pages ∧
        (∀ x, Covers (free ++ used) x → Covers (free' ++ Live.block ⟨p, size⟩ :: used) x) ∧
        (EndsAt free h.tail → EndsAt free' h'.tail) ∧
        free'.map Extent.start = free.map Extent.start ∧ h'.mem p = p ∧
        ∀ c ∈ free ++ used, h'.freeMemory c.start = h.freeMemory c.start) := by
  have hround := kmallocRound_eq hle
  rcases hi.firstFit_cases (kmallocRound size) with
    ⟨hfind, hnone⟩ | ⟨f₁, b, f₂, rfl, hfind, hb8, hfirst⟩
  · left
    rw [Kmalloc.kmalloc, if_neg h0] at hk
    dsimp only at hk
    rw [hfind] at hk
    cases hk
    exact ⟨rfl, rfl, fun b hb => hnone b hb.onList hb.2.1⟩
  · right
    have hbf : b ∈ f₁ ++ b :: f₂ := List.mem_append_right f₁ List.mem_cons_self
    have hmargin := hcut b.start hfirst
    rw [hi.tiling.sizes b (List.mem_append_left used hbf), blockHeaderSize,
      smallestBlockSize] at hmargin
    have hleft : smallestBlockSize ≤ sub32 (sub32 (h.size b.start) blockHeaderSize)
        (kmallocRound size) := by
      rw [hi.left_over hbf hb8, smallestBlockSize]
      omega
    obtain ⟨h₁, hsplit, hinv, htail⟩ := hi.splitBlock (s := kmallocRound size)
      (n := b.start + b.len - (kmallocRound size + 8)) (by omega) (by omega) (by omega) (by omega)
    obtain ⟨hnew, hothers⟩ := hi.freeMemory_splitBlock (by omega) (by omega) (by omega) hsplit
    rw [kmalloc_of_take h0 rfl hfind (by rw [kmallocTake, if_pos hleft, hsplit])
      (by omega)] at hk
    cases hk
    have hstarts : (f₁ ++ (⟨b.start, b.len - (kmallocRound size + 8)⟩ : Extent) :: f₂).map
        Extent.start = (f₁ ++ b :: f₂).map Extent.start := by
      rw [List.map_append, List.map_append, List.map_cons, List.map_cons]
    refine ⟨by omega, f₁ ++ ⟨b.start, b.len - (kmallocRound size + 8)⟩ :: f₂, ?_, fun x hx => ?_, ?_,
      hstarts, hnew, hothers⟩
    · rw [Live.block, blockHeaderSize, Nat.add_sub_cancel]
      exact hinv
    · rw [Live.block, blockHeaderSize, Nat.add_sub_cancel]
      rw [List.append_assoc, List.cons_append] at hx
      have hcover := hx.split (b := ⟨b.start, b.len - (kmallocRound size + 8)⟩)
        (n := ⟨b.start + b.len - (kmallocRound size + 8), kmallocRound size + 8⟩) rfl
        (by dsimp only; omega) (by dsimp only; omega)
      refine hcover.mono fun c hc => List.perm_middle.mem_iff.mpr ?_
      rw [List.append_assoc, List.cons_append]
      exact hc
    · rw [htail]
      exact (endsAt_congr hstarts.symm).mp

theorem Inv.live_block {s : Sys} {free : List Extent} {l : Live} (hi : Inv s free)
    (hl : l ∈ s.live) :
    HeapInv s.heap free (l.block :: (s.live.erase l).map Live.block) s.pages ∧
      l.block.start + blockHeaderSize = l.ptr := by
  have hinv := hi.heap.perm_used ((List.perm_cons_erase hl).map Live.block)
  have hpos := (hinv.tiling.fit _ (List.mem_append_right free List.mem_cons_self)).pos
  refine ⟨hinv, ?_⟩
  unfold Live.block blockHeaderSize at hpos ⊢
  dsimp only at hpos ⊢
  omega

theorem Inv.payload_inside {s : Sys} {free : List Extent} {l : Live} {a : Nat} (hi : Inv s free)
    (hl : l ∈ s.live) (ha : l.payload.Mem a) :
    l.block.start + 8 ≤ a ∧ a < l.block.start + l.block.len := by
  obtain ⟨-, hptr⟩ := hi.live_block hl
  have hsize := hi.sizes l hl
  have hlo : l.ptr ≤ a := ha.1
  have hhi : a < l.ptr + l.size := ha.2
  have hlen : l.block.len = kmallocRound l.size + blockHeaderSize := rfl
  rw [blockHeaderSize] at hptr hlen
  omega

/-- The block that `kfree(ptr)` gives back. -/
def freedBlock (h : Heap) (ptr : Nat) : Extent :=
  ⟨ptr - blockHeaderSize, h.size (ptr - blockHeaderSize)⟩

/-- **What a step does** that does not leave an allocated block on the list: it grows the heap, or
it keeps every address of the heap, and the end of the list unless a `kfree` merges it into the
block before it. -/
theorem Inv.step_cases {s s' : Sys} {free : List Extent} {op : Op} (hi : Inv s free)
    (hs : Within Step Cuts s op s') :
    (∃ size page, op = .kmalloc size page ∧ size ≠ 0 ∧ FreshPage s.pages page ∧
      (∀ b, ¬ FirstFit s.heap (kmallocRound size) b) ∧
      s' = ⟨kmallocGrow page s.heap, s.live, page :: s.pages⟩) ∨
    (∃ free', Inv s' free' ∧ s'.pages = s.pages ∧
      (∀ x, Covers (free ++ s.live.map Live.block) x →
        Covers (free' ++ s'.live.map Live.block) x) ∧
      ((∀ ptr, op = .kfree ptr → StaysLast free (freedBlock s.heap ptr)) →
        EndsAt free s.heap.tail → EndsAt free' s'.heap.tail)) := by
  obtain ⟨hcuts, hstep⟩ := hs
  cases hstep with
  | @null size page h' hsize hpage h =>
    by_cases h0 : size = 0
    · right
      rw [Kmalloc.kmalloc, if_pos h0] at h
      cases h
      rw [if_pos h0]
      exact ⟨free, hi, rfl, fun _ hx => hx, fun _ hend => hend⟩
    · left
      rcases hi.heap.kmalloc_cases (hcuts h0).1 (hcuts h0).2 h0 h with ⟨-, rfl, hnone⟩ | ⟨hne, -⟩
      · rw [if_neg h0]
        exact ⟨size, page, rfl, h0, hpage h0, hnone, rfl⟩
      · exact absurd rfl hne
  | @kmalloc size page p h' hsize h hp =>
    right
    have h0 := size_ne_zero_of_kmalloc h hp
    rcases hi.heap.kmalloc_cases (hcuts h0).1 (hcuts h0).2 h0 h with
      ⟨hp0, -⟩ | ⟨_, free', hinv, hcover, hend, -⟩
    · exact absurd hp0 hp
    · refine ⟨free', ⟨hinv, ?_⟩, rfl, hcover, fun _ => hend⟩
      intro l hl
      rcases List.mem_cons.mp hl with rfl | hl
      · have hround := kmallocRound_eq (hcuts h0).1
        show size ≤ kmallocRound size
        omega
      · exact hi.sizes l hl
  | kfreeNull h =>
    right
    cases h
    exact ⟨free, hi, rfl, fun _ hx => hx, fun _ hend => hend⟩
  | @kfree l h' hl h =>
    right
    have hperm := (List.perm_cons_erase hl).map Live.block
    obtain ⟨hinv, hptr⟩ := hi.live_block hl
    have hblock : freedBlock s.heap l.ptr = l.block := by
      have hsize := hinv.tiling.sizes _ (List.mem_append_right free List.mem_cons_self)
      unfold Live.block at hsize ⊢
      rw [freedBlock, hsize]
    obtain ⟨free', h₁, hk, hinv', hcover, hend⟩ := hinv.kfree
    rw [blockHeaderSize] at hptr
    rw [hptr, h] at hk
    cases hk
    refine ⟨free', ⟨hinv', fun m hm => hi.sizes m (List.mem_of_mem_erase hm)⟩, rfl, fun x hx => ?_,
      fun hlast => hend ?_⟩
    · exact hcover x (hx.mono fun b hb => (hperm.append_left free).mem_iff.mp hb)
    · rw [← hblock]
      exact hlast _ rfl
  | @write l a v hl hal ha =>
    right
    have hperm := (List.perm_cons_erase hl).map Live.block
    obtain ⟨hinv, hptr⟩ := hi.live_block hl
    obtain ⟨hlo, hhi⟩ := hi.payload_inside hl ha
    exact ⟨free, ⟨(hinv.write hlo hhi).perm_used hperm.symm, hi.sizes⟩, rfl, fun _ hx => hx,
      fun _ hend => hend⟩

/-- **A step that does not leave an allocated block on the list keeps the invariant.** -/
theorem Inv.step {s s' : Sys} {free : List Extent} {op : Op} (hi : Inv s free)
    (hs : Within Step Cuts s op s') : ∃ free', Inv s' free' := by
  rcases hi.step_cases hs with ⟨size, page, -, -, hpage, -, rfl⟩ | ⟨free', hi', -⟩
  · obtain ⟨free', hgrow, -⟩ := hi.heap.grow hpage
    exact ⟨free', hgrow, hi.sizes⟩
  · exact ⟨free', hi'⟩

theorem inv_of_run {base : Nat} (hb : FreshPage [] base) {mem : Nat → Nat} {ops : List Op}
    {s : Sys} (h : Run (Within Step Cuts) (.init base mem) ops s) : ∃ free, Inv s free :=
  h.invariant (I := fun s => ∃ free, Inv s free) (fun ⟨_, hi⟩ hs => hi.step hs)
    ⟨_, HeapInv.init hb mem, fun _ hl => absurd hl List.not_mem_nil⟩

/-- **When the heap is safe.**  In every run in which each `kmalloc` cuts the block it takes,
or grows the heap, every state is safe. -/
theorem heapSafe_of_run {base : Nat} (hb : FreshPage [] base) {mem : Nat → Nat} {ops : List Op}
    {s : Sys} (h : Run (Within Step Cuts) (.init base mem) ops s) : HeapSafe s := by
  obtain ⟨_, hi⟩ := inv_of_run hb h
  exact hi.heapSafe

/-! ### Two runs -/

theorem freshPage_2M : FreshPage [] 0x200000 :=
  ⟨by decide, by decide, by decide, List.not_mem_nil⟩

/-- The heap after `kmalloc_init`, with its block at 2 MiB and zeros everywhere else. -/
def initHeap : Heap := kmallocInit 0x200000 fun _ => 0

theorem find_initHeap {s : Nat} (hs : s ≤ 4088) :
    kmallocFind initHeap s loopFuel initHeap.head = .ok (some 0x200000) := by
  have hfind := (HeapInv.init freshPage_2M fun _ => 0).find_eq s
  rw [List.find?_cons_of_pos (by simp; omega)] at hfind
  exact hfind

/-- `kmalloc(16)` takes the end of the block. -/
def heap16 : Heap := (kmallocSplitBlock 0x200000 16 initHeap).2

theorem kmalloc_16 : kmalloc (pure 0) 16 initHeap = .ok 0x200FF0 heap16 := by
  have hround : kmallocRound 16 = 16 := rfl
  have htake : kmallocTake 0x200000 16 initHeap = (0x200FF0, heap16) := by
    have hi := HeapInv.init freshPage_2M fun _ => 0
    have hsplit := kmallocSplitBlock_eq (s := 16) (n := 0x200FE8)
      (hi.tiling.fit _ List.mem_cons_self).le (hi.tiling.sizes _ List.mem_cons_self) (by decide)
      (by decide) (by decide)
    rw [kmallocTake, if_pos (by decide)]
    exact Prod.ext (congrArg Prod.fst hsplit) rfl
  exact kmalloc_of_take (by decide) hround (find_initHeap (by decide)) htake (by decide)

theorem cuts_heap16 : Cuts (.init 0x200000 fun _ => 0) (.kmalloc 16 0) := by
  intro _
  refine ⟨by decide, ?_⟩
  intro b hb
  obtain ⟨c, hc, rfl⟩ := (HeapInv.init freshPage_2M fun _ => 0).mem_of_onList hb.onList
  obtain rfl := List.mem_singleton.mp hc
  decide

theorem step_heap16 :
    Step (.init 0x200000 fun _ => 0) (.kmalloc 16 0) ⟨heap16, [⟨0x200FF0, 16⟩], [0x200000]⟩ :=
  .kmalloc (by decide) kmalloc_16 (by decide)

/-- A run that cuts a block. -/
theorem heapSafe_heap16 : HeapSafe ⟨heap16, [⟨0x200FF0, 16⟩], [0x200000]⟩ :=
  heapSafe_of_run freshPage_2M (Run.single ⟨cuts_heap16, step_heap16⟩)

theorem kmalloc_4088 : kmalloc (pure 0) 4088 initHeap = .ok 0x200008 initHeap := by
  have hround : kmallocRound 4088 = 4088 := rfl
  have htake : kmallocTake 0x200000 4088 initHeap = (0x200008, initHeap) := by
    rw [kmallocTake, if_neg (by decide)]
    rfl
  exact kmalloc_of_take (by decide) hround (find_initHeap (by decide)) htake (by decide)

/-- After `kmalloc(4088)` the block is still on the list. -/
theorem not_heapSafe_kmalloc_4088 :
    FreshPage [] 0x200000 ∧
      Run Step (.init 0x200000 fun _ => 0) [.kmalloc 4088 0]
        ⟨initHeap, [⟨0x200008, 4088⟩], [0x200000]⟩ ∧
      ¬ HeapSafe ⟨initHeap, [⟨0x200008, 4088⟩], [0x200000]⟩ := by
  refine ⟨⟨by decide, by decide, by decide, List.not_mem_nil⟩,
    Run.single (.kmalloc (by decide) ?_ (by decide)), fun hsafe => ?_⟩
  · exact kmalloc_4088
  · have hlist : OnList initHeap 0x200000 := ⟨by decide, [], rfl, List.not_mem_nil⟩
    have hapart := hsafe.free _ List.mem_cons_self _ hlist
    revert hapart
    unfold Apart
    decide

end Aosis.Memory.Kmalloc
