import Aosis.Memory.KmallocTail

/-!
# The payload pointer of a recycled block

The field `free_memory` of a block lies in the first word of its payload.  `kmalloc` sets it when
it makes a block, and returns it when it takes a block whole; `kfree` does not set it again, so
that a block on the free list has what its client left there.

* `HeapInv.kfree_payloads_iff`: after a `kfree` the fields of the free list are right exactly if
  the client has left its own address in the first word, or the block is merged into the one
  before it.
* `recycles_of_run`: in runs with such calls of `kfree` only, the fields are right, and `kmalloc`
  returns the payload of a block that it takes whole.
* `restores_of_run`: a run without stores is such a run.
-/

namespace Aosis.Memory.Kmalloc

open Aosis.Lib Aosis.Lib.Extent

/-- The field `free_memory` of every block of the free list points behind the header. -/
def PayloadsRight (h : Heap) : Prop := ∀ b, OnList h b → h.freeMemory b = b + blockHeaderSize

/-- The payload pointers of the free list are right, and a `kmalloc` that takes a block whole
returns the address behind the header of the block. -/
structure Recycles (h : Heap) : Prop where
  payloads : PayloadsRight h
  whole : ∀ (vmm_alloc_page : Kern Heap Nat) (size b : Nat), size ≠ 0 →
    FirstFit h (kmallocRound size) b →
    h.size b < kmallocRound size + blockHeaderSize + smallestBlockSize →
    kmalloc vmm_alloc_page size h = .ok (b + blockHeaderSize) h

/-- The block of the list behind which `kfree` puts the block at `u` ends where that one begins. -/
def MergesLeft (h : Heap) (u : Nat) : Prop :=
  h.head ≤ u ∧ ∃ p bs, Path h.next h.head bs p ∧ 0 ∉ p :: bs ∧ IsPlace h u p ∧
    (∀ c ∈ bs, ¬ IsPlace h u c) ∧ p + h.size p = u

/-- A block that is freed has its own payload pointer in the first word of the payload, or is
merged into the block before it. -/
def Restores (s : Sys) : Op → Prop
  | .kmalloc _ _ => True
  | .kfree ptr => ptr = 0 ∨ s.heap.mem ptr = ptr ∨ MergesLeft s.heap (ptr - blockHeaderSize)
  | .write _ _ => True

/-! ### Where a freed block goes -/

section Placed

variable {h : Heap} {free free' : List Extent} {u c : Extent}

theorem Placed.start_cases (hp : Placed h u free free') (hc : c ∈ free') :
    c.start = u.start ∨ ∃ d ∈ free, c.start = d.start := by
  cases hp with
  | front hu =>
    obtain ⟨n, l, heq, hsub⟩ := exists_absorb u free
    rw [heq] at hc
    rcases List.mem_cons.mp hc with rfl | hc
    · exact Or.inl rfl
    · exact Or.inr ⟨c, hsub c hc, rfl⟩
  | @after f₁ f₂ p hfree _ _ _ _ =>
    subst hfree
    obtain ⟨n, l, heq, hsub⟩ := exists_absorb u f₂
    obtain ⟨m, l', heq', hsub'⟩ := exists_absorb p (⟨u.start, n⟩ :: l)
    rw [heq, heq'] at hc
    rcases List.mem_append.mp hc with hc | hc
    · exact Or.inr ⟨c, List.mem_append_left _ hc, rfl⟩
    rcases List.mem_cons.mp hc with rfl | hc
    · exact Or.inr ⟨p, List.mem_append_right f₁ List.mem_cons_self, rfl⟩
    rcases List.mem_cons.mp (hsub' c hc) with rfl | hc
    · exact Or.inl rfl
    · exact Or.inr ⟨c, List.mem_append_right f₁ (List.mem_cons_of_mem p (hsub c hc)), rfl⟩

theorem not_mergesLeft_front (hl : Linked h free) (hu : free = [] ∨ u.start < firstStart free) :
    ¬ MergesLeft h u.start := by
  rintro ⟨hhead, p, bs, hpath, h0, -⟩
  have hfirst := hl.head_eq
  rcases hu with rfl | hu
  · have hzero : h.head = 0 := hfirst
    rw [hzero] at hpath
    cases bs with
    | nil =>
      obtain rfl : 0 = p := hpath
      exact h0 List.mem_cons_self
    | cons b bs =>
      obtain rfl : 0 = b := hpath.1
      exact h0 (List.mem_cons_of_mem p List.mem_cons_self)
  · omega

/-- The place of the block is unique, so it is merged there or not at all. -/
theorem mergesLeft_iff {f₁ f₂ : List Extent} {p : Extent} (hl : Linked h (f₁ ++ p :: f₂))
    (hhead : h.head ≤ u.start) (hplace : IsPlace h u.start p.start)
    (hfirst : ∀ d ∈ f₁, ¬ IsPlace h u.start d.start) :
    MergesLeft h u.start ↔ p.start + p.len = u.start := by
  have hp : p ∈ f₁ ++ p :: f₂ := List.mem_append_right f₁ List.mem_cons_self
  have hlinks := hl.links
  rw [List.map_append, List.map_cons, Path.append_cons_iff] at hlinks
  have hfirst' : ∀ x ∈ f₁.map Extent.start, ¬ IsPlace h u.start x := by
    intro x hx
    obtain ⟨d, hd, rfl⟩ := List.mem_map.mp hx
    exact hfirst d hd
  constructor
  · rintro ⟨-, q, bs, hpath, -, hq, hbs, hmeet⟩
    obtain rfl : q = p.start := hpath.first_unique hlinks.1 hq hplace hbs hfirst'
    rwa [hl.sizes p hp] at hmeet
  · intro hmeet
    refine ⟨hhead, p.start, f₁.map Extent.start, hlinks.1, ?_, hplace, hfirst', ?_⟩
    · intro h0
      have hpos : ∀ c ∈ f₁ ++ p :: f₂, 0 < c.start := fun c hc => (hl.blocks c hc).pos
      rcases List.mem_cons.mp h0 with h0 | h0
      · have := hpos p hp
        omega
      · obtain ⟨c, hc, hc0⟩ := List.mem_map.mp h0
        have := hpos c (List.mem_append_left _ hc)
        omega
    · rw [hl.sizes p hp, hmeet]

/-- **When the freed block is a block of the list.** -/
theorem Placed.mem_iff (hl : Linked h free) (hu : u.start ∉ free.map Extent.start)
    (hp : Placed h u free free') : u.start ∈ free'.map Extent.start ↔ ¬ MergesLeft h u.start := by
  cases hp with
  | front hfront =>
    obtain ⟨n, l, heq, -⟩ := exists_absorb u free
    rw [heq]
    exact ⟨fun _ => not_mergesLeft_front hl hfront, fun _ => List.mem_cons_self⟩
  | @after f₁ f₂ p hfree hhead hplace hfirst _ =>
    subst hfree
    rw [mergesLeft_iff hl hhead hplace hfirst]
    obtain ⟨n, l, heq, hsub⟩ := exists_absorb u f₂
    rw [heq, absorb]
    by_cases hmeet : p.start + p.len = u.start
    · rw [if_pos hmeet]
      refine ⟨fun hm _ => hu ?_, fun hnot => absurd hmeet hnot⟩
      obtain ⟨c, hc, hcu⟩ := List.mem_map.mp hm
      rw [← hcu]
      rcases List.mem_append.mp hc with hc | hc
      · exact List.mem_map_of_mem (List.mem_append_left _ hc)
      rcases List.mem_cons.mp hc with rfl | hc
      · exact List.mem_map_of_mem (a := p) (List.mem_append_right f₁ List.mem_cons_self)
      · exact List.mem_map_of_mem
          (List.mem_append_right f₁ (List.mem_cons_of_mem p (hsub c hc)))
    · rw [if_neg hmeet]
      refine ⟨fun _ => hmeet, ?_⟩
      intro _
      exact List.mem_map_of_mem (a := ⟨u.start, n⟩)
        (List.mem_append_right f₁ (List.mem_cons_of_mem p List.mem_cons_self))

end Placed

/-! ### One call -/

namespace HeapInv

variable {h h' : Heap} {free used : List Extent} {pages : List Nat} {c u : Extent}

theorem freeMemory_of_sameBut (hi : HeapInv h free (u :: used) pages)
    (hsame : SameBut (u :: free) h h') (hc : c ∈ free ++ u :: used) :
    h'.freeMemory c.start = h.freeMemory c.start := by
  apply hsame (c.start + 8)
  intro b hb
  have hb' : b ∈ free ++ u :: used := by
    rcases List.mem_cons.mp hb with rfl | hb
    · exact List.mem_append_right free List.mem_cons_self
    · exact List.mem_append_left _ hb
  have hclen := (hi.tiling.fit c hc).len_ge
  have hblen := (hi.tiling.fit b hb').len_ge
  rcases hi.tiling.separate.eq_or_apart hc hb' with rfl | hapart
  · omega
  · unfold Apart at hapart
    omega

/-- **The payload pointers after a `kfree`.** -/
theorem kfree_payloads_iff (hi : HeapInv h free (u :: used) pages) (hright : PayloadsRight h)
    (hk : Kmalloc.kfree (u.start + blockHeaderSize) h = .ok () h') :
    PayloadsRight h' ↔
      h.mem (u.start + blockHeaderSize) = u.start + blockHeaderSize ∨ MergesLeft h u.start := by
  obtain ⟨hblock, hsize, hapart⟩ := hi.used_block
  obtain ⟨h₁, free', hk', hl', hplaced, hsame⟩ := hi.linked.kfree hblock hsize hapart
  rw [hk'] at hk
  cases hk
  have hu : u ∈ free ++ u :: used := List.mem_append_right free List.mem_cons_self
  have hmem := hplaced.mem_iff hi.linked (hi.linked.not_mem hblock hapart)
  have hword : h'.freeMemory u.start = h.mem (u.start + blockHeaderSize) :=
    hi.freeMemory_of_sameBut hsame hu
  constructor
  · intro hright'
    by_cases hm : MergesLeft h u.start
    · exact Or.inr hm
    · obtain ⟨c, hc, hcu⟩ := List.mem_map.mp (hmem.mpr hm)
      have hlist := hl'.onList_of_mem hc
      rw [hcu] at hlist
      exact Or.inl (hword.symm.trans (hright' u.start hlist))
  · intro hor b hb
    obtain ⟨c, hc, rfl⟩ := hl'.mem_of_onList hb
    rcases hplaced.start_cases hc with hcu | ⟨d, hd, hcd⟩
    · have hnot := hmem.mp (hcu ▸ List.mem_map_of_mem hc)
      rw [hcu, hword]
      exact hor.resolve_right hnot
    · rw [hcd, hi.freeMemory_of_sameBut hsame (List.mem_append_left _ hd)]
      exact hright d.start (hi.linked.onList_of_mem hd)

theorem payloads_grow (hi : HeapInv h free used pages) (hright : PayloadsRight h) {page : Nat}
    (hf : FreshPage pages page) : PayloadsRight (kmallocGrow page h) := by
  obtain ⟨free', hgrow, hmem⟩ := hi.grow hf
  intro b hb
  obtain ⟨c, hc, rfl⟩ := hgrow.mem_of_onList hb
  rcases hmem c hc with rfl | hc
  · have hal := hf.aligned
    have hle := hf.le
    rw [freeMemory_kmallocGrow (by omega) hi.tail_mod (by dsimp only; omega)
      (by dsimp only; omega), if_pos rfl, u32_of_lt (by rw [blockHeaderSize]; omega)]
  · rw [hi.freeMemory_grow hf (List.mem_append_left used hc)]
    exact hright c.start (hi.onList_of_mem hc)

theorem freeMemory_write (hi : HeapInv h free (u :: used) pages) {x v : Nat}
    (hlo : u.start + 8 ≤ x) (hhi : x < u.start + u.len) (hc : c ∈ free) :
    (h.store x v).freeMemory c.start = h.freeMemory c.start := by
  have hapart := hi.used_block.2.2 c hc
  have hlen := (hi.tiling.fit c (List.mem_append_left _ hc)).len_ge
  unfold Apart at hapart
  rw [Heap.freeMemory, Heap.store_mem, if_neg (by omega), Heap.freeMemory]

theorem find_firstFit (hi : HeapInv h free used pages) {s b : Nat} (hb : FirstFit h s b) :
    kmallocFind h s loopFuel h.head = .ok (some b) ∧ ∃ c ∈ free, c.start = b := by
  refine ⟨?_, hi.mem_of_onList hb.onList⟩
  rcases hi.firstFit_cases s with ⟨-, hnone⟩ | ⟨f₁, c, f₂, rfl, hfind, -, hfirst⟩
  · exact absurd hb.2.1 (hnone b hb.onList)
  · obtain ⟨-, hroom, bs, hpath, -, hbs⟩ := hb
    obtain ⟨-, hcroom, cs, hcpath, -, hcs⟩ := hfirst
    rw [hfind, hcpath.first_unique (P := HasRoom h s) hpath hcroom hroom hcs hbs]

theorem kmalloc_whole (hi : HeapInv h free used pages) (hright : PayloadsRight h)
    (vmm_alloc_page : Kern Heap Nat) {size b : Nat} (h0 : size ≠ 0)
    (hb : FirstFit h (kmallocRound size) b)
    (hlt : h.size b < kmallocRound size + blockHeaderSize + smallestBlockSize) :
    kmalloc vmm_alloc_page size h = .ok (b + blockHeaderSize) h := by
  obtain ⟨hfind, c, hc, rfl⟩ := hi.find_firstFit hb
  have hsize := hi.tiling.sizes c (List.mem_append_left used hc)
  have hroom := hb.2.1
  rw [HasRoom, hsize, blockHeaderSize] at hroom
  rw [hsize, blockHeaderSize, smallestBlockSize] at hlt
  refine kmalloc_of_take h0 rfl hfind ?_ (by rw [blockHeaderSize]; omega)
  rw [kmallocTake, hi.left_over hc hroom, smallestBlockSize, if_neg (by omega),
    hright c.start (hi.onList_of_mem hc)]

end HeapInv

/-! ### Runs -/

/-- The operation is a call of the heap. -/
def Op.IsCall : Op → Prop
  | .kmalloc _ _ => True
  | .kfree _ => True
  | .write _ _ => False

/-- The first word of every live payload is the address of the payload. -/
def LiveRight (s : Sys) : Prop := ∀ l ∈ s.live, s.heap.mem l.ptr = l.ptr

section Step

variable {s s' : Sys} {free : List Extent} {op : Op}

theorem Inv.kmalloc_payloads {size page p : Nat} {h' : Heap} (hi : Inv s free)
    (hcuts : Cuts s (.kmalloc size page)) (h : Kmalloc.kmalloc (pure page) size s.heap = .ok p h')
    (hp : p ≠ 0) :
    h'.mem p = p ∧ (∀ b, OnList h' b → ∃ c ∈ free, c.start = b) ∧
      ∀ c ∈ free ++ s.live.map Live.block, h'.freeMemory c.start = s.heap.freeMemory c.start := by
  have h0 := size_ne_zero_of_kmalloc h hp
  rcases hi.heap.kmalloc_cases (hcuts h0).1 (hcuts h0).2 h0 h with
    ⟨hp0, -⟩ | ⟨-, free', hinv, -, -, hstarts, hnew, hothers⟩
  · exact absurd hp0 hp
  · refine ⟨hnew, ?_, hothers⟩
    intro b hb
    obtain ⟨c, hc, rfl⟩ := hinv.mem_of_onList hb
    exact List.mem_map.mp (hstarts ▸ List.mem_map_of_mem hc)

theorem Inv.null_cases {size page : Nat} {h' : Heap} (hi : Inv s free)
    (hcuts : Cuts s (.kmalloc size page)) (h : Kmalloc.kmalloc (pure page) size s.heap = .ok 0 h') :
    h' = s.heap ∨ size ≠ 0 ∧ h' = kmallocGrow page s.heap := by
  by_cases h0 : size = 0
  · rw [Kmalloc.kmalloc, if_pos h0] at h
    cases h
    exact Or.inl rfl
  · rcases hi.heap.kmalloc_cases (hcuts h0).1 (hcuts h0).2 h0 h with ⟨-, hgrow, -⟩ | ⟨hne, -⟩
    · exact Or.inr ⟨h0, hgrow⟩
    · exact absurd rfl hne

theorem PayloadsRight.step (hright : PayloadsRight s.heap) (hi : Inv s free)
    (hs : Within Step (fun s op => Cuts s op ∧ Restores s op) s op s') :
    PayloadsRight s'.heap := by
  obtain ⟨⟨hcuts, hrestores⟩, hstep⟩ := hs
  cases hstep with
  | null hsize hpage h =>
    rcases hi.null_cases hcuts h with rfl | ⟨h0, rfl⟩
    · exact hright
    · exact hi.heap.payloads_grow hright (hpage h0)
  | kmalloc hsize h hp =>
    obtain ⟨-, hmem, hothers⟩ := hi.kmalloc_payloads hcuts h hp
    intro b hb
    obtain ⟨c, hc, rfl⟩ := hmem b hb
    rw [hothers c (List.mem_append_left _ hc)]
    exact hright c.start (hi.heap.onList_of_mem hc)
  | kfreeNull h =>
    cases h
    exact hright
  | @kfree l h' hl h =>
    obtain ⟨hinv, hptr⟩ := hi.live_block hl
    rw [← hptr] at h hrestores
    refine (hinv.kfree_payloads_iff hright h).mpr (hrestores.resolve_left ?_)
    rw [blockHeaderSize]
    omega
  | @write l a v hl hal ha =>
    obtain ⟨hinv, -⟩ := hi.live_block hl
    obtain ⟨hlo, hhi⟩ := hi.payload_inside hl ha
    intro b hb
    obtain ⟨c, hc, rfl⟩ := (hinv.write hlo hhi).mem_of_onList hb
    rw [hinv.freeMemory_write hlo hhi hc]
    exact hright c.start (hinv.onList_of_mem hc)

theorem LiveRight.step (hlive : LiveRight s) (hi : Inv s free)
    (hs : Within Step (fun s op => Cuts s op ∧ op.IsCall) s op s') : LiveRight s' := by
  obtain ⟨⟨hcuts, hcall⟩, hstep⟩ := hs
  -- the word is the field `free_memory` of the block
  have hfield : ∀ {h' : Heap} {l : Live}, l ∈ s.live →
      h'.freeMemory l.block.start = s.heap.freeMemory l.block.start → h'.mem l.ptr = l.ptr := by
    intro h' l hl heq
    obtain ⟨-, hptr⟩ := hi.live_block hl
    have hword : h'.mem (l.block.start + blockHeaderSize) =
        s.heap.mem (l.block.start + blockHeaderSize) := heq
    rw [hptr] at hword
    rw [hword, hlive l hl]
  have hused : ∀ l ∈ s.live, l.block ∈ free ++ s.live.map Live.block := fun l hl =>
    List.mem_append_right free (List.mem_map_of_mem hl)
  cases hstep with
  | null hsize hpage h =>
    rcases hi.null_cases hcuts h with rfl | ⟨h0, rfl⟩
    · exact hlive
    · exact fun l hl => hfield hl (hi.heap.freeMemory_grow (hpage h0) (hused l hl))
  | kmalloc hsize h hp =>
    obtain ⟨hnew, -, hothers⟩ := hi.kmalloc_payloads hcuts h hp
    intro l hl
    rcases List.mem_cons.mp hl with rfl | hl
    · exact hnew
    · exact hfield hl (hothers l.block (hused l hl))
  | kfreeNull h =>
    cases h
    exact hlive
  | @kfree l h' hl h =>
    obtain ⟨hinv, hptr⟩ := hi.live_block hl
    obtain ⟨hblock, hsize, hapart⟩ := hinv.used_block
    obtain ⟨h₁, free', hk, -, -, hsame⟩ := hinv.linked.kfree hblock hsize hapart
    rw [hptr, h] at hk
    cases hk
    intro m hm
    exact hfield (List.mem_of_mem_erase hm) (hinv.freeMemory_of_sameBut hsame
      (List.mem_append_right free (List.mem_cons_of_mem _ (List.mem_map_of_mem hm))))
  | write hl hal ha => exact hcall.elim

end Step

section Run

variable {base : Nat} {mem : Nat → Nat} {ops : List Op} {s : Sys}

theorem payloadsRight_init (hb : FreshPage [] base) (mem : Nat → Nat) :
    PayloadsRight (kmallocInit base mem) := by
  intro b hlist
  obtain ⟨c, hc, rfl⟩ := (HeapInv.init hb mem).mem_of_onList hlist
  obtain rfl := List.mem_singleton.mp hc
  exact (FirstBlock.init hb mem).free

theorem payloads_of_run (hb : FreshPage [] base)
    (h : Run (Within Step fun s op => Cuts s op ∧ Restores s op) (.init base mem) ops s) :
    (∃ free, Inv s free) ∧ PayloadsRight s.heap := by
  refine h.invariant (I := fun s => (∃ free, Inv s free) ∧ PayloadsRight s.heap) ?_
    ⟨⟨_, HeapInv.init hb mem, fun _ hl => absurd hl List.not_mem_nil⟩, payloadsRight_init hb mem⟩
  rintro t op u ⟨⟨free, hi⟩, hright⟩ hs
  exact ⟨hi.step ⟨hs.1.1, hs.2⟩, hright.step hi hs⟩

/-- **Payload pointers of recycled blocks.**  They are right in every run in which a freed block
holds its own payload address or is merged into the block before it. -/
theorem recycles_of_run (hb : FreshPage [] base)
    (h : Run (Within Step fun s op => Cuts s op ∧ Restores s op) (.init base mem) ops s) :
    Recycles s.heap := by
  obtain ⟨⟨free, hi⟩, hright⟩ := payloads_of_run hb h
  exact ⟨hright, fun vmm_alloc_page size b h0 hfirst hlt =>
    hi.heap.kmalloc_whole hright vmm_alloc_page h0 hfirst hlt⟩

/-- **Without stores every freed block holds its own payload address.** -/
theorem restores_of_run (hb : FreshPage [] base)
    (h : Run (Within Step fun s op => Cuts s op ∧ op.IsCall) (.init base mem) ops s) :
    Run (Within Step fun s op => Cuts s op ∧ Restores s op) (.init base mem) ops s := by
  suffices hall : Run (Within Step fun s op => Cuts s op ∧ Restores s op) (.init base mem) ops s ∧
      LiveRight s from hall.1
  induction h with
  | nil => exact ⟨.nil, fun _ hl => absurd hl List.not_mem_nil⟩
  | @snoc ops t op u _ hs ih =>
    obtain ⟨hrun, hlive⟩ := ih
    obtain ⟨⟨free, hi⟩, -⟩ := payloads_of_run hb hrun
    refine ⟨hrun.snoc ⟨⟨hs.1.1, ?_⟩, hs.2⟩, hlive.step hi hs⟩
    cases hs.2 with
    | null => trivial
    | kmalloc => trivial
    | kfreeNull => exact Or.inl rfl
    | kfree hl => exact Or.inr (Or.inl (hlive _ hl))
    | write => trivial

end Run

/-! ### Two runs -/

/-- A run in which two blocks are cut and the first one is freed. -/
theorem recycles_freed : ∃ h, Run Step (.init 0x200000 fun _ => 0)
    [.kmalloc 16 0, .kmalloc 16 0, .kfree 0x200FF0] ⟨h, [⟨0x200FD8, 16⟩], [0x200000]⟩ ∧
      Recycles h := by
  obtain ⟨h₁, h₂, h₃, hs₁, hs₂, hs₃, hf₁, hf₂⟩ := exists_freed
  have hf₀ := FirstBlock.init freshPage_2M fun _ => 0
  have hrun : Run (Within Step fun s op => Cuts s op ∧ op.IsCall) (.init 0x200000 fun _ => 0)
      [.kmalloc 16 0, .kmalloc 16 0, .kfree 0x200FF0] ⟨h₃, [⟨0x200FD8, 16⟩], [0x200000]⟩ :=
    ((Run.single ⟨⟨hf₀.cuts 0 (by decide) (by decide), trivial⟩, hs₁⟩).snoc
      ⟨⟨hf₁.cuts 0 (by decide) (by decide), trivial⟩, hs₂⟩).snoc ⟨⟨trivial, trivial⟩, hs₃⟩
  exact ⟨h₃, hrun.mono And.right, recycles_of_run freshPage_2M (restores_of_run freshPage_2M hrun)⟩

/-- The state after two blocks of 24 bytes were allocated and the client of the first one has
stored a five in it: the free list and the freed block. -/
theorem exists_twoBlocks :
    ∃ h, Run Step (.init 0x200000 fun _ => 0) [.kmalloc 16 0, .kmalloc 16 0, .write 0x200FF0 5]
        ⟨h, [⟨0x200FD8, 16⟩, ⟨0x200FF0, 16⟩], [0x200000]⟩ ∧
      HeapInv h [⟨0x200000, 4048⟩] [⟨0x200FE8, 24⟩, ⟨0x200FD0, 24⟩] [0x200000] ∧
      PayloadsRight h ∧ h.mem 0x200FF0 = 5 := by
  obtain ⟨h₁, h₂, -, hs₁, hs₂, -, -, hf₂⟩ := exists_freed
  have hinv : HeapInv h₂ [⟨0x200000, 4048⟩] [⟨0x200FE8, 24⟩, ⟨0x200FD0, 24⟩] [0x200000] :=
    hf₂.inv.perm_used (List.Perm.swap _ _ _)
  refine ⟨h₂.store 0x200FF0 5, ?_, hinv.write (by decide) (by decide), ?_, ?_⟩
  · have hs₃ : Step ⟨h₂, [⟨0x200FD8, 16⟩, ⟨0x200FF0, 16⟩], [0x200000]⟩ (.write 0x200FF0 5)
        ⟨h₂.store 0x200FF0 5, [⟨0x200FD8, 16⟩, ⟨0x200FF0, 16⟩], [0x200000]⟩ :=
      .write (l := ⟨0x200FF0, 16⟩) (List.mem_cons_of_mem _ List.mem_cons_self) (by decide)
        ⟨by decide, by decide⟩
    exact ((Run.single hs₁).snoc hs₂).snoc hs₃
  · intro b hb
    obtain ⟨c, hc, rfl⟩ := (hinv.write (by decide) (by decide)).mem_of_onList hb
    rw [hinv.freeMemory_write (by decide) (by decide) hc, List.mem_singleton.mp hc]
    exact hf₂.free
  · rw [Heap.store_mem, if_pos rfl]

/-- After the block with the five is freed, the five is its payload pointer. -/
theorem not_recycles_stored :
    ∃ s, FreshPage [] 0x200000 ∧
      Run Step (.init 0x200000 fun _ => 0)
        [.kmalloc 16 0, .kmalloc 16 0, .write 0x200FF0 5, .kfree 0x200FF0] s ∧
      ¬ Recycles s.heap := by
  obtain ⟨h, hrun, hinv, hright, hword⟩ := exists_twoBlocks
  obtain ⟨-, h', hk, -⟩ := hinv.kfree
  refine ⟨_, freshPage_2M, hrun.snoc (.kfree (l := ⟨0x200FF0, 16⟩)
    (List.mem_cons_of_mem _ List.mem_cons_self) hk), fun hrec => ?_⟩
  rcases (hinv.kfree_payloads_iff hright hk).mp hrec.payloads with hself | hmerge
  · have hfive : h.mem 0x200FF0 = 0x200FF0 := hself
    rw [hword] at hfive
    exact absurd hfive (by decide)
  · -- the free block ends at the other allocated block
    obtain ⟨-, p, bs, hpath, h0, -, -, hmeet⟩ := hmerge
    rw [List.mem_cons, not_or] at h0
    obtain ⟨c, hc, rfl⟩ := hinv.mem_of_onList ⟨Ne.symm h0.1, bs, hpath, h0.2⟩
    rw [hinv.tiling.sizes c (List.mem_append_left _ hc), List.mem_singleton.mp hc] at hmeet
    exact absurd hmeet (by decide)

end Aosis.Memory.Kmalloc
