import Aosis.Memory.FreeMemory

/-!
# What `kmalloc` serves

`kmalloc` searches the free list once.  When no block has room it grows the heap by a page, but does
not look at the page: it returns null, and the request can succeed the next time at the earliest.

* `serves_of_run`: a request is served exactly if a block of the free list has room for it.
* `capacity_of_run`: the block of the pointer holds the bytes that were asked for exactly if the
  rounding of the size does not wrap.
* `null_unchanged_iff`: a call that returns null leaves the free list and the pages as they are
  exactly if the size is zero.
-/

namespace Aosis.Memory.Kmalloc

open Aosis.Lib Aosis.Lib.Extent

/-! ### The rounded size -/

theorem kmallocRound_of_wrap {size : Nat} (h : 2 ^ 32 - 8 < size) (hsize : size < 2 ^ 32) :
    kmallocRound size = 0 := by
  rw [kmallocRound, Nat.shiftLeft_eq, Nat.shiftRight_eq_div_pow]
  unfold u32
  omega

/-- Rounding up a word wraps for the last seven sizes. -/
theorem le_kmallocRound_iff {size : Nat} (hsize : size < 2 ^ 32) :
    size ≤ kmallocRound size ↔ size ≤ 2 ^ 32 - 8 := by
  by_cases h : size ≤ 2 ^ 32 - 8
  · rw [kmallocRound_eq h]
    omega
  · rw [kmallocRound_of_wrap (by omega) hsize]
    omega

/-- A call whose block has its payload at the null pointer. -/
theorem kmalloc_of_take_null {h h' : Heap} {size s b : Nat} (page : Nat) (h0 : size ≠ 0)
    (hs : kmallocRound size = s) (hfind : kmallocFind h s loopFuel h.head = .ok (some b))
    (htake : kmallocTake b s h = (0, h')) :
    kmalloc (pure page) size h = .ok 0 (kmallocGrow page h') := by
  rw [kmalloc, if_neg h0]
  dsimp only
  rw [hs, hfind]
  dsimp only
  simp only [htake, if_pos]
  rfl

/-! ### The block of a pointer -/

/-- The block of the pointer holds `size` bytes from the pointer to its end. -/
def Holds (h : Heap) (ptr size : Nat) : Prop :=
  ptr + size ≤ (freedBlock h ptr).start + (freedBlock h ptr).len

/-- The block of the pointer in `h'` is the block `b` of `h`, or the end of it. -/
def EndOf (h h' : Heap) (ptr b : Nat) : Prop :=
  b ≤ (freedBlock h' ptr).start ∧
    (freedBlock h' ptr).start + (freedBlock h' ptr).len = b + h.size b

namespace HeapInv

variable {h h' : Heap} {free used : List Extent} {pages : List Nat} {b : Extent}

/-- **What `kmalloc` takes from a block with room**: the whole block, or its end. -/
theorem kmallocTake_eq (hi : HeapInv h free used pages) (hright : PayloadsRight h) {s : Nat}
    (hb : b ∈ free) (hroom : s + 8 ≤ b.len) :
    ∃ n h', kmallocTake b.start s h = (u32 (n + 8), h') ∧ b.start ≤ n ∧ s + 8 ≤ h'.size n ∧
      h'.size n < s + 40 ∧ n + h'.size n = b.start + b.len := by
  have hbm : b ∈ free ++ used := List.mem_append_left used hb
  have hfit := hi.tiling.fit b hbm
  have hsize := hi.tiling.sizes b hbm
  have hpos := hfit.pos
  have hlen := hfit.len_ge
  have hle := hfit.le
  rw [kmallocTake, hi.left_over hb hroom, smallestBlockSize]
  by_cases hcut : 32 ≤ b.len - 8 - s
  · have hn : b.start + b.len - (s + 8) + (s + 8) = b.start + b.len := by omega
    have hnew := (sizes_cut hle hsize hn (by omega)).2
    rw [if_pos hcut, kmallocSplitBlock_u32 hle hsize hn (by omega)]
    refine ⟨b.start + b.len - (s + 8), _, rfl, by omega, ?_⟩
    rw [hnew]
    omega
  · refine ⟨b.start, h, ?_, le_rfl, by omega, by omega, by omega⟩
    rw [if_neg hcut, hright b.start (hi.onList_of_mem hb), blockHeaderSize,
      u32_of_lt (by omega : b.start + 8 < 2 ^ 32)]

theorem exists_firstFit (hi : HeapInv h free used pages) {s x : Nat} (hx : OnList h x)
    (hroom : HasRoom h s x) : ∃ b, FirstFit h s b := by
  rcases hi.firstFit_cases s with ⟨-, hnone⟩ | ⟨-, b, -, -, -, -, hfirst⟩
  · exact absurd hroom (hnone x hx)
  · exact ⟨b.start, hfirst⟩

theorem kmalloc_of_no_room (hi : HeapInv h free used pages) {size : Nat} (page : Nat)
    (h0 : size ≠ 0) (hnone : ∀ x, OnList h x → ¬ HasRoom h (kmallocRound size) x) :
    Kmalloc.kmalloc (pure page) size h = .ok 0 (kmallocGrow page h) := by
  apply hi.kmalloc_grows page h0
  intro b hb
  have hnot := hnone b.start (hi.onList_of_mem hb)
  rw [HasRoom, hi.tiling.sizes b (List.mem_append_left used hb), blockHeaderSize] at hnot
  omega

/-- **A pointer comes from the first block with room.** -/
theorem kmalloc_ok (hi : HeapInv h free used pages) (hright : PayloadsRight h)
    {size page p : Nat} (hk : Kmalloc.kmalloc (pure page) size h = .ok p h') (hp : p ≠ 0) :
    ∃ b, FirstFit h (kmallocRound size) b ∧ 8 ≤ p ∧ EndOf h h' p b ∧
      kmallocRound size + 8 ≤ h'.size (p - 8) ∧ h'.size (p - 8) < kmallocRound size + 40 := by
  have h0 := size_ne_zero_of_kmalloc hk hp
  by_cases hroom : ∃ x, OnList h x ∧ HasRoom h (kmallocRound size) x
  · obtain ⟨x, hx, hxroom⟩ := hroom
    obtain ⟨b, hb⟩ := hi.exists_firstFit hx hxroom
    refine ⟨b, hb, ?_⟩
    obtain ⟨hfind, c, hc, rfl⟩ := hi.find_firstFit hb
    have hcm := List.mem_append_left used hc
    have hsize := hi.tiling.sizes c hcm
    have hle := (hi.tiling.fit c hcm).le
    have hbroom := hb.2.1
    rw [HasRoom, hsize, blockHeaderSize] at hbroom
    obtain ⟨n, h₁, htake, hlo, hge, hlt, hend⟩ := hi.kmallocTake_eq hright hc hbroom
    have hptr : u32 (n + 8) ≠ 0 := by
      intro hzero
      rw [hzero] at htake
      rw [kmalloc_of_take_null page h0 rfl hfind htake] at hk
      cases hk
      exact hp rfl
    have hn : u32 (n + 8) = n + 8 := by
      unfold u32 at hptr ⊢
      omega
    rw [kmalloc_of_take h0 rfl hfind htake hptr] at hk
    cases hk
    rw [hn, Nat.add_sub_cancel, EndOf, freedBlock, blockHeaderSize, Nat.add_sub_cancel, hsize]
    exact ⟨Nat.le_add_left 8 n, ⟨hlo, hend⟩, hge, hlt⟩
  · rw [hi.kmalloc_of_no_room page h0 fun x hx hxroom => hroom ⟨x, hx, hxroom⟩] at hk
    cases hk
    exact absurd rfl hp

theorem kmalloc_of_room (hi : HeapInv h free used pages) (hright : PayloadsRight h)
    (vmm_alloc_page : Kern Heap Nat) {size x : Nat} (h0 : size ≠ 0) (hle : size ≤ 2 ^ 32 - 8)
    (hx : OnList h x) (hroom : HasRoom h (kmallocRound size) x) :
    ∃ p h', Kmalloc.kmalloc vmm_alloc_page size h = .ok p h' ∧ p ≠ 0 := by
  obtain ⟨b, hb⟩ := hi.exists_firstFit hx hroom
  obtain ⟨hfind, c, hc, rfl⟩ := hi.find_firstFit hb
  have hcm := List.mem_append_left used hc
  have hcle := (hi.tiling.fit c hcm).le
  have hround := kmallocRound_eq hle
  have hbroom := hb.2.1
  rw [HasRoom, hi.tiling.sizes c hcm, blockHeaderSize] at hbroom
  obtain ⟨n, h', htake, hlo, hge, -, hend⟩ := hi.kmallocTake_eq hright hc hbroom
  have hptr : u32 (n + 8) ≠ 0 := by
    rw [u32_of_lt (by omega)]
    omega
  exact ⟨_, h', kmalloc_of_take h0 rfl hfind htake hptr, hptr⟩

end HeapInv

/-! ### Requests -/

section Run

variable {base : Nat} {mem : Nat → Nat} {ops : List Op} {s : Sys}

/-- **Which requests are served.**  After calls that do not leave an allocated block on the list,
`kmalloc` returns a pointer exactly if a block of the free list has room, whatever page
`vmm_alloc_page` returns. -/
theorem serves_of_run (hb : FreshPage [] base)
    (h : Run (Within Step fun s op => Cuts s op ∧ op.IsCall) (.init base mem) ops s)
    {size : Nat} (page : Nat) (h1 : 1 ≤ size) (hsize : size ≤ 4088) :
    ∃ p h', kmalloc (pure page) size s.heap = .ok p h' ∧
      (p ≠ 0 ↔ ∃ b, OnList s.heap b ∧ HasRoom s.heap (kmallocRound size) b) := by
  obtain ⟨⟨free, hi⟩, hright⟩ := payloads_of_run hb (restores_of_run hb h)
  by_cases hroom : ∃ b, OnList s.heap b ∧ HasRoom s.heap (kmallocRound size) b
  · obtain ⟨b, hlist, hbroom⟩ := hroom
    obtain ⟨p, h', hk, hp⟩ := hi.heap.kmalloc_of_room hright (pure page) (by omega) (by omega) hlist
      hbroom
    exact ⟨p, h', hk, fun _ => ⟨b, hlist, hbroom⟩, fun _ => hp⟩
  · refine ⟨0, _, hi.heap.kmalloc_of_no_room page (by omega) fun x hx hxroom =>
      hroom ⟨x, hx, hxroom⟩, fun hne => absurd rfl hne, fun hex => absurd hex hroom⟩

/-- **What a pointer is worth.**  The rounded size is at least the size, and the block that the
pointer came from holds `size` bytes, exactly if the size is at most `2 ^ 32 - 8`. -/
theorem capacity_of_run (hb : FreshPage [] base)
    (h : Run (Within Step fun s op => Cuts s op ∧ Restores s op) (.init base mem) ops s)
    {size : Nat} (hsize : size < 2 ^ 32) :
    (size ≤ kmallocRound size ↔ size ≤ 2 ^ 32 - 8) ∧
      ∀ page p h', kmalloc (pure page) size s.heap = .ok p h' → p ≠ 0 →
        (∃ b, FirstFit s.heap (kmallocRound size) b ∧ EndOf s.heap h' p b) ∧
        (Holds h' p size ↔ size ≤ 2 ^ 32 - 8) := by
  obtain ⟨⟨free, hi⟩, hright⟩ := payloads_of_run hb h
  have hround := le_kmallocRound_iff hsize
  refine ⟨hround, ?_⟩
  intro page p h' hk hp
  obtain ⟨b, hfirst, hp8, hpart, hge, hlt⟩ := hi.heap.kmalloc_ok hright hk hp
  refine ⟨⟨b, hfirst, hpart⟩, ?_⟩
  have hholds : Holds h' p size ↔ size + 8 ≤ h'.size (p - 8) := by
    rw [Holds, freedBlock, blockHeaderSize]
    dsimp only
    omega
  rw [hholds, ← hround]
  constructor
  · intro hroom
    by_contra hwrap
    rw [hround] at hwrap
    rw [kmallocRound_of_wrap (by omega) hsize] at hlt
    omega
  · intro hle
    omega

/-- A request for 16 bytes after the first one. -/
theorem serves_heap16 : ∃ p h', kmalloc (pure 0x300000) 16 heap16 = .ok p h' ∧
    (p ≠ 0 ↔ ∃ b, OnList heap16 b ∧ HasRoom heap16 (kmallocRound 16) b) :=
  serves_of_run freshPage_2M (s := ⟨heap16, [⟨0x200FF0, 16⟩], [0x200000]⟩)
    (Run.single ⟨⟨cuts_heap16, trivial⟩, step_heap16⟩) 0x300000 (by decide) (by decide)

/-- A request for a page after the first one gets null, and the page goes to the heap. -/
theorem not_serves_4088 :
    FreshPage [] 0x200000 ∧ ∃ s, Run Step (.init 0x200000 fun _ => 0) [.kmalloc 16 0] s ∧
      FreshPage s.pages 0x300000 ∧
      kmalloc (pure 0x300000) 4088 s.heap = .ok 0 (kmallocGrow 0x300000 s.heap) := by
  obtain ⟨h, hk, hf⟩ := (FirstBlock.init freshPage_2M fun _ => 0).cut (pure 0)
    (by decide : 16 ≠ 0) (rfl : kmallocRound 16 = 16) (by decide) (by decide) (by decide)
  refine ⟨freshPage_2M, ⟨h, [⟨0x200FF0, 16⟩], [0x200000]⟩,
    Run.single (.kmalloc (by decide) hk (by decide)), freshPage_3M, ?_⟩
  apply hf.inv.kmalloc_grows 0x300000 (by decide)
  intro b hb
  rw [List.mem_singleton.mp hb]
  decide

/-- What a pointer to 100 bytes is worth. -/
theorem capacity_heap16 : (100 ≤ kmallocRound 100 ↔ 100 ≤ 2 ^ 32 - 8) ∧
    ∀ page p h', kmalloc (pure page) 100 heap16 = .ok p h' → p ≠ 0 →
      (∃ b, FirstFit heap16 (kmallocRound 100) b ∧ EndOf heap16 h' p b) ∧
      (Holds h' p 100 ↔ 100 ≤ 2 ^ 32 - 8) :=
  capacity_of_run freshPage_2M (s := ⟨heap16, [⟨0x200FF0, 16⟩], [0x200000]⟩)
    (Run.single ⟨⟨cuts_heap16, trivial⟩, step_heap16⟩) (by decide)

/-- The largest size is rounded to zero, and gets a pointer. -/
theorem not_holds_max :
    FreshPage [] 0x200000 ∧ kmallocRound 0xFFFFFFFF = 0 ∧
      ∃ p h', kmalloc (pure 0) 0xFFFFFFFF (kmallocInit 0x200000 fun _ => 0) = .ok p h' ∧ p ≠ 0 ∧
        ¬ Holds h' p 0xFFFFFFFF := by
  have hround : kmallocRound 0xFFFFFFFF = 0 := kmallocRound_of_wrap (by decide) (by decide)
  have hi := HeapInv.init freshPage_2M fun _ => 0
  obtain ⟨n, h', htake, hlo, -, hlt, hend⟩ := hi.kmallocTake_eq
    (payloadsRight_init freshPage_2M fun _ => 0) (s := 0) List.mem_cons_self (by decide)
  have hfind := hi.find_eq 0
  rw [List.find?_cons_of_pos (by decide)] at hfind
  dsimp only at hlo hend
  have hn : u32 (n + 8) = n + 8 := u32_of_lt (by omega)
  rw [hn] at htake
  refine ⟨freshPage_2M, hround, n + 8, h',
    kmalloc_of_take (by decide) hround hfind htake (Nat.succ_ne_zero _), Nat.succ_ne_zero _, ?_⟩
  rw [Holds, freedBlock, blockHeaderSize, Nat.add_sub_cancel]
  dsimp only
  omega

end Run

/-! ### Requests that fail -/

/-- The call takes a page: it cannot return when there is none. -/
def TakesPage (h : Heap) (size : Nat) : Prop :=
  ∃ h', kmalloc (fun h => .error (.panic "out of memory\n") h) size h =
    .error (.panic "out of memory\n") h'

/-- The free lists have the same blocks, sizes, links and end. -/
structure SameList (h h' : Heap) : Prop where
  head : h'.head = h.head
  tail : h'.tail = h.tail
  blocks : ∀ b, OnList h' b ↔ OnList h b
  fields : ∀ b, OnList h b → h'.size b = h.size b ∧ h'.next b = h.next b

section Null

variable {h h' : Heap} {size page p : Nat}

theorem takesPage_iff (hk : kmalloc (pure page) size h = .ok p h') :
    TakesPage h size ↔ size ≠ 0 ∧ p = 0 := by
  unfold TakesPage
  unfold kmalloc at hk ⊢
  by_cases h0 : size = 0
  · rw [if_pos h0] at hk ⊢
    simp [h0]
  · rw [if_neg h0] at hk ⊢
    dsimp only at hk ⊢
    split at hk
    · cases hk
    · next found hfind =>
      cases found with
      | none =>
        dsimp only at hk ⊢
        rw [if_pos rfl] at hk ⊢
        cases hk
        simp [h0]
      | some block =>
        dsimp only at hk ⊢
        by_cases hnull : (kmallocTake block (kmallocRound size) h).1 = 0
        · rw [if_pos hnull] at hk ⊢
          cases hk
          simp [h0]
        · rw [if_neg hnull] at hk ⊢
          cases hk
          simp [hnull]

/-- **When a call that returns null changes nothing.** -/
theorem null_unchanged_iff (hk : kmalloc (pure page) size h = .ok 0 h') :
    (SameList h h' ∧ ¬ TakesPage h size) ↔ size = 0 := by
  rw [takesPage_iff hk]
  constructor
  · rintro ⟨-, hnot⟩
    by_contra h0
    exact hnot ⟨h0, rfl⟩
  · intro h0
    rw [kmalloc, if_pos h0] at hk
    cases hk
    exact ⟨⟨rfl, rfl, fun _ => Iff.rfl, fun _ _ => ⟨rfl, rfl⟩⟩, fun hpage => hpage.1 h0⟩

theorem Step.pages_eq_iff {s s' : Sys} (hs : Step s (.kmalloc size page) s') :
    s'.pages = s.pages ↔ ¬ TakesPage s.heap size := by
  cases hs with
  | null hsize hpage hk =>
    rw [takesPage_iff hk]
    by_cases h0 : size = 0
    · simp [h0]
    · simp [h0]
  | kmalloc hsize hk hp =>
    rw [takesPage_iff hk]
    simp [hp]

end Null

/-- A request for nothing. -/
theorem null_unchanged_zero :
    (SameList initHeap initHeap ∧ ¬ TakesPage initHeap 0) ↔ (0 : Nat) = 0 :=
  null_unchanged_iff (rfl : kmalloc (pure 0) 0 initHeap = .ok 0 initHeap)

/-- A request for a page of bytes gets null, and the heap grows by a page that cannot serve it. -/
theorem not_unchanged_4096 :
    kmalloc (pure 0x300000) 4096 initHeap = .ok 0 grownHeap ∧ ¬ SameList initHeap grownHeap ∧
      TakesPage initHeap 4096 := by
  have hk : kmalloc (pure 0x300000) 4096 initHeap = .ok 0 grownHeap :=
    kmalloc_4096 (HeapInv.init freshPage_2M fun _ => 0) 0x300000 fun b hb => by
      rw [List.mem_singleton.mp hb]
  refine ⟨hk, ?_, (takesPage_iff hk).mpr ⟨by decide, rfl⟩⟩
  intro hsame
  have hlist : OnList initHeap 0x200000 := ⟨by decide, [], rfl, List.not_mem_nil⟩
  exact absurd (hsame.fields _ hlist).2 (by decide)

end Aosis.Memory.Kmalloc
