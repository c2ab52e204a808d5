import Aosis.Memory.Vmm

/-!
# The blocks while nothing is freed

As long as `vmm_free_page` is not called the pages are handed out in the order of their
addresses.  `Layout T f N blocks` describes the list after pages `f` to `N - 1` of the kernel's
address space were handed out (the pages before `f` hold the kernel): which bits are set,
what the counters say, and where the blocks and their page tables lie.

* `Layout.findPage`: the search finds page `N`, unless the last block is full.
* `Layout.alloc`: a call of `vmm_alloc_page` that returns gives page `N` and leads to the
  layout for `N + 1`.
-/

namespace Aosis.Memory.Vmm

open Aosis.Lib.Bitmap Aosis.Memory.Pmm Aosis.Memory.Paging

/-! ### The search in a bitmap -/

theorem vmmGetPageFromBitmap_cases (bitmap : Vector Word 32) :
    (vmmGetPageFromBitmap bitmap = none ∧ ∀ i < 1024, bit bitmap i = true) ∨
      ∃ i < 1024, IsFirstClear bitmap i ∧
        vmmGetPageFromBitmap bitmap = some (i, setAt bitmap i) := by
  unfold vmmGetPageFromBitmap
  cases hs : scanBitmap bitmap 32 0 with
  | error e =>
    have := (scanBitmap_error hs).2
    omega
  | ok res =>
    cases res with
    | none => exact Or.inl ⟨rfl, scanBitmap_none hs⟩
    | some p =>
      obtain ⟨i, j⟩ := p
      obtain ⟨hi, hj, hfirst⟩ := scanBitmap_some hs
      refine Or.inr ⟨32 * i + j, by omega, hfirst, ?_⟩
      dsimp only
      rw [Fin.getElem_fin, set_setBit hi hj]

theorem vmmGetPageFromBitmap_of_prefix {bitmap : Vector Word 32} {n : Nat}
    (hb : ∀ i < 1024, bit bitmap i = decide (i < n)) (hn : n < 1024) :
    vmmGetPageFromBitmap bitmap = some (n, setAt bitmap n) := by
  have hfirst : IsFirstClear bitmap n :=
    ⟨by rw [hb n hn]; simp, fun i hi => by rw [hb i (by omega)]; simpa using hi⟩
  rcases vmmGetPageFromBitmap_cases bitmap with ⟨-, hall⟩ | ⟨i, -, hi, hfind⟩
  · have := hall n hn
    rw [hfirst.1] at this
    cases this
  · rw [hfind, hi.unique hfirst]

/-! ### The layout -/

/-- Page `n` of the kernel's address space. -/
def pageAddr (n : Nat) : Nat := u32 (kernelBaseAddrVirt + 4096 * n)

theorem pageAddr_add (n m : Nat) : u32 (pageAddr n + 4096 * m) = pageAddr (n + m) := by
  unfold pageAddr u32
  omega

section Next

variable {first k : Nat}

theorem pageAddr_table (h : first = pageAddr (1024 * k)) :
    u32 (first + highWaterThreshold * pageSize) = pageAddr (1024 * k + 1022) := by
  rw [h, highWaterThreshold, pageSize, Nat.mul_comm 1022, pageAddr_add]

theorem pageAddr_next (h : first = pageAddr (1024 * k)) :
    u32 (first + pageTableRange) = pageAddr (1024 * (k + 1)) := by
  rw [h, pageTableRange, pageTableIndices, pageSize, Nat.mul_comm 1024 4096, pageAddr_add,
    Nat.mul_succ]

end Next

/-- Block `b` when the pages before `N` are taken; `T` is the page table of block 0. -/
structure BlockAt (T N b : Nat) (d : VmmBlockDesc) : Prop where
  bits : ∀ i < 1024, bit d.bitmap i = decide (1024 * b + i < N)
  free : d.freePages = 1024 - (N - 1024 * b)
  mark : d.highWaterMark = min 1024 (N - 1024 * b)
  first : d.firstPage = pageAddr (1024 * b)
  table : d.pageTable = if b = 0 then T else pageAddr (1024 * (b - 1) + 1022)

/-- The list of blocks when the pages from `f` to before `N` were handed out. -/
structure Layout (T f N : Nat) (blocks : List VmmBlockDesc) : Prop where
  block : ∀ b (h : b < blocks.length), BlockAt T N b blocks[b]
  length : blocks.length = if f ≤ 1021 then (N + 2) / 1024 + 1 else 1

/-- The descriptor of block `b` after its page `N` is taken. -/
def takePage (N : Nat) (d : VmmBlockDesc) : VmmBlockDesc where
  bitmap := setAt d.bitmap (N % 1024)
  highWaterMark := N % 1024 + 1
  freePages := d.freePages - 1
  firstPage := d.firstPage
  pageTable := d.pageTable

namespace BlockAt

variable {T N b : Nat} {d : VmmBlockDesc}

theorem succ_of_ne (h : BlockAt T N b d) (hb : b ≠ N / 1024) : BlockAt T (N + 1) b d := by
  refine ⟨?_, ?_, ?_, h.first, h.table⟩
  · intro i hi
    rw [h.bits i hi, decide_eq_decide]
    omega
  · rw [h.free]
    omega
  · rw [h.mark]
    omega

theorem succ_take (h : BlockAt T N (N / 1024) d) : BlockAt T (N + 1) (N / 1024) (takePage N d) := by
  refine ⟨?_, ?_, ?_, h.first, h.table⟩
  · intro i hi
    rw [takePage, bit_setAt (by omega), h.bits i hi, ← Bool.decide_or, decide_eq_decide]
    omega
  · show d.freePages - 1 = _
    rw [h.free]
    omega
  · show N % 1024 + 1 = _
    omega

theorem new (hN : N ≤ 1024 * b) (hb : 0 < b) :
    BlockAt T N b
      { bitmap := Vector.replicate 32 0
        highWaterMark := 0
        freePages := 1024
        firstPage := pageAddr (1024 * b)
        pageTable := pageAddr (1024 * (b - 1) + 1022) } := by
  refine ⟨?_, ?_, ?_, rfl, by rw [if_neg (by omega)]⟩
  · intro i hi
    have hbit : bit (Vector.replicate 32 (0 : Word)) i = false := by simp [bit]
    rw [hbit, eq_comm, decide_eq_false_iff_not]
    omega
  · dsimp only
    omega
  · dsimp only
    omega

theorem find_self (h : BlockAt T N (N / 1024) d) (rest : List VmmBlockDesc) :
    vmmFindPage (d :: rest) = some (0, pageAddr N, takePage N d) := by
  have hfree := h.free
  have hmark := h.mark
  have hget := vmmGetPageFromBitmap_of_prefix (n := N % 1024)
    (fun i hi => (h.bits i hi).trans (by rw [decide_eq_decide]; omega)) (by omega)
  have hpage : u32 (d.firstPage + N % 1024 * pageSize) = pageAddr N := by
    rw [h.first, pageAddr, pageAddr, pageSize, u32, u32, u32]
    omega
  rw [vmmFindPage, if_neg (by omega), hget]
  dsimp only
  rw [hpage, if_pos (by omega), sub32_of_le (by omega) (by omega)]
  rfl

theorem find_full (h : BlockAt T N b d) (hb : b < N / 1024) (rest : List VmmBlockDesc) :
    vmmFindPage (d :: rest) =
      (vmmFindPage rest).map fun (k, found) => (k + 1, found) := by
  have hfree := h.free
  rw [vmmFindPage, if_pos (by omega)]

end BlockAt

/-! ### What the rest of a call does to the list -/

/-- `kmalloc` returns a block, without touching the page tables and the lists of pages. -/
def Succeeds (kmalloc : Nat → Kern State Nat) : Prop :=
  ∀ size s, ∃ p, p ≠ 0 ∧ kmalloc size s = .ok p s

/-- `kmalloc` returns a block.  It may take a page for the heap, but not before there are `room`
blocks: the page that the heap starts with has room for so many descriptors. -/
def Serves (room : Nat) (kmalloc : Nat → Kern State Nat) : Prop :=
  ∀ size s, s.allocatingNewBlock = true → ∃ p s', p ≠ 0 ∧ kmalloc size s = .ok p s' ∧
    (s' = s ∨ room ≤ s.vmmBlockList.length ∧ ∃ page, vmmAllocPage kmalloc s = .ok page s')

theorem succeeds_pure {p : Nat} (hp : p ≠ 0) : Succeeds fun _ => pure p :=
  fun _ _ => ⟨p, hp, rfl⟩

theorem Succeeds.serves {kmalloc : Nat → Kern State Nat} (hk : Succeeds kmalloc) (room : Nat) :
    Serves room kmalloc := by
  intro size s _
  obtain ⟨p, hp, h⟩ := hk size s
  exact ⟨p, s, hp, h, Or.inl rfl⟩

/-- The descriptor of the block after `d`. -/
def newBlock (d : VmmBlockDesc) : VmmBlockDesc where
  bitmap := Vector.replicate 32 0
  highWaterMark := 0
  freePages := 1024
  firstPage := u32 (d.firstPage + 4096 * 1024)
  pageTable := u32 (d.firstPage + 4096 * 1022)

section Calls

variable {kmalloc : Nat → Kern State Nat} {s s' : State} {d : VmmBlockDesc} {k p : Nat}

theorem onPaging_eq_ok {α : Type} {x : Kern Paging.Mem α} {a : α}
    (h : onPaging x s = .ok a s') :
    ∃ t, x s.paging = .ok a t ∧ s' = { s with paging := t } := Kern.of_zoom_eq_ok h

theorem vmmAddVmmBlock_list (h : vmmAddVmmBlock kmalloc d s = .ok () s') :
    ∃ ptr t, kmalloc sizeofVmmBlockDesc s = .ok ptr t ∧
      s'.vmmBlockList = t.vmmBlockList ++ [newBlock d] := by
  unfold vmmAddVmmBlock at h
  obtain ⟨ptr, t, hkm, h⟩ := Kern.of_bind_eq_ok h
  refine ⟨ptr, t, hkm, ?_⟩
  dsimp only at h
  split at h
  · cases h
  · obtain ⟨a, s₁, h₁, h⟩ := Kern.of_bind_eq_ok h
    obtain ⟨t₁, -, rfl⟩ := onPaging_eq_ok h₁
    obtain ⟨_, s₂, h₂, h⟩ := Kern.of_bind_eq_ok h
    obtain ⟨t₂, -, rfl⟩ := onPaging_eq_ok h₂
    obtain ⟨_, s₃, h₃, h⟩ := Kern.of_bind_eq_ok h
    obtain ⟨t₃, -, rfl⟩ := onPaging_eq_ok h₃
    rw [Kern.modify_ok] at h
    cases h
    rfl

/-- A block is added when the flag is clear, and the flag stays clear. -/
theorem vmmReserveBlock_cases (h : vmmReserveBlock kmalloc k d s = .ok () s') :
    (¬ (d.highWaterMark = 1022 ∧ k + 1 = s.vmmBlockList.length ∧ s.allocatingNewBlock = false) ∧
        s' = s) ∨
      d.highWaterMark = 1022 ∧ k + 1 = s.vmmBlockList.length ∧ s.allocatingNewBlock = false ∧
        ∃ u, vmmAddVmmBlock kmalloc d { s with allocatingNewBlock := true } = .ok () u ∧
          s' = { u with allocatingNewBlock := false } := by
  rw [vmmReserveBlock] at h
  split at h
  · next hc =>
    obtain ⟨_, s₁, hset, h⟩ := Kern.of_bind_eq_ok h
    rw [Kern.modify_ok] at hset
    cases hset
    obtain ⟨_, s₂, hblock, h⟩ := Kern.of_bind_eq_ok h
    rw [Kern.modify_ok] at h
    cases h
    exact Or.inr ⟨hc.1, hc.2.1, hc.2.2, s₂, hblock, rfl⟩
  · next hc =>
    cases h
    exact Or.inl ⟨hc, rfl⟩

theorem vmmMapPage_list {page : Nat} (h : vmmMapPage page d s = .ok p s') :
    p = page ∧ s'.vmmBlockList = s.vmmBlockList ∧
      s'.allocatingNewBlock = s.allocatingNewBlock := by
  unfold vmmMapPage at h
  obtain ⟨mapped, s₁, hmapped, h⟩ := Kern.of_bind_eq_ok h
  obtain ⟨t₁, -, rfl⟩ := onPaging_eq_ok hmapped
  cases mapped with
  | true =>
    cases h
    exact ⟨rfl, rfl, rfl⟩
  | false =>
    obtain ⟨_, s₂, hmap, h⟩ := Kern.of_bind_eq_ok h
    obtain ⟨t₂, -, rfl⟩ := onPaging_eq_ok hmap
    cases h
    exact ⟨rfl, rfl, rfl⟩

theorem of_vmmAllocPage_eq_ok (h : vmmAllocPage kmalloc s = .ok p s') :
    ∃ k d s₁, vmmFindPage s.vmmBlockList = some (k, p, d) ∧ p ≠ 0 ∧
      vmmReserveBlock kmalloc k d { s with vmmBlockList := s.vmmBlockList.set k d } = .ok () s₁ ∧
      vmmMapPage p d s₁ = .ok p s' := by
  rw [vmmAllocPage] at h
  split at h
  · cases h
  · next k page d hfind =>
    dsimp only at h
    split at h
    · cases h
    · next hp =>
      obtain ⟨_, s₁, hreserve, hmap⟩ := Kern.of_bind_eq_ok h
      obtain ⟨rfl, -⟩ := vmmMapPage_list hmap
      exact ⟨k, d, s₁, hfind, hp, hreserve, hmap⟩

end Calls

/-! ### One call -/

/-- The blocks when the pages before `N` are taken. -/
def Blocks (T N : Nat) (blocks : List VmmBlockDesc) : Prop :=
  ∀ b (h : b < blocks.length), BlockAt T N b blocks[b]

theorem findPage_from {T N : Nat} {blocks : List VmmBlockDesc} {b : Nat} (hb : b ≤ N / 1024)
    (hall : ∀ j (h : j < blocks.length), BlockAt T N (b + j) blocks[j]) :
    (blocks.length ≤ N / 1024 - b ∧ vmmFindPage blocks = none) ∨
      ∃ h : N / 1024 - b < blocks.length,
        vmmFindPage blocks =
          some (N / 1024 - b, pageAddr N, takePage N (blocks.get ⟨N / 1024 - b, h⟩)) := by
  induction blocks generalizing b with
  | nil => exact Or.inl ⟨Nat.zero_le _, rfl⟩
  | cons d rest ih =>
    have hd : BlockAt T N b d := hall 0 (Nat.succ_pos _)
    by_cases heq : b = N / 1024
    · subst heq
      right
      simp only [Nat.sub_self]
      exact ⟨Nat.succ_pos _, hd.find_self rest⟩
    · rw [hd.find_full (by omega)]
      have hrest : ∀ j (h : j < rest.length), BlockAt T N (b + 1 + j) rest[j] := by
        intro j hj
        rw [Nat.add_assoc, Nat.add_comm 1 j]
        exact hall (j + 1) (Nat.succ_lt_succ hj)
      have hsub : N / 1024 - b = N / 1024 - (b + 1) + 1 := by omega
      rcases ih (by omega) hrest with ⟨hlen, hnone⟩ | ⟨hlt, hsome⟩
      · left
        rw [hnone, List.length_cons]
        exact ⟨by omega, rfl⟩
      · right
        refine ⟨by rw [List.length_cons]; omega, ?_⟩
        rw [hsome]
        simp only [hsub, List.get_cons_succ, Option.map_some]

namespace Blocks

variable {T N : Nat} {blocks : List VmmBlockDesc}

/-- **The search finds page `N`**, unless there is no block for it. -/
theorem findPage (hb : Blocks T N blocks) :
    (blocks.length ≤ N / 1024 ∧ vmmFindPage blocks = none) ∨
      ∃ h : N / 1024 < blocks.length,
        vmmFindPage blocks =
          some (N / 1024, pageAddr N, takePage N (blocks.get ⟨N / 1024, h⟩)) := by
  apply findPage_from (T := T) (b := 0) (Nat.zero_le _)
  intro j hj
  rw [Nat.zero_add]
  exact hb j hj

theorem take (hb : Blocks T N blocks) (h : N / 1024 < blocks.length) :
    Blocks T (N + 1) (blocks.set (N / 1024) (takePage N (blocks.get ⟨N / 1024, h⟩))) := by
  intro b hlt
  rw [List.length_set] at hlt
  rw [List.getElem_set]
  by_cases heq : N / 1024 = b
  · subst heq
    rw [if_pos rfl]
    exact (hb _ h).succ_take
  · rw [if_neg heq]
    exact (hb b hlt).succ_of_ne (Ne.symm heq)

theorem append_new (hb : Blocks T N blocks) (hN : N ≤ 1024 * blocks.length) {k : Nat}
    (hk : k + 1 = blocks.length) {d : VmmBlockDesc} (hd : d.firstPage = pageAddr (1024 * k)) :
    Blocks T N (blocks ++ [newBlock d]) := by
  intro b hlt
  rw [List.getElem_append]
  split
  · next hb' => exact hb b hb'
  · next hb' =>
    rw [List.length_append, List.length_singleton] at hlt
    obtain rfl : b = k + 1 := by omega
    have hnew := BlockAt.new (T := T) (N := N) (b := k + 1) (by omega) (Nat.succ_pos k)
    rw [Nat.mul_succ, Nat.add_sub_cancel, ← pageAddr_add, ← pageAddr_add, ← hd] at hnew
    rw [List.getElem_singleton]
    exact hnew

end Blocks

theorem Layout.blocks {T f N : Nat} {l : List VmmBlockDesc} (hl : Layout T f N l) : Blocks T N l :=
  hl.block

section Alloc

variable {T f N p room : Nat} {kmalloc : Nat → Kern State Nat} {s s' : State}

theorem Blocks.alloc_cases (hb : Blocks T N s.vmmBlockList)
    (h : vmmAllocPage kmalloc s = .ok p s') :
    p = pageAddr N ∧ p ≠ 0 ∧ ∃ hlt : N / 1024 < s.vmmBlockList.length, ∃ d s₁,
      d = takePage N (s.vmmBlockList.get ⟨N / 1024, hlt⟩) ∧
      vmmReserveBlock kmalloc (N / 1024) d
        { s with vmmBlockList := s.vmmBlockList.set (N / 1024) d } = .ok () s₁ ∧
      vmmMapPage p d s₁ = .ok p s' := by
  obtain ⟨k, d, s₁, hfind, hp, hreserve, hmap⟩ := of_vmmAllocPage_eq_ok h
  rcases hb.findPage with ⟨-, hnone⟩ | ⟨hlt, hsome⟩
  · rw [hnone] at hfind
    cases hfind
  · rw [hsome] at hfind
    cases hfind
    exact ⟨rfl, hp, hlt, _, s₁, rfl, hreserve, hmap⟩

/-- The call that `kmalloc` makes, while a block is being added: it takes the next page and adds no
block. -/
theorem Blocks.alloc_nested (hb : Blocks T N s.vmmBlockList) (hflag : s.allocatingNewBlock = true)
    (h : vmmAllocPage kmalloc s = .ok p s') :
    s'.vmmBlockList.length = s.vmmBlockList.length ∧ Blocks T (N + 1) s'.vmmBlockList := by
  obtain ⟨rfl, hp, hlt, d, s₁, rfl, hreserve, hmap⟩ := hb.alloc_cases h
  obtain ⟨-, hlist, -⟩ := vmmMapPage_list hmap
  rcases vmmReserveBlock_cases hreserve with ⟨-, rfl⟩ | ⟨-, -, hclear, -⟩
  · rw [hlist]
    exact ⟨List.length_set, hb.take hlt⟩
  · exact absurd (hflag.symm.trans hclear) (by decide)

/-- **One call.**  If it returns, it gives page `N`, and takes this page alone, or page `N + 1` too
when `kmalloc` needs one for the heap. -/
theorem Layout.alloc (hk : Serves room kmalloc) (hl : Layout T f N s.vmmBlockList) (hf : f ≤ N)
    (hflag : s.allocatingNewBlock = false) (h : vmmAllocPage kmalloc s = .ok p s') :
    p = pageAddr N ∧ p ≠ 0 ∧ N / 1024 < s.vmmBlockList.length ∧
      s'.allocatingNewBlock = false ∧ ∃ M, Layout T f M s'.vmmBlockList ∧
        (M = N + 1 ∨ M = N + 2 ∧ N % 1024 = 1021 ∧ room ≤ s.vmmBlockList.length) := by
  obtain ⟨rfl, hp, hlt, d, s₁, hd, hreserve, hmap⟩ := hl.blocks.alloc_cases h
  obtain ⟨-, hlist, hflag'⟩ := vmmMapPage_list hmap
  have hlen := hl.length
  have hfirst := (hl.block _ hlt).first
  have htake := hl.blocks.take hlt
  rw [← hd] at htake
  have hmark : d.highWaterMark = N % 1024 + 1 := by rw [hd]; rfl
  have hdfirst : d.firstPage = pageAddr (1024 * (N / 1024)) := by rw [hd]; exact hfirst
  refine ⟨rfl, hp, hlt, ?_⟩
  rcases vmmReserveBlock_cases hreserve with ⟨hno, rfl⟩ | ⟨hm, hlast, -, u, hadd, rfl⟩
  · refine ⟨hflag'.trans hflag, N + 1, ⟨?_, ?_⟩, Or.inl rfl⟩
    · rw [hlist]
      exact htake
    · simp only [hlist, List.length_set, hlen]
      simp only [hmark, List.length_set, hflag, and_true, hlen] at hno
      rw [hlen] at hlt
      split_ifs at * <;> omega
  · rw [List.length_set] at hlast
    refine ⟨hflag', ?_⟩
    obtain ⟨ptr, t, hkm, ht⟩ := vmmAddVmmBlock_list hadd
    obtain ⟨_, t', _, hkm', ht'⟩ := hk sizeofVmmBlockDesc
      { s with
        vmmBlockList := s.vmmBlockList.set (N / 1024) d
        allocatingNewBlock := true } rfl
    rw [hkm'] at hkm
    cases hkm
    rcases ht' with rfl | ⟨hroom, page, hpage⟩
    · refine ⟨N + 1, ⟨?_, ?_⟩, Or.inl rfl⟩
      · rw [hlist, ht]
        refine htake.append_new ?_ (k := N / 1024) ?_ hdfirst
        · rw [List.length_set]
          omega
        · rw [List.length_set]
          exact hlast
      · rw [hlist, ht, List.length_append, List.length_set, List.length_singleton]
        rw [hlen] at hlt hlast ⊢
        split_ifs at * <;> omega
    · obtain ⟨hlen', hblocks⟩ := Blocks.alloc_nested (by exact htake) rfl hpage
      dsimp only at hlen'
      rw [List.length_set] at hlen'
      refine ⟨N + 2, ⟨?_, ?_⟩, Or.inr ⟨rfl, by omega, ?_⟩⟩
      · rw [hlist, ht]
        refine hblocks.append_new ?_ (k := N / 1024) ?_ hdfirst
        · omega
        · rw [hlen']
          exact hlast
      · rw [hlist, ht, List.length_append, hlen', List.length_singleton]
        rw [hlen] at hlt hlast ⊢
        split_ifs at * <;> omega
      · dsimp only at hroom
        rwa [List.length_set] at hroom

end Alloc

end Aosis.Memory.Vmm
