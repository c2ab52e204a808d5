import Aosis.Memory.VmmMapped

/-!
# Who owns a frame

The first pages that `vmm_alloc_page` hands out are mapped by `paging_init` already, page `n` to
frame `n`, while the bitmap of the frame allocator has these frames as free.  `Owned` says that the
frames behind the pages were not returned by `pmm_alloc_page`, and are different.

* `owned_of_run`: a run keeps the frames apart as long as no block is added, and the lowest free
  frame of the pool is not behind one of the pages.
-/

namespace Aosis.Memory.Vmm

open Aosis.Lib Aosis.Lib.Bitmap Aosis.Memory.Pmm Aosis.Memory.Paging

/-- A call of one of the two allocators. -/
inductive OwnOp where
  | vmm
  | pmm
  deriving DecidableEq

/-- The state, the pages that `vmm_alloc_page` returned, and the frames that the direct calls of
`pmm_alloc_page` returned. -/
structure OwnSys where
  state : State
  pages : List Nat
  granted : List Nat

/-- The calls that return. -/
inductive OwnStep (kmalloc : Nat → Kern State Nat) : OwnSys → OwnOp → OwnSys → Prop
  | vmm {s : OwnSys} {p : Nat} {s' : State} (h : vmmAllocPage kmalloc s.state = .ok p s') :
      OwnStep kmalloc s .vmm ⟨s', s.pages ++ [p], s.granted⟩
  | pmm {s : OwnSys} {a : Nat} {pmm' : PhysicalMemory}
      (h : pmmAllocPage s.state.paging.pmm = .ok a pmm') :
      OwnStep kmalloc s .pmm ⟨{ s.state with paging := { s.state.paging with pmm := pmm' } }, s.pages,
        if a = 0 then s.granted else s.granted ++ [a >>> 12]⟩

/-- The frame behind a page that was handed out belongs to this page alone. -/
def Owned (s : OwnSys) : Prop :=
  ∀ p ∈ s.pages, ∀ f, s.state.paging.frame p = some f →
    f ∉ s.granted ∧ ∀ q ∈ s.pages, s.state.paging.frame q = some f → q = p

section Runs

variable {s₀ : State} {d t : Nat} {ops : List OwnOp} {s s' : OwnSys} {op : OwnOp}
  {kmalloc : Nat → Kern State Nat}

/-- A frame of the pool that is not below its lowest free one. -/
def FromLowestFree (pmm : PhysicalMemory) (f : Nat) : Prop :=
  ∃ k < 32 * (pmm.pageCount / 32), IsFirstClear pmm.bitmap k ∧ pmm.startingAddr / 4096 + k ≤ f

/-- The allocator `pmm'` has the pool of `pmm`, and all that is taken there is taken. -/
structure Later (pmm pmm' : PhysicalMemory) : Prop where
  start : pmm'.startingAddr = pmm.startingAddr
  count : pmm'.pageCount = pmm.pageCount
  bits : ∀ i, bit pmm.bitmap i = true → bit pmm'.bitmap i = true

/-- A call leaves a later pool, and what it returns is not below the lowest free frame of the
earlier one. -/
theorem Later.alloc {pmm pmm' pmm'' : PhysicalMemory} {a : Nat} (hp : PoolStart pmm)
    (hl : Later pmm pmm') (h : pmmAllocPage pmm' = .ok a pmm'') :
    Later pmm pmm'' ∧ (a ≠ 0 → FromLowestFree pmm (a >>> 12)) := by
  have hmod := hp.aligned
  have hle := hp.le
  rcases pmmAllocPage_cases h with ⟨rfl, rfl, -⟩ | ⟨k, hk, hkb, hfirst, rfl, rfl⟩
  · exact ⟨hl, fun h0 => absurd rfl h0⟩
  · refine ⟨⟨hl.start, hl.count, ?_⟩, ?_⟩
    · intro i hi
      rw [bit_setAt hkb, hl.bits i hi, Bool.true_or]
    · intro _
      have hclear : bit pmm.bitmap k = false := by
        by_contra hset
        rw [Bool.not_eq_false] at hset
        have := hl.bits k hset
        rw [hfirst.1] at this
        cases this
      have hex : ∃ i, bit pmm.bitmap i = false := ⟨k, hclear⟩
      have hmin : Nat.find hex ≤ k := Nat.find_min' hex hclear
      refine ⟨Nat.find hex, by rw [← hl.count]; omega, ⟨Nat.find_spec hex, fun i hi => ?_⟩, ?_⟩
      · have := Nat.find_min hex hi
        rwa [Bool.not_eq_false] at this
      · rw [hl.start, u32_of_lt (by omega), Nat.shiftRight_eq_div_pow]
        omega

/-- What a run has done to the state, when no block was added. -/
structure OwnInv (s₀ : State) (d t : Nat) (ops : List OwnOp) (s : OwnSys) : Prop where
  mapped : Mapped s.state d (t + 1) (t + 1 + ops.count .vmm) fun _ => t
  one : s.state.vmmBlockList.length = 1
  pages : ∀ p ∈ s.pages, ∃ j, t < j ∧ j < t + 1 + ops.count .vmm ∧ j < 1024 ∧ p = pageAddr j
  pool : Later s₀.paging.pmm s.state.paging.pmm
  granted : ∀ g ∈ s.granted, g ≤ t ∨ 0 < ops.count .pmm ∧ FromLowestFree s₀.paging.pmm g

theorem OwnInv.vmm (hi : OwnInv s₀ d t ops s) (hN : t + 1 + ops.count .vmm ≠ 1021)
    (h : OwnStep kmalloc s .vmm s') : OwnInv s₀ d t (ops ++ [.vmm]) s' := by
  have hvmm : (ops ++ [OwnOp.vmm]).count .vmm = ops.count .vmm + 1 := by simp
  have hpmm : (ops ++ [OwnOp.vmm]).count .pmm = ops.count .pmm := by simp
  cases h with
  | vmm h =>
    obtain ⟨-, -, hlt, -⟩ := hi.mapped.layout.blocks.alloc_cases h
    have hone := hi.mapped.layout.length
    rw [hi.one] at hlt hone
    obtain ⟨s₁, halloc, hpaging, hm⟩ := hi.mapped.alloc_first kmalloc (by omega) hN
    rw [halloc] at h
    cases h
    refine ⟨hvmm ▸ hm, ?_, fun p hp => ?_, by rw [hpaging]; exact hi.pool, hpmm ▸ hi.granted⟩
    · dsimp only
      rw [hm.layout.length]
      split_ifs at hone ⊢ <;> omega
    · rw [hvmm]
      rcases List.mem_append.mp hp with hp | hp
      · obtain ⟨j, hj, hj', hlt', rfl⟩ := hi.pages p hp
        exact ⟨j, hj, by omega, hlt', rfl⟩
      · exact ⟨_, by omega, by omega, by omega, List.mem_singleton.mp hp⟩

theorem OwnInv.pmm (hp : PoolStart s₀.paging.pmm) (hi : OwnInv s₀ d t ops s)
    (h : OwnStep kmalloc s .pmm s') : OwnInv s₀ d t (ops ++ [.pmm]) s' := by
  have hvmm : (ops ++ [OwnOp.pmm]).count .vmm = ops.count .vmm := by simp
  have hpmm : (ops ++ [OwnOp.pmm]).count .pmm = ops.count .pmm + 1 := by simp
  cases h with
  | @pmm a pmm' h =>
    obtain ⟨hpool, hlow⟩ := hi.pool.alloc hp h
    have ht := hi.mapped.tables
    obtain ⟨hstart, htaken, -⟩ := pmmAllocPage_taken ht.start h
    refine ⟨⟨hvmm ▸ hi.mapped.layout, hi.mapped.flag, ?_, hi.mapped.first, hvmm ▸ hi.mapped.le⟩,
      hi.one, hvmm ▸ hi.pages, hpool, fun g hg => ?_⟩
    · exact ⟨ht.tables.congr rfl rfl (fun _ _ => rfl) fun _ _ => rfl, ht.writable, hstart,
        htaken _ ht.directory, fun b hb => htaken _ (ht.taken b hb), ht.lt⟩
    · rw [hpmm]
      have hold : g ∈ s.granted → g ≤ t ∨ 0 < ops.count .pmm + 1 ∧ FromLowestFree s₀.paging.pmm g :=
        fun hg => (hi.granted g hg).imp_right fun hfree => ⟨Nat.succ_pos _, hfree.2⟩
      dsimp only at hg
      split at hg
      · exact hold hg
      · next h0 =>
        rcases List.mem_append.mp hg with hg | hg
        · exact hold hg
        · rw [List.mem_singleton.mp hg]
          exact Or.inr ⟨Nat.succ_pos _, hlow h0⟩

theorem OwnInv.of_run (hp : PoolStart s₀.paging.pmm) (hinit : OwnInv s₀ d t [] s)
    (hrun : Run (OwnStep kmalloc) s ops s')
    (hfew : t + 1 + ops.count .vmm < 1022 ∨ 1021 ≤ t) : OwnInv s₀ d t ops s' := by
  refine hrun.invariantOn (I := fun ops s => (t + 1 + ops.count .vmm < 1022 ∨ 1021 ≤ t) →
    OwnInv s₀ d t ops s) ?_ (fun _ => hinit) hfew
  intro ops u op u' _ hi hs hfew
  cases op with
  | vmm =>
    have hvmm : (ops ++ [OwnOp.vmm]).count .vmm = ops.count .vmm + 1 := by simp
    exact (hi (by omega)).vmm (by omega) hs
  | pmm =>
    have hvmm : (ops ++ [OwnOp.pmm]).count .vmm = ops.count .vmm := by simp
    exact (hi (by omega)).pmm hp hs

theorem OwnInv.owned (hi : OwnInv s₀ d t ops s)
    (hlow : ops.count .pmm = 0 ∨ ∀ k < 32 * (s₀.paging.pmm.pageCount / 32),
      IsFirstClear s₀.paging.pmm.bitmap k →
        t + 1 + ops.count .vmm ≤ s₀.paging.pmm.startingAddr / 4096 + k) : Owned s := by
  have htables := hi.mapped.tables.tables
  rw [hi.one, if_pos rfl] at htables
  intro p hp f hf
  obtain ⟨j, hj, hjv, hj', rfl⟩ := hi.pages p hp
  rw [htables.frame_window hj' (by omega)] at hf
  cases hf
  refine ⟨?_, ?_⟩
  · intro hg
    rcases hi.granted f hg with hle | ⟨hpos, k, hk, hfirst, hle⟩
    · omega
    · rcases hlow with h0 | hlow
      · omega
      · have := hlow k hk hfirst
        omega
  · intro q hq hqj
    obtain ⟨i, -, -, hi', rfl⟩ := hi.pages q hq
    rw [htables.frame_window hi' (by omega)] at hqj
    cases hqj
    rfl

end Runs

/-- **Frames have one owner**, in every run in which no block is added and whose direct calls find
the lowest free frame of the pool behind the pages of the run. -/
theorem owned_of_run {image : KernelImage} {mbt : MultibootInfo} {junk d t : Nat}
    {ram : Nat → Nat → PageEntry} {s₀ : State} {kmalloc : Nat → Kern State Nat} {ops : List OwnOp}
    {s : OwnSys} (hboot : Boots image mbt junk ram d t s₀)
    (hrun : Run (OwnStep kmalloc) ⟨s₀, [], [d, t]⟩ ops s)
    (hfew : t + 1 + ops.count .vmm < 1022 ∨ 1021 ≤ t)
    (hlow : ops.count .vmm = 0 ∨ ops.count .pmm = 0 ∨
      ∀ k < 32 * (s₀.paging.pmm.pageCount / 32), IsFirstClear s₀.paging.pmm.bitmap k →
        t + 1 + ops.count .vmm ≤ s₀.paging.pmm.startingAddr / 4096 + k) : Owned s := by
  have hm := hboot.mapped
  have hlt := hm.tables.lt
  have ht := hboot.booted.table_lt
  have hinit : OwnInv s₀ d t [] ⟨s₀, [], [d, t]⟩ := by
    refine ⟨hm, ?_, fun p hp => absurd hp List.not_mem_nil, ⟨rfl, rfl, fun _ h => h⟩, ?_⟩
    · rw [hm.layout.length]
      split_ifs <;> omega
    · intro g hg
      left
      simp only [List.mem_cons, List.not_mem_nil, or_false] at hg
      omega
  have hi := hinit.of_run hm.tables.start hrun hfew
  rcases hlow with h0 | hlow
  · intro p hp
    obtain ⟨j, hj, hj', -⟩ := hi.pages p hp
    omega
  · exact hi.owned hlow

/-- One page of the VMM, and no direct call. -/
theorem owned_smallImage : ∃ s : OwnSys, s.pages = [0xC0183000] ∧ Owned s := by
  obtain ⟨s₀, hboot⟩ := exists_boots_smallImage
  obtain ⟨s₁, halloc, -, -⟩ := hboot.mapped.alloc_first (fun _ => pure 0) (by decide) (by decide)
  exact ⟨_, rfl, owned_of_run hboot (Run.single (OwnStep.vmm (s := ⟨s₀, [], [385, 386]⟩) halloc))
    (by decide) (Or.inr (Or.inl rfl))⟩

/-- After one page of the VMM the next direct call returns the frame behind it. -/
theorem not_owned_smallImage :
    ∃ s₀ s, Boots smallImage solidMap 0 (fun _ _ => {}) 385 386 s₀ ∧
      Run (OwnStep fun _ => pure 0xC0160F68) ⟨s₀, [], [385, 386]⟩ [.vmm, .pmm] s ∧ ¬ Owned s := by
  obtain ⟨s₀, hboot, hpmm⟩ : ∃ s, Boots smallImage solidMap 0 (fun _ _ => {}) 385 386 s ∧
      s.paging.pmm = _ := exists_boots (fun _ _ => {}) rfl rfl rfl (by decide) (by decide) (by decide)
        (by decide) (by decide)
  obtain ⟨s₁, halloc, hpaging, hm⟩ := hboot.mapped.alloc_first (fun _ => pure 0xC0160F68)
    (by decide) (by decide)
  have ha : ∃ pmm', pmmAllocPage s₁.paging.pmm = .ok 0x183000 pmm' := by
    rw [hpaging, hpmm]
    exact ⟨_, rfl⟩
  obtain ⟨pmm', ha⟩ := ha
  have hrun : Run (OwnStep fun _ => pure 0xC0160F68) ⟨s₀, [], [385, 386]⟩ [.vmm, .pmm] _ :=
    (Run.nil.snoc (OwnStep.vmm halloc)).snoc (OwnStep.pmm ha)
  refine ⟨s₀, _, hboot, hrun, ?_⟩
  intro h
  have hframe : s₁.paging.frame (pageAddr 387) = some 387 := by
    have htables := hm.tables.tables
    rw [show s₁.vmmBlockList.length = 1 from hm.layout.length] at htables
    exact htables.frame_window (by decide) (by decide)
  exact (h _ (List.mem_singleton_self _) 387 hframe).1
    (List.mem_append_right [385, 386] (List.mem_singleton_self 387))

end Aosis.Memory.Vmm
