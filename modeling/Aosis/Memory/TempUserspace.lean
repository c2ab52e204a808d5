import Aosis.Memory.Userspace

/-!
# The temporary address space of user tasks

The user tasks of the kernel do not get a directory from `paging_create_userspace`: they run in that of
the kernel, to which `paging_add_temp_userspace` adds a table for the first 4 MiB and one for the stack.

* `tempSpace_stackMapped`: the frame behind every page that a user task reaches.  The first 4 MiB lead
  to themselves, with the kernel, its directory and its tables; the table of the stack is not cleared,
  so what was left in its frame maps pages as well.
* `tempSpace_of_run`: this holds after the boot; and the frame of the stack is that of a page of the
  kernel, when the frame allocator has it as free.
-/

namespace Aosis.Memory.Vmm

open Aosis.Lib Aosis.Lib.Bitmap Aosis.Memory.Pmm Aosis.Memory.Paging

/-! ### The source -/

/-- The bits of the entries of `paging_add_temp_userspace`. -/
def tempEntry : PageEntry := { present := true, rW := true, user := true, globalTranslation := true }

/-- The loop of `paging_add_temp_userspace`, up to `n` turns. -/
def pagingMapTemp (userspace_page_table : Nat) : Nat → Kern Paging.Mem Unit
  | 0 => pure ()
  | n + 1 => do
    pagingMapTemp userspace_page_table n
    storeEntry userspace_page_table n (pagingSetPageTableAddr tempEntry (n * pageSize))

/-- `kernel_page_directory->entries[i] = entry`. -/
def setKernelEntry (i : Nat) (entry : PageEntry) : Kern Paging.Mem Unit := fun s =>
  storeEntry s.kernelPageDirectory i entry s

/-- The second part of `paging_add_temp_userspace`, which maps the page of the stack. -/
def pagingAddTempStack (kmalloc : Nat → Kern State Nat) : Kern State Unit := do
  let user_stack_pt ← vmmAllocPage kmalloc
  let user_stack_pt_addr ← vmmGetPhysAddr user_stack_pt
  let page ← onPaging (onPmm pmmAllocPage)
  let stack_pt_entry := pagingSetPageTableAddr tempEntry page
  onPaging (storeEntry user_stack_pt (pageTableIndex stackAddressBase) stack_pt_entry)
  let stack_pd_entry := pagingSetPageDirectoryAddr tempEntry user_stack_pt_addr
  onPaging (setKernelEntry (pageDirectoryIndex stackAddressBase) stack_pd_entry)

/-- `paging_add_temp_userspace`. -/
def pagingAddTempUserspace (kmalloc : Nat → Kern State Nat) : Kern State Unit := do
  let userspace_page_table ← vmmAllocPage kmalloc
  onPaging (pagingMapTemp userspace_page_table pageTableIndices)
  let phys_userspace_page_table ← vmmGetPhysAddr userspace_page_table
  onPaging (setKernelEntry 0 (pagingSetPageDirectoryAddr tempEntry phys_userspace_page_table))
  pagingAddTempStack kmalloc

/-! ### What a call leaves -/

/-- An entry for frame `f`. -/
def tempLeads (f : Nat) : PageEntry := { tempEntry with physAddr := f }

/-- The table for the first 4 MiB, over the frame `left`. -/
def tempTable (left : Nat → PageEntry) (n i : Nat) : PageEntry := if i < n then tempLeads i else left i

/-- The paging structures after the first part, with the table in frame `g`. -/
def tempMapped (m : Paging.Mem) (d g : Nat) : Paging.Mem :=
  (m.setFrame g (tempTable (m.ram g) 1024)).setFrame d (Function.update (m.ram d) 0 (tempLeads g))

/-- The paging structures after the second part, with the table in frame `g`. -/
def stackMapped (m : Paging.Mem) (d g stack : Nat) : Paging.Mem :=
  (m.setFrame g (Function.update (m.ram g) 1023 (tempLeads stack))).setFrame d
    (Function.update (m.ram d) 767 (tempLeads g))

section Steps

variable {s s' : State} {d t N n i : Nat} {kmalloc : Nat → Kern State Nat}

namespace FirstBlock

/-- A page that was handed out, apart from the table of the second block, has the frame of its number. -/
theorem frame_page (h : FirstBlock s d t N) (hn : t < n) (hnN : n < N) (hN : N ≤ 1024) (hne : n ≠ 1022) :
    s.paging.frame (pageAddr n) = some n ∧ vmmGetPhysAddr (pageAddr n) s = .ok (4096 * n) s ∧
      n ≠ d ∧ n ≠ t := by
  obtain ⟨f, hf, hfn, hd, ht, hlt⟩ := h.exists_leads hn hnN hN
  obtain rfl : f = n := hfn hne
  exact ⟨h.frame_eq (by omega) hf, h.vmmGetPhysAddr_eq (by omega) hf hlt, hd, ht⟩

theorem setDirectory (entry : PageEntry) (h : FirstBlock s d t N) (hi : i < 768) :
    onPaging (setKernelEntry i entry) s = .ok () { s with
      paging := s.paging.setFrame d (Function.update (s.paging.ram d) i entry) } ∧
    FirstBlock { s with
      paging := s.paging.setFrame d (Function.update (s.paging.ram d) i entry) } d t N := by
  have hlt := h.lt
  refine ⟨onPaging_ok (storeEntry_eq h.tables.frame_directory), h.layout, h.flag, h.start, h.directory,
    h.table, h.directory_pos, h.lt, h.table_lt, h.tables.setDirectory fun b _ => by omega, fun hN => ?_,
    h.lt_page⟩
  dsimp only
  rw [setFrame_ram_ne (by omega)]
  exact h.link hN

theorem allocFrame (h : FirstBlock s d t N) {a : Nat} {pmm' : PhysicalMemory}
    (ha : pmmAllocPage s.paging.pmm = .ok a pmm') :
    FirstBlock { s with paging := { s.paging with pmm := pmm' } } d t N := by
  obtain ⟨hstart, hmono, -⟩ := pmmAllocPage_taken h.start ha
  exact ⟨h.layout, h.flag, hstart, hmono _ h.directory, hmono _ h.table, h.directory_pos, h.lt,
    h.table_lt, h.tables.congr rfl rfl (fun _ _ => rfl) fun _ _ => rfl, h.link, h.lt_page⟩

end FirstBlock

theorem pagingMapTemp_eq {m : Paging.Mem} {page g : Nat}
    (hg : ∀ e, (m.setFrame g e).frame page = some g) : ∀ n,
    pagingMapTemp page n m = .ok () (m.setFrame g (tempTable (m.ram g) n)) := by
  intro n
  induction n with
  | zero =>
    have h0 : tempTable (m.ram g) 0 = m.ram g := by
      funext i
      rw [tempTable, if_neg (Nat.not_lt_zero i)]
    rw [h0, Paging.Mem.setFrame, Function.update_eq_self]
    rfl
  | succ n ih =>
    have hentry : pagingSetPageTableAddr tempEntry (n * pageSize) = tempLeads n := by
      rw [pagingSetPageTableAddr, pageSize, Nat.mul_comm, shiftRight_page]
      rfl
    have hnext : Function.update (tempTable (m.ram g) n) n (tempLeads n) =
        tempTable (m.ram g) (n + 1) := by
      funext i
      rw [Function.update_apply, tempTable, tempTable]
      by_cases hi : i = n
      · rw [if_pos hi, if_pos (by omega), hi]
      · rw [if_neg hi]
        exact if_congr (by omega) rfl rfl
    rw [pagingMapTemp, Kern.bind_ok ih, hentry, storeEntry_eq (hg _), setFrame_setFrame,
      setFrame_ram_self, hnext]

/-- **The first part** adds the table for the first 4 MiB. -/
theorem FirstBlock.addTempTable (h : FirstBlock s d t N) (kmalloc : Nat → Kern State Nat)
    (hN : N < 1021) : ∃ s₁, pagingAddTempUserspace kmalloc s = pagingAddTempStack kmalloc s₁ ∧
      s₁.paging = tempMapped s.paging d N ∧ FirstBlock s₁ d t (N + 1) := by
  obtain ⟨s₁, halloc, hpaging, h₁⟩ := h.alloc_present kmalloc (by omega) (by omega)
  obtain ⟨-, -, hd, ht⟩ := h₁.frame_page h.lt_page (Nat.lt_succ_self N) (by omega) (by omega)
  have hpage : ∀ e, (s₁.paging.setFrame N e).frame (pageAddr N) = some N ∧
      vmmGetPhysAddr (pageAddr N) { s₁ with paging := s₁.paging.setFrame N e } =
        .ok (4096 * N) { s₁ with paging := s₁.paging.setFrame N e } := by
    intro e
    obtain ⟨hframe, hphys, -⟩ := (h₁.setFrame (e := e) hd ht).frame_page h.lt_page
      (Nat.lt_succ_self N) (by omega) (by omega)
    exact ⟨hframe, hphys⟩
  have hmap := pagingMapTemp_eq (fun e => (hpage e).1) pageTableIndices
  have h₂ := h₁.setFrame (e := tempTable (s₁.paging.ram N) pageTableIndices) hd ht
  obtain ⟨hset, h₃⟩ := h₂.setDirectory (tempLeads N) (show 0 < 768 by decide)
  have hentry : pagingSetPageDirectoryAddr tempEntry (4096 * N) = tempLeads N := by
    rw [pagingSetPageDirectoryAddr, shiftRight_page]
    rfl
  refine ⟨_, (Kern.bind_ok halloc).trans ((Kern.bind_ok (onPaging_ok hmap)).trans
    ((Kern.bind_ok (hpage _).2).trans ?_)), ?_, h₃⟩
  · rw [hentry]
    exact Kern.bind_ok hset
  · dsimp only
    rw [setFrame_ram_ne hd.symm, hpaging]
    rfl

/-- **The second part** maps the page of the stack to a frame of the allocator. -/
theorem FirstBlock.addTempStack (h : FirstBlock s d t N) (kmalloc : Nat → Kern State Nat)
    (hN : N < 1021) {a : Nat} {pmm' : PhysicalMemory} (ha : pmmAllocPage s.paging.pmm = .ok a pmm') :
    ∃ s', pagingAddTempStack kmalloc s = .ok () s' ∧
      s'.paging = stackMapped { s.paging with pmm := pmm' } d N (a >>> 12) ∧
      FirstBlock s' d t (N + 1) := by
  have hpd : pageDirectoryIndex stackAddressBase = 767 := by decide
  have hpt : pageTableIndex stackAddressBase = 1023 := by decide
  obtain ⟨s₁, halloc, hpaging, h₁⟩ := h.alloc_present kmalloc (by omega) (by omega)
  obtain ⟨-, hphys, hd, ht⟩ := h₁.frame_page h.lt_page (Nat.lt_succ_self N) (by omega) (by omega)
  have ha₁ : pmmAllocPage s₁.paging.pmm = .ok a pmm' := by rw [hpaging, ha]
  have hpmm : onPaging (onPmm pmmAllocPage) s₁ =
      .ok a { s₁ with paging := { s₁.paging with pmm := pmm' } } := onPaging_ok (Kern.zoom_ok ha₁)
  have h₂ := h₁.allocFrame ha₁
  obtain ⟨hframe, -, -, -⟩ := h₂.frame_page h.lt_page (Nat.lt_succ_self N) (by omega) (by omega)
  have hpte : onPaging (storeEntry (pageAddr N) 1023 (tempLeads (a >>> 12)))
      { s₁ with paging := { s₁.paging with pmm := pmm' } } = .ok () _ :=
    onPaging_ok (storeEntry_eq hframe)
  have h₃ := h₂.setFrame (e := Function.update (s₁.paging.ram N) 1023 (tempLeads (a >>> 12))) hd ht
  obtain ⟨hset, h₄⟩ := h₃.setDirectory (tempLeads N) (show 767 < 768 by decide)
  have hentry : pagingSetPageDirectoryAddr tempEntry (4096 * N) = tempLeads N := by
    rw [pagingSetPageDirectoryAddr, shiftRight_page]
    rfl
  refine ⟨_, (Kern.bind_ok halloc).trans ((Kern.bind_ok hphys).trans ((Kern.bind_ok hpmm).trans ?_)),
    ?_, h₄⟩
  · rw [hpt, hpd, hentry]
    exact (Kern.bind_ok hpte).trans hset
  · dsimp only
    rw [setFrame_ram_ne hd.symm, hpaging]
    rfl

theorem FirstBlock.of_addTempStack (h : FirstBlock s d t N) (hN : N < 1021)
    (hc : pagingAddTempStack kmalloc s = .ok () s') :
    ∃ a pmm', pmmAllocPage s.paging.pmm = .ok a pmm' := by
  obtain ⟨s₁, halloc, hpaging, h₁⟩ := h.alloc_present kmalloc (by omega) (by omega)
  obtain ⟨-, hphys, -⟩ := h₁.frame_page h.lt_page (Nat.lt_succ_self N) (by omega) (by omega)
  have hrest := ((Kern.bind_ok halloc).trans (Kern.bind_ok hphys)).symm.trans hc
  obtain ⟨a, _, hpmm, -⟩ := Kern.of_bind_eq_ok hrest
  obtain ⟨_, hpmm, -⟩ := Kern.of_zoom_eq_ok hpmm
  obtain ⟨pmm', hpmm, -⟩ := Kern.of_zoom_eq_ok hpmm
  rw [hpaging] at hpmm
  exact ⟨a, pmm', hpmm⟩

/-- **What a call leaves** when its pages are pages of the first block. -/
theorem FirstBlock.addTempUserspace (h : FirstBlock s d t N) (hN : N + 2 ≤ 1021)
    (hc : pagingAddTempUserspace kmalloc s = .ok () s') : ∃ a pmm',
    pmmAllocPage s.paging.pmm = .ok a pmm' ∧ FirstBlock s' d t (N + 2) ∧
      s'.paging = stackMapped { tempMapped s.paging d N with pmm := pmm' } d (N + 1) (a >>> 12) := by
  obtain ⟨s₁, heq, hpaging, h₁⟩ := h.addTempTable kmalloc (by omega)
  rw [heq] at hc
  obtain ⟨a, pmm', ha⟩ := h₁.of_addTempStack (by omega) hc
  obtain ⟨s₂, hok, hpaging₂, h₂⟩ := h₁.addTempStack kmalloc (by omega) ha
  rw [hok] at hc
  cases hc
  rw [hpaging] at ha hpaging₂
  exact ⟨a, pmm', ha, h₂, hpaging₂⟩

end Steps

/-! ### What a user task reaches -/

/-- The frame that a user task can write at `addr`. -/
def userWrite (m : Paging.Mem) (dir addr : Nat) : Option Nat :=
  let pde := m.ram dir (pageDirectoryIndex addr)
  let pte := m.ram pde.physAddr (pageTableIndex addr)
  if pde.rW ∧ pte.rW then userWalk m dir addr else none

/-- The frame behind a page: the first 4 MiB are mapped to themselves, and the table of the stack holds
one entry and what was left in its frame. -/
def tempWalk (left : Nat → PageEntry) (stack page : Nat) : Option Nat :=
  if page < 1024 then some page
  else if page / 1024 = 767 then
    if page % 1024 = 1023 then some stack
    else if (left (page % 1024)).present ∧ (left (page % 1024)).user then
      some (left (page % 1024)).physAddr
    else none
  else none

/-- The address space of the user tasks.  They can write every frame below 4 MiB, and they reach no more
than these and their stack exactly when no entry was left that is present and for user tasks. -/
structure TempSpace (m : Paging.Mem) (d : Nat) (left : Nat → PageEntry) (stack : Nat) : Prop where
  walk : ∀ page < 2 ^ 20, userWalk m d (4096 * page) = tempWalk left stack page
  write : ∀ f < 1024, userWrite m d (4096 * f) = some f
  stack : userWrite m d stackAddressBase = some stack
  confined : (∀ page < 2 ^ 20, userWalk m d (4096 * page) ≠ none →
      page < 1024 ∨ 4096 * page = stackAddressBase) ↔
    ∀ i < 1023, ¬ ((left i).present = true ∧ (left i).user = true)

section Walk

variable {m : Paging.Mem} {d t g page stack : Nat}

theorem pageDirectoryIndex_page (hp : page < 2 ^ 20) :
    pageDirectoryIndex (4096 * page) = page / 1024 := by
  rw [pageDirectoryIndex_eq]
  omega

theorem pageTableIndex_page (page : Nat) : pageTableIndex (4096 * page) = page % 1024 := by
  rw [pageTableIndex_eq]
  omega

theorem ram_stackMapped (pmm : PhysicalMemory) (stack : Nat) (hd : g ≠ d) (hd1 : g + 1 ≠ d) :
    let m' := stackMapped { tempMapped m d g with pmm := pmm } d (g + 1) stack
    (∀ i, m'.ram d i = if i = 767 then tempLeads (g + 1) else if i = 0 then tempLeads g else m.ram d i) ∧
      (∀ i < 1024, m'.ram g i = tempLeads i) ∧
      ∀ i, m'.ram (g + 1) i = if i = 1023 then tempLeads stack else m.ram (g + 1) i := by
  have hne : g ≠ g + 1 := by omega
  refine ⟨fun i => ?_, fun i hi => ?_, fun i => ?_⟩
  · rw [stackMapped, setFrame_ram_self, tempMapped, Function.update_apply]
    dsimp only
    rw [setFrame_ram_self, Function.update_apply]
  · rw [stackMapped, setFrame_ram_ne hd, setFrame_ram_ne hne]
    dsimp only
    rw [tempMapped, setFrame_ram_ne hd, setFrame_ram_self, tempTable, if_pos hi]
  · rw [stackMapped, setFrame_ram_ne hd1, setFrame_ram_self, Function.update_apply]
    dsimp only
    rw [tempMapped, setFrame_ram_ne hd1, setFrame_ram_ne hne.symm]

/-- **What a user task reaches** when the directory was that of `paging_init`. -/
theorem tempSpace_stackMapped (pmm : PhysicalMemory) (stack : Nat) (hk : KernelTable m d t)
    (hd : g ≠ d) (hd1 : g + 1 ≠ d) :
    TempSpace (stackMapped { tempMapped m d g with pmm := pmm } d (g + 1) stack) d (m.ram (g + 1))
      stack := by
  obtain ⟨hdir, htable, hstack⟩ := ram_stackMapped (m := m) pmm stack hd hd1
  generalize stackMapped { tempMapped m d g with pmm := pmm } d (g + 1) stack = m' at hdir htable hstack
  have hnone : ∀ i, i ≠ 767 → i ≠ 0 → (m'.ram d i).user = false := by
    intro i h767 h0
    rw [hdir, if_neg h767, if_neg h0]
    by_cases h768 : i = 768
    · rw [h768, hk.directory]
      rfl
    · rw [hk.rest i h768]
  have hdir0 : m'.ram d 0 = tempLeads g := hdir 0
  have hdir767 : m'.ram d 767 = tempLeads (g + 1) := hdir 767
  have hstack1023 : m'.ram (g + 1) 1023 = tempLeads stack := hstack 1023
  have hwalk : ∀ page < 2 ^ 20, userWalk m' d (4096 * page) = tempWalk (m.ram (g + 1)) stack page := by
    intro page hp
    simp only [userWalk, pageDirectoryIndex_page hp, pageTableIndex_page, tempWalk]
    by_cases h0 : page / 1024 = 0
    · have hlt : page < 1024 := by omega
      simp only [h0, hdir0, tempLeads, Nat.mod_eq_of_lt hlt, htable page hlt, if_pos hlt]
      rfl
    · rw [if_neg (show ¬ page < 1024 by omega)]
      by_cases h767 : page / 1024 = 767
      · by_cases hlast : page % 1024 = 1023
        · simp only [h767, hdir767, tempLeads, hlast, hstack1023]
          rfl
        · simp only [h767, hdir767, tempLeads, tempEntry, hstack, hlast, if_false, true_and, if_true]
      · simp only [h767, hnone _ h767 h0, Bool.false_eq_true, false_and, and_false, if_false]
  have hpd : pageDirectoryIndex stackAddressBase = 767 := by decide
  have hpt : pageTableIndex stackAddressBase = 1023 := by decide
  have hbase : stackAddressBase = 4096 * 0xBFFFF := by decide
  have hlast : tempWalk (m.ram (g + 1)) stack 0xBFFFF = some stack := by
    rw [tempWalk, if_neg (by decide), if_pos (by decide), if_pos (by decide)]
  refine ⟨hwalk, fun f hf => ?_, ?_, ?_, ?_⟩
  · have h0 : f / 1024 = 0 := by omega
    have hf' := hwalk f (by omega)
    rw [tempWalk, if_pos hf] at hf'
    simp only [userWrite, hf', pageDirectoryIndex_page (show f < 2 ^ 20 by omega),
      pageTableIndex_page, h0, hdir0, tempLeads, Nat.mod_eq_of_lt hf, htable f hf]
    rfl
  · have hstack' := hwalk 0xBFFFF (by decide)
    rw [hlast, ← hbase] at hstack'
    simp only [userWrite, hstack', hpd, hpt, hdir767, tempLeads, hstack1023]
    rfl
  · intro hconf i hi hleft
    obtain ⟨hpresent, huser⟩ := hleft
    have hmod : (767 * 1024 + i) % 1024 = i := by omega
    have hpage := hconf (767 * 1024 + i) (by omega)
    rw [hwalk _ (by omega), tempWalk, if_neg (by omega), if_pos (by omega), hmod, if_neg (by omega),
      if_pos ⟨hpresent, huser⟩, hbase] at hpage
    have := hpage (by simp)
    omega
  · intro hleft page hp hreach
    rw [hwalk page hp, tempWalk] at hreach
    split at hreach
    · next hlt => exact .inl hlt
    · split at hreach
      · split at hreach
        · rw [hbase]
          right
          omega
        · rw [if_neg (hleft _ (by omega))] at hreach
          exact absurd rfl hreach
      · exact absurd rfl hreach

end Walk

/-! ### Runs -/

section Runs

variable {image : KernelImage} {mbt : MultibootInfo} {junk d t : Nat} {ram : Nat → Nat → PageEntry}
  {s₀ s' : State} {kmalloc : Nat → Kern State Nat} {k : Nat} {s : UserSys}

theorem FirstBlock.of_run_alloc (h : FirstBlock s₀ d t (t + 1)) (hk : Succeeds kmalloc) : ∀ {k : Nat} {s},
    Run (UserStep kmalloc) ⟨s₀, []⟩ (List.replicate k .alloc) s → t + 1 + k ≤ 1021 →
    s.state.paging = s₀.paging ∧ FirstBlock s.state d t (t + 1 + k) := by
  intro k
  induction k with
  | zero =>
    intro s hrun _
    rw [hrun.eq_of_nil]
    exact ⟨rfl, h⟩
  | succ k ih =>
    intro s hrun hfew
    rw [List.replicate_succ'] at hrun
    obtain ⟨s₁, hrun, hstep⟩ := hrun.of_snoc
    obtain ⟨hpaging, h₁⟩ := ih hrun (by omega)
    cases hstep with
    | alloc halloc =>
      obtain ⟨-, h₂, hsame⟩ := h₁.alloc hk (by omega) halloc
      exact ⟨(hsame (by omega)).trans hpaging, h₂⟩

theorem Boots.table_lt_alloc (h : Boots image mbt junk ram d t s₀) {a : Nat} {pmm' : PhysicalMemory}
    (ha : pmmAllocPage s₀.paging.pmm = .ok a pmm') (h0 : a ≠ 0) : t < a >>> 12 := by
  obtain ⟨-, _, pmm₁, -, -, ht⟩ := h.booted_pmm
  have hstart := h.mapped.tables.start
  have hmod := hstart.aligned
  have hle := hstart.le
  have hpos := h.table_pos
  rcases pmmAllocPage_cases ht with ⟨hzero, -, -⟩ | ⟨j, -, hj, hfirst, htable, hpmm⟩
  · omega
  · have hbitmap : s₀.paging.pmm.bitmap = setAt pmm₁.bitmap j := by rw [hpmm]
    have hsame : s₀.paging.pmm.startingAddr = pmm₁.startingAddr := by rw [hpmm]
    rcases pmmAllocPage_cases ha with ⟨hzero, -, -⟩ | ⟨j', -, hj', hfirst', haddr, -⟩
    · exact absurd hzero h0
    · rw [hbitmap] at hfirst'
      have hlt := lt_of_firstClear hfirst hj hfirst'
      rw [← hsame, u32_of_lt (by omega)] at htable
      rw [u32_of_lt (by omega)] at haddr
      rw [haddr, Nat.shiftRight_eq_div_pow]
      omega

/-- **The address space of the user tasks**, when `paging_add_temp_userspace` is called after the boot
and `k` calls of `vmm_alloc_page`: it is the one that `tempWalk` says.  When the allocator has a frame
left, and it is one of those behind the `k` pages, the stack of the user tasks is this page of the
kernel. -/
theorem tempSpace_of_run (hboot : Boots image mbt junk ram d t s₀) (hk : Succeeds kmalloc)
    (hrun : Run (UserStep kmalloc) ⟨s₀, []⟩ (List.replicate k .alloc) s) (hfirst : t + k + 3 ≤ 1021)
    (hc : pagingAddTempUserspace kmalloc s.state = .ok () s') : ∃ a pmm',
    pmmAllocPage s₀.paging.pmm = .ok a pmm' ∧
      TempSpace s'.paging d (s₀.paging.ram (t + k + 2)) (a >>> 12) ∧
      (a ≠ 0 → t < a >>> 12 ∧
        (a >>> 12 ≤ t + k → s'.paging.frame (pageAddr (a >>> 12)) = some (a >>> 12))) := by
  have hlt := hboot.booted.lt
  obtain ⟨hpaging, h⟩ := (hboot.firstBlock (by omega)).of_run_alloc hk hrun (by omega)
  obtain ⟨a, pmm', ha, h', heq⟩ := h.addTempUserspace (by omega) hc
  rw [hpaging] at ha heq
  refine ⟨a, pmm', ha, ?_, fun h0 => ?_⟩
  · have hspace := tempSpace_stackMapped (g := t + 1 + k) pmm' (a >>> 12) hboot.booted.kernel
      (by omega) (by omega)
    rw [heq, show t + k + 2 = t + 1 + k + 1 by omega]
    exact hspace
  · have htable := hboot.table_lt_alloc ha h0
    refine ⟨htable, fun hle => ?_⟩
    exact (h'.frame_page htable (by omega) (by omega) (by omega)).1

end Runs

/-- The small kernel, after one page was handed out: the stack of the user tasks is this page. -/
theorem tempSpace_smallImage : ∃ s₀ s s', Boots smallImage solidMap 0 (fun _ _ => {}) 385 386 s₀ ∧
    Run (UserStep fun _ => pure 0xC0160F68) ⟨s₀, []⟩ (List.replicate 1 .alloc) s ∧
    pagingAddTempUserspace (fun _ => pure 0xC0160F68) s.state = .ok () s' ∧
    userWrite s'.paging 385 stackAddressBase = some 387 ∧
    s'.paging.frame (pageAddr 387) = some 387 := by
  obtain ⟨s₀, hboot, hpmm⟩ : ∃ s, Boots smallImage solidMap 0 (fun _ _ => {}) 385 386 s ∧
      s.paging.pmm = _ := exists_boots (fun _ _ => {}) rfl rfl rfl (by decide) (by decide) (by decide)
        (by decide) (by decide)
  have hk : Succeeds fun _ => pure 0xC0160F68 := succeeds_pure (by decide)
  have ha : ∃ pmm', pmmAllocPage s₀.paging.pmm = .ok 0x183000 pmm' := by
    rw [hpmm]
    exact ⟨_, rfl⟩
  obtain ⟨pmm', ha⟩ := ha
  obtain ⟨s₁, halloc, hpaging, h₁⟩ := (hboot.firstBlock (by decide)).alloc_present
    (fun _ => pure 0xC0160F68) (by decide) (by decide)
  have hrun : Run (UserStep fun _ => pure 0xC0160F68) ⟨s₀, []⟩ (List.replicate 1 .alloc) ⟨s₁, []⟩ :=
    Run.single (UserStep.alloc (s := ⟨s₀, []⟩) halloc)
  obtain ⟨s₂, heq, hpaging₂, h₂⟩ := h₁.addTempTable (fun _ => pure 0xC0160F68) (by decide)
  have ha₂ : pmmAllocPage s₂.paging.pmm = .ok 0x183000 pmm' := by rw [hpaging₂, hpaging, ← ha]; rfl
  obtain ⟨s', hok, -, -⟩ := h₂.addTempStack (fun _ => pure 0xC0160F68) (by decide) ha₂
  have hc := heq.trans hok
  obtain ⟨a, pmm'', ha', hspace, hshared⟩ := tempSpace_of_run hboot hk hrun (by decide) hc
  rw [ha] at ha'
  cases ha'
  exact ⟨s₀, ⟨s₁, []⟩, s', hboot, hrun, hc, hspace.stack, (hshared (by decide)).2 (by decide)⟩

end Aosis.Memory.Vmm
