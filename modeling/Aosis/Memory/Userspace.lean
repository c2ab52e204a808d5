import Aosis.Memory.VmmMapped

/-!
# Address spaces of user tasks

`paging_create_userspace` finds the frames of the pages that it fills with `vmm_get_phys_addr`.
`FirstBlock` describes the paging structures as long as the pages come from the first block of the
VMM; that the search of `vmm_get_phys_addr` always ends at this block does not matter then.

* `FirstBlock.create`: what a call leaves in its three pages.
* `not_isolated_of_run`: the page for the stack is mapped to the frame of the program.
-/

namespace Aosis.Memory.Vmm

open Aosis.Lib Aosis.Lib.Bitmap Aosis.Memory.Pmm Aosis.Memory.Paging

/-! ### The source -/

/-- One turn of the loop of `paging_create_userspace`. -/
def pagingCopyEntry (new_userspace i : Nat) : Kern Paging.Mem Unit := fun s =>
  (loadEntry s.kernelPageDirectory i >>= storeEntry new_userspace i) s

/-- The loop of `paging_create_userspace`, up to `n` turns. -/
def pagingCopyKernel (new_userspace : Nat) : Nat → Kern Paging.Mem Unit
  | 0 => pure ()
  | n + 1 => do
    pagingCopyKernel new_userspace n
    pagingCopyEntry new_userspace (pageDirectoryIndex kernelBaseAddrVirt + n)

/-- The initializer of the four entries of `paging_create_userspace`. -/
def userEntry : PageEntry := { present := true, rW := true, user := true }

/-- The part of `paging_create_userspace` that maps the page of the program, and the part that maps
the page of the stack, which differ in the entries that they set only. -/
def pagingMapUserPage (kmalloc : Nat → Kern State Nat) (user_task : UserTaskInfo)
    (new_userspace page_directory_index page_table_index : Nat) : Kern State Unit := do
  let user_pt ← vmmAllocPage kmalloc
  let user_pt_addr ← vmmGetPhysAddr user_pt
  let pt_entry := pagingSetPageTableAddr userEntry user_task.physAddrStart
  onPaging (storeEntry user_pt page_table_index pt_entry)
  let pd_entry := pagingSetPageDirectoryAddr userEntry user_pt_addr
  onPaging (storeEntry new_userspace page_directory_index pd_entry)

/-- `stack_address_base`. -/
def stackAddressBase : Nat := sub32 kernelBaseAddrVirt pageSize

/-- `paging_create_userspace`. -/
def pagingCreateUserspace (kmalloc : Nat → Kern State Nat) (user_task : UserTaskInfo) :
    Kern State Nat := do
  let new_userspace ← vmmAllocPage kmalloc
  let user_page_directory_addr ← vmmGetPhysAddr new_userspace
  onPaging (pagingCopyKernel new_userspace (pageTableIndices - pageDirectoryIndex kernelBaseAddrVirt))
  pagingMapUserPage kmalloc user_task new_userspace 0 0
  pagingMapUserPage kmalloc user_task new_userspace (pageDirectoryIndex stackAddressBase)
    (pageTableIndex stackAddressBase)
  return user_page_directory_addr

/-! ### The first block -/

/-- The directory in frame `d`, the table of the first block in frame `t`, and the list of blocks,
when the pages up to `N` were handed out.  Page 1022 is the table of the second block once this is
added; the tables of the other blocks are left open. -/
structure FirstBlock (s : State) (d t N : Nat) : Prop where
  layout : Layout (pageAddr t) (t + 1) N s.vmmBlockList
  flag : s.allocatingNewBlock = false
  start : PoolStart s.paging.pmm
  directory : Taken s.paging.pmm d
  table : Taken s.paging.pmm t
  directory_pos : 0 < d
  lt : d < t
  table_lt : t < 1021
  tables : Tables s.paging d (fun _ => t) 1 (if N ≤ 1021 then 1024 else 1022)
  link : 1021 < N → ∃ c, Leads (s.paging.ram t 1022) c ∧ c ≠ d ∧ c ≠ t ∧ c < 2 ^ 20
  lt_page : t < N

namespace FirstBlock

variable {s s' : State} {d t N n g p : Nat} {e : Nat → PageEntry}
  {kmalloc : Nat → Kern State Nat}

theorem exists_leads (h : FirstBlock s d t N) (hn : t < n) (hnN : n < N) (hN : N ≤ 1024) :
    ∃ g, Leads (s.paging.ram t n) g ∧ (n ≠ 1022 → g = n) ∧ g ≠ d ∧ g ≠ t ∧ g < 2 ^ 20 := by
  have hlt := h.lt
  by_cases hlink : n = 1022
  · obtain ⟨c, hc, hd, ht, hlt⟩ := h.link (by omega)
    exact ⟨c, hlink.symm ▸ hc, fun hne => absurd hlink hne, hd, ht, hlt⟩
  · have hwindow := h.tables.window n (by omega) (by split <;> omega)
    exact ⟨n, hwindow, fun _ => rfl, by omega, by omega, by omega⟩

theorem frame_eq (h : FirstBlock s d t N) (hn : n < 1024) (hg : Leads (s.paging.ram t n) g) :
    s.paging.frame (pageAddr n) = some g := by
  have hdiv : n / 1024 = 0 := Nat.div_eq_of_lt hn
  apply h.tables.frame_eq (by omega)
  rw [Nat.mod_eq_of_lt hn]
  exact hg

theorem frame_table (h : FirstBlock s d t N) : s.paging.frame (pageAddr t) = some t := by
  have hframe := h.tables.frame_table Nat.one_pos
  rwa [tableAddr, if_pos rfl] at hframe

theorem vmmGetPhysAddr_eq (h : FirstBlock s d t N) (hn : n < 1024)
    (hg : Leads (s.paging.ram t n) g) (hlt : g < 2 ^ 20) :
    vmmGetPhysAddr (pageAddr n) s = .ok (4096 * g) s := by
  have hpos : 0 < s.vmmBlockList.length := by rw [h.layout.length]; split <;> omega
  obtain ⟨block, rest, hlist⟩ := List.exists_cons_of_length_pos hpos
  have hblock := h.layout.block 0 hpos
  simp only [hlist, List.getElem_cons_zero] at hblock
  have htable : block.pageTable = pageAddr t := hblock.table.trans (if_pos rfl)
  have hfirst : block.firstPage ≤ pageAddr n := by
    rw [hblock.first, pageAddr_eq (by omega), pageAddr_eq (by omega)]
    omega
  have hload : loadEntry block.pageTable (pageTableIndex (pageAddr n)) s.paging =
      .ok (s.paging.ram t n) s.paging := by
    rw [htable, pageTableIndex_pageAddr (by omega), Nat.mod_eq_of_lt hn]
    exact loadEntry_eq h.frame_table
  have hshift : u32 (g <<< 12) = 4096 * g := by
    rw [Nat.shiftLeft_eq, u32_of_lt (by omega)]
    omega
  have hfind : vmmFindPhysAddr (pageAddr n) s.vmmBlockList s.paging =
      .ok (4096 * g) s.paging := by
    rw [hlist, vmmFindPhysAddr, if_pos (Or.inl hfirst)]
    apply (Kern.bind_ok hload).trans
    rw [hg.physAddr, hshift]
    rfl
  exact onPaging_ok hfind

theorem setFrame (h : FirstBlock s d t N) (hd : g ≠ d) (ht : g ≠ t) :
    FirstBlock { s with paging := s.paging.setFrame g e } d t N := by
  refine ⟨h.layout, h.flag, h.start, h.directory, h.table, h.directory_pos, h.lt, h.table_lt,
    h.tables.setFrame hd fun _ _ => ht, fun hN => ?_, h.lt_page⟩
  dsimp only
  rw [setFrame_ram_ne ht.symm]
  exact h.link hN

theorem alloc_present (h : FirstBlock s d t N) (kmalloc : Nat → Kern State Nat) (hN : N < 1024)
    (hne : N ≠ 1021) : ∃ s', vmmAllocPage kmalloc s = .ok (pageAddr N) s' ∧ s'.paging = s.paging ∧
      FirstBlock s' d t (N + 1) := by
  have hpresent : (s.paging.ram t N).present = true := by
    by_cases hlink : N = 1022
    · obtain ⟨c, hc, -⟩ := h.link (by omega)
      rw [hlink]
      exact hc.present
    · exact (h.tables.window N hN (by split <;> omega)).present
  obtain ⟨s', halloc, hpaging, hflag, hlayout, -⟩ := h.layout.alloc_present kmalloc hN hne
    h.frame_table hpresent
  have hhole : (if N ≤ 1021 then 1024 else 1022) = if N + 1 ≤ 1021 then 1024 else 1022 := by
    split_ifs <;> omega
  have htables := h.tables
  rw [← hpaging, hhole] at htables
  exact ⟨s', halloc, hpaging, hlayout, hflag.trans h.flag, hpaging ▸ h.start,
    hpaging ▸ h.directory, hpaging ▸ h.table, h.directory_pos, h.lt, h.table_lt, htables,
    fun hN' => hpaging ▸ h.link (by omega), h.lt_page.trans (Nat.lt_succ_self N)⟩

/-- Page 1021 comes with a second block; its table is page 1022 from then on. -/
theorem alloc_grow (h : FirstBlock s d t 1021) (hk : Succeeds kmalloc) {a : Nat}
    {pmm' : PhysicalMemory} (ha : pmmAllocPage s.paging.pmm = .ok a pmm') :
    ∃ s', vmmAllocPage kmalloc s = .ok (pageAddr 1021) s' ∧ FirstBlock s' d t 1022 ∧
      Added s.paging d (fun _ => t) 1 (a >>> 12) s'.paging ∧
      ∀ g, g ≠ d → g ≠ a >>> 12 → g ≠ t → s'.paging.ram g = s.paging.ram g := by
  have hlt := h.lt
  have hd0 := h.directory_pos
  have htl := h.table_lt
  obtain ⟨hstart, hmono, hfresh⟩ := pmmAllocPage_taken h.start ha
  -- the frame of the new table, which is frame 0 if the allocator failed
  have hc : a >>> 12 ≠ d ∧ a >>> 12 ≠ t := by
    by_cases h0 : a = 0
    · rw [h0, Nat.zero_shiftRight]
      omega
    · obtain ⟨hnew, -⟩ := hfresh h0
      exact ⟨fun heq => hnew (heq ▸ h.directory), fun heq => hnew (heq ▸ h.table)⟩
  have hclt : a >>> 12 < 2 ^ 20 := by
    have halt := pmmAllocPage_lt ha
    rw [Nat.shiftRight_eq_div_pow]
    omega
  have htables := h.tables
  rw [if_pos le_rfl] at htables
  obtain ⟨s', hcall, hpmm, hflag, hlayout, hadded, hother⟩ := h.layout.alloc_second hk (by omega)
    h.flag htables (by omega) htl ha hc
  refine ⟨s', hcall, ⟨hlayout, hflag, hpmm ▸ hstart, hpmm ▸ hmono _ h.directory,
    hpmm ▸ hmono _ h.table, hd0, hlt, htl, ?_, fun _ => ⟨_, hadded.link, hc.1, hc.2, hclt⟩,
    by omega⟩, hadded, hother⟩
  rw [if_neg (by decide)]
  exact hadded.tables.first

theorem of_alloc_grow (h : FirstBlock s d t 1021) (hk : Succeeds kmalloc)
    (ha : vmmAllocPage kmalloc s = .ok p s') : ∃ a pmm', pmmAllocPage s.paging.pmm = .ok a pmm' := by
  have htl := h.table_lt
  obtain ⟨rfl, -, hb, desc, s₁, hdesc, hreserve, -⟩ := h.layout.blocks.alloc_cases ha
  have hmark : desc.highWaterMark = 1022 := by rw [hdesc]; rfl
  rcases vmmReserveBlock_cases hreserve with ⟨hno, -⟩ | ⟨-, -, -, u, hadd, -⟩
  · refine absurd ⟨hmark, ?_, h.flag⟩ hno
    rw [List.length_set, h.layout.length, if_pos (by omega)]
  · obtain ⟨a, pmm', hpmm⟩ := of_vmmAddVmmBlock_eq_ok hk hadd
    exact ⟨a, pmm', hpmm⟩

theorem alloc (h : FirstBlock s d t N) (hk : Succeeds kmalloc) (hN : N < 1024)
    (ha : vmmAllocPage kmalloc s = .ok p s') :
    p = pageAddr N ∧ FirstBlock s' d t (N + 1) ∧ (N ≠ 1021 → s'.paging = s.paging) := by
  by_cases hne : N = 1021
  · subst hne
    obtain ⟨a, pmm', hpmm⟩ := h.of_alloc_grow hk ha
    obtain ⟨s₁, halloc, h', -⟩ := h.alloc_grow hk hpmm
    rw [halloc] at ha
    cases ha
    exact ⟨rfl, h', fun hne => absurd rfl hne⟩
  · obtain ⟨s₁, halloc, hpaging, h'⟩ := h.alloc_present kmalloc hN hne
    rw [halloc] at ha
    cases ha
    exact ⟨rfl, h', fun _ => hpaging⟩

end FirstBlock

/-! ### What a call leaves -/

/-- The directory entries of the kernel's half, copied over the frame `entries`. -/
def copied (kernel entries : Nat → PageEntry) (n i : Nat) : PageEntry :=
  if 768 ≤ i ∧ i < 768 + n then kernel i else entries i

theorem pagingCopyKernel_eq {m : Paging.Mem} {d t hole page g : Nat}
    (ht : Tables m d (fun _ => t) 1 hole) (hd : g ≠ d) (hgt : g ≠ t)
    (hg : ∀ e, (m.setFrame g e).frame page = some g) : ∀ n, pagingCopyKernel page n m =
      .ok () (m.setFrame g (copied (m.ram d) (m.ram g) n)) := by
  intro n
  induction n with
  | zero =>
    have h0 : copied (m.ram d) (m.ram g) 0 = m.ram g := by
      funext i
      rw [copied, if_neg (by omega)]
    rw [h0, Paging.Mem.setFrame, Function.update_eq_self]
    rfl
  | succ n ih =>
    have hindex : pageDirectoryIndex kernelBaseAddrVirt = 768 := rfl
    have hkernel := (ht.setFrame (e := copied (m.ram d) (m.ram g) n) hd fun _ _ => hgt).frame_directory
    have hram : (m.setFrame g (copied (m.ram d) (m.ram g) n)).ram d = m.ram d :=
      setFrame_ram_ne hd.symm
    have hnext : Function.update (copied (m.ram d) (m.ram g) n) (768 + n) (m.ram d (768 + n)) =
        copied (m.ram d) (m.ram g) (n + 1) := by
      funext i
      rw [Function.update_apply, copied, copied]
      by_cases hi : i = 768 + n
      · rw [if_pos hi, if_pos (by omega), hi]
      · rw [if_neg hi]
        exact if_congr (by omega) rfl rfl
    have hentry : pagingCopyEntry page (768 + n) (m.setFrame g (copied (m.ram d) (m.ram g) n)) =
        .ok () (m.setFrame g (copied (m.ram d) (m.ram g) (n + 1))) := by
      apply (Kern.bind_ok (loadEntry_eq hkernel)).trans
      rw [hram, storeEntry_eq (hg _), setFrame_setFrame, setFrame_ram_self, hnext]
    rw [pagingCopyKernel, Kern.bind_ok ih, hindex, hentry]

/-- The entries that map a page, in the table in frame `g` and in the directory in frame `f`. -/
def userMapped (m : Paging.Mem) (user_task : UserTaskInfo) (f g page_directory_index
    page_table_index : Nat) : Paging.Mem :=
  let pt_entry := pagingSetPageTableAddr userEntry user_task.physAddrStart
  let m₁ := m.setFrame g (Function.update (m.ram g) page_table_index pt_entry)
  m₁.setFrame f (Function.update (m₁.ram f) page_directory_index { userEntry with physAddr := g })

section Create

variable {s s' : State} {d t N r : Nat} {kmalloc : Nat → Kern State Nat} {user_task : UserTaskInfo}

/-- Mapping one of the two pages, when the VMM gives page `N` for the table and the directory is
page `n`. -/
theorem pagingMapUserPage_eq {s₁ : State} {n g i j : Nat}
    (ha : vmmAllocPage kmalloc s = .ok (pageAddr N) s₁) (h : FirstBlock s₁ d t (N + 1))
    (hN : N < 1024) (hg : Leads (s₁.paging.ram t N) g) (hgd : g ≠ d) (hgt : g ≠ t)
    (hglt : g < 2 ^ 20) (hn : t < n) (hnN : n < N) (hne : n ≠ 1022) :
    pagingMapUserPage kmalloc user_task (pageAddr n) i j s =
        .ok () { s₁ with paging := userMapped s₁.paging user_task n g i j } ∧
      FirstBlock { s₁ with paging := userMapped s₁.paging user_task n g i j } d t (N + 1) := by
  let pt_entry := pagingSetPageTableAddr userEntry user_task.physAddrStart
  let m₁ := s₁.paging.setFrame g (Function.update (s₁.paging.ram g) j pt_entry)
  have hlt := h.lt
  have h₁ : FirstBlock { s₁ with paging := m₁ } d t (N + 1) := h.setFrame hgd hgt
  have hpt : onPaging (storeEntry (pageAddr N) j pt_entry) s₁ = .ok () { s₁ with paging := m₁ } :=
    onPaging_ok (storeEntry_eq (h.frame_eq hN hg))
  obtain ⟨f, hf, hfn, -⟩ := h₁.exists_leads hn (by omega) (by omega)
  obtain rfl : f = n := hfn hne
  have hpd : onPaging (storeEntry (pageAddr f) i { userEntry with physAddr := g })
      { s₁ with paging := m₁ } =
        .ok () { s₁ with paging := userMapped s₁.paging user_task f g i j } :=
    onPaging_ok (storeEntry_eq (h₁.frame_eq (by omega) hf))
  refine ⟨?_, h₁.setFrame (by omega) (by omega)⟩
  refine (Kern.bind_ok ha).trans ((Kern.bind_ok (h.vmmGetPhysAddr_eq hN hg hglt)).trans ?_)
  rw [pagingSetPageDirectoryAddr, shiftRight_page]
  exact (Kern.bind_ok hpt).trans hpd

theorem of_pagingMapUserPage_eq_ok {dir i j : Nat}
    (h : pagingMapUserPage kmalloc user_task dir i j s = .ok () s') :
    ∃ p s₁, vmmAllocPage kmalloc s = .ok p s₁ := by
  obtain ⟨p, s₁, ha, -⟩ := Kern.of_bind_eq_ok h
  exact ⟨p, s₁, ha⟩

theorem FirstBlock.mapUserPage (h : FirstBlock s d t N) (hk : Succeeds kmalloc) (hN : N < 1024)
    {n i j : Nat} (hn : t < n) (hnN : n < N) (hne : n ≠ 1022)
    (hc : pagingMapUserPage kmalloc user_task (pageAddr n) i j s = .ok () s') :
    FirstBlock s' d t (N + 1) ∧ ∃ m g, (N ≠ 1021 → m = s.paging) ∧ (N ≠ 1022 → g = N) ∧
      s'.paging = userMapped m user_task n g i j := by
  obtain ⟨p, s₁, ha⟩ := of_pagingMapUserPage_eq_ok hc
  obtain ⟨rfl, h₁, hpaging⟩ := h.alloc hk hN ha
  obtain ⟨g, hg, hgN, hgd, hgt, hglt⟩ := h₁.exists_leads h.lt_page (Nat.lt_succ_self N) (by omega)
  obtain ⟨heq, h₂⟩ : pagingMapUserPage kmalloc user_task (pageAddr n) i j s = .ok () _ ∧ _ :=
    pagingMapUserPage_eq ha h₁ hN hg hgd hgt hglt hn hnN hne
  rw [heq] at hc
  cases hc
  exact ⟨h₂, s₁.paging, g, hpaging, hgN, rfl⟩

theorem FirstBlock.copyKernel (h : FirstBlock s d t N) {n k : Nat} (hn : t < n) (hnN : n < N)
    (hN : N ≤ 1024) (hne : n ≠ 1022) :
    onPaging (pagingCopyKernel (pageAddr n) k) s = .ok () { s with
      paging := s.paging.setFrame n (copied (s.paging.ram d) (s.paging.ram n) k) } ∧
    FirstBlock { s with
      paging := s.paging.setFrame n (copied (s.paging.ram d) (s.paging.ram n) k) } d t N := by
  have hlt := h.lt
  refine ⟨onPaging_ok (pagingCopyKernel_eq h.tables (by omega) (by omega) (fun e => ?_) k),
    h.setFrame (by omega) (by omega)⟩
  have h' : FirstBlock { s with paging := s.paging.setFrame n e } d t N :=
    h.setFrame (by omega) (by omega)
  obtain ⟨f, hf, hfn, -⟩ := h'.exists_leads hn hnN hN
  obtain rfl : f = n := hfn hne
  exact h'.frame_eq (by omega) hf

/-- **What a call leaves** when its pages are pages of the first block: the directory is page `N`
and frame `N`, and the entries of the stack were set last. -/
theorem FirstBlock.create (h : FirstBlock s d t N) (hk : Succeeds kmalloc) (hN : N + 3 ≤ 1024)
    (hc : pagingCreateUserspace kmalloc user_task s = .ok r s') :
    r = 4096 * N ∧ FirstBlock s' d t (N + 3) ∧ ∃ m₁ m₂ m₃ g₂ g₃,
      (N ≠ 1021 → m₁ = s.paging) ∧
      (N + 1 ≠ 1021 → m₂ = m₁.setFrame N (copied (m₁.ram d) (m₁.ram N) 256)) ∧
      (N + 2 ≠ 1021 → m₃ = userMapped m₂ user_task N g₂ 0 0) ∧
      (N + 1 ≠ 1022 → g₂ = N + 1) ∧ (N + 2 ≠ 1022 → g₃ = N + 2) ∧
      s'.paging = userMapped m₃ user_task N g₃ 767 1023 := by
  have hcount : pageTableIndices - pageDirectoryIndex kernelBaseAddrVirt = 256 := rfl
  have hpd : pageDirectoryIndex stackAddressBase = 767 := by decide
  have hpt : pageTableIndex stackAddressBase = 1023 := by decide
  unfold pagingCreateUserspace at hc
  rw [hcount, hpd, hpt] at hc
  obtain ⟨p, s₁, ha, hc⟩ := Kern.of_bind_eq_ok hc
  obtain ⟨rfl, h₁, hpaging⟩ := h.alloc hk (by omega) ha
  obtain ⟨f, hf, hfN, -, -, hflt⟩ := h₁.exists_leads h.lt_page (Nat.lt_succ_self N) (by omega)
  obtain rfl : f = N := hfN (by omega)
  obtain ⟨_, _, haddr, hc⟩ := Kern.of_bind_eq_ok hc
  rw [h₁.vmmGetPhysAddr_eq (by omega) hf hflt] at haddr
  cases haddr
  -- the kernel's half
  obtain ⟨_, s₂, hs₂, hc⟩ := Kern.of_bind_eq_ok hc
  obtain ⟨hcopy, h₂⟩ := h₁.copyKernel (k := 256) h.lt_page (Nat.lt_succ_self f) (by omega) (by omega)
  rw [hcopy] at hs₂
  cases hs₂
  -- the program and the stack
  obtain ⟨_, s₃, hs₃, hc⟩ := Kern.of_bind_eq_ok hc
  obtain ⟨h₃, m₂, g₂, hm₂, hg₂, hpaging₃⟩ := h₂.mapUserPage hk (by omega) h.lt_page
    (Nat.lt_succ_self f) (by omega) hs₃
  obtain ⟨_, s₄, hs₄, hc⟩ := Kern.of_bind_eq_ok hc
  obtain ⟨h₄, m₃, g₃, hm₃, hg₃, hpaging₄⟩ := h₃.mapUserPage hk (by omega) h.lt_page (by omega)
    (by omega) hs₄
  cases hc
  exact ⟨rfl, h₄, s₁.paging, m₂, m₃, g₂, g₃, hpaging, hm₂, fun hne => (hm₃ hne).trans hpaging₃, hg₂,
    hg₃, hpaging₄⟩

theorem FirstBlock.mapUserPage_ok (h : FirstBlock s d t N) (kmalloc : Nat → Kern State Nat)
    (user_task : UserTaskInfo) (hN : N < 1021) {n : Nat} (hn : t < n) (hnN : n < N) (i j : Nat) :
    ∃ s', pagingMapUserPage kmalloc user_task (pageAddr n) i j s = .ok () s' ∧
      FirstBlock s' d t (N + 1) := by
  obtain ⟨s₁, ha, -, h₁⟩ := h.alloc_present kmalloc (by omega) (by omega)
  obtain ⟨g, hg, -, hgd, hgt, hglt⟩ := h₁.exists_leads h.lt_page (Nat.lt_succ_self N) (by omega)
  exact ⟨_, pagingMapUserPage_eq ha h₁ (by omega) hg hgd hgt hglt hn hnN (by omega)⟩

theorem FirstBlock.create_ok (h : FirstBlock s d t N) (kmalloc : Nat → Kern State Nat)
    (user_task : UserTaskInfo) (hN : N + 3 ≤ 1021) :
    ∃ s', pagingCreateUserspace kmalloc user_task s = .ok (4096 * N) s' := by
  obtain ⟨s₁, ha, -, h₁⟩ := h.alloc_present kmalloc (by omega) (by omega)
  obtain ⟨f, hf, hfN, -, -, hflt⟩ := h₁.exists_leads h.lt_page (Nat.lt_succ_self N) (by omega)
  obtain rfl : f = N := hfN (by omega)
  obtain ⟨hcopy, h₂⟩ := h₁.copyKernel
    (k := pageTableIndices - pageDirectoryIndex kernelBaseAddrVirt) h.lt_page
    (Nat.lt_succ_self f) (by omega) (by omega)
  obtain ⟨s₃, hs₃, h₃⟩ := h₂.mapUserPage_ok kmalloc user_task (by omega) h.lt_page
    (Nat.lt_succ_self f) 0 0
  obtain ⟨s₄, hs₄, -⟩ := h₃.mapUserPage_ok kmalloc user_task (by omega) h.lt_page (by omega)
    (pageDirectoryIndex stackAddressBase) (pageTableIndex stackAddressBase)
  refine ⟨s₄, (Kern.bind_ok ha).trans ?_⟩
  apply (Kern.bind_ok (h₁.vmmGetPhysAddr_eq (by omega) hf hflt)).trans
  refine (Kern.bind_ok hcopy).trans ((Kern.bind_ok hs₃).trans ((Kern.bind_ok hs₄).trans rfl))

end Create

/-! ### Runs -/

/-- The state, and the addresses of the page directories that were created. -/
structure UserSys where
  state : State
  directories : List Nat

/-- A call. -/
inductive UserOp where
  | alloc
  | create (user_task : UserTaskInfo)

/-- The pages that a call takes. -/
def UserOp.pages : UserOp → Nat
  | alloc => 1
  | create _ => 3

/-- The calls that return. -/
inductive UserStep (kmalloc : Nat → Kern State Nat) : UserSys → UserOp → UserSys → Prop
  | alloc {s : UserSys} {p : Nat} {s' : State} (h : vmmAllocPage kmalloc s.state = .ok p s') :
      UserStep kmalloc s .alloc ⟨s', s.directories⟩
  | create {s : UserSys} {user_task : UserTaskInfo} {r : Nat} {s' : State}
      (h : pagingCreateUserspace kmalloc user_task s.state = .ok r s') :
      UserStep kmalloc s (.create user_task) ⟨s', s.directories ++ [r]⟩

/-- The pages that a run takes. -/
def pagesOf (ops : List UserOp) : Nat := (ops.map UserOp.pages).sum

theorem pagesOf_append (ops : List UserOp) (op : UserOp) :
    pagesOf (ops ++ [op]) = pagesOf ops + op.pages := by
  rw [pagesOf, List.map_append, List.sum_append]
  rfl

theorem Boots.firstBlock {image : KernelImage} {mbt : MultibootInfo} {junk d t : Nat}
    {ram : Nat → Nat → PageEntry} {s : State} (h : Boots image mbt junk ram d t s)
    (ht : t < 1021) : FirstBlock s d t (t + 1) := by
  have hm := h.mapped
  have hlen : s.vmmBlockList.length = 1 := by
    rw [hm.layout.length, if_pos (by omega)]
    omega
  have htables := hm.tables
  rw [hlen] at htables
  have hlayout := hm.layout
  rw [tableAddr, if_pos rfl] at hlayout
  refine ⟨hlayout, hm.flag, htables.start, htables.directory, htables.taken 0 Nat.one_pos,
    h.directory_pos, htables.lt, ht, ?_, fun hN => by omega, Nat.lt_succ_self t⟩
  rw [if_pos (by omega)]
  exact htables.tables

theorem FirstBlock.of_run {s₀ : State} {d t : Nat} {kmalloc : Nat → Kern State Nat}
    {ops : List UserOp} {s : UserSys} (h : FirstBlock s₀ d t (t + 1)) (hk : Succeeds kmalloc)
    (hrun : Run (UserStep kmalloc) ⟨s₀, []⟩ ops s) (hfew : t + 1 + pagesOf ops ≤ 1024) :
    FirstBlock s.state d t (t + 1 + pagesOf ops) := by
  refine hrun.invariantOn (I := fun ops s => t + 1 + pagesOf ops ≤ 1024 →
    FirstBlock s.state d t (t + 1 + pagesOf ops)) ?_ (fun _ => h) hfew
  intro ops u op u' _ hi hs hfew
  rw [pagesOf_append] at hfew ⊢
  cases hs with
  | alloc halloc =>
    have hpages : UserOp.alloc.pages = 1 := rfl
    rw [hpages] at hfew ⊢
    exact ((hi (by omega)).alloc hk (by omega) halloc).2.1
  | @create user_task r s' hcreate =>
    have hpages : (UserOp.create user_task).pages = 3 := rfl
    rw [hpages] at hfew ⊢
    exact ((hi (by omega)).create hk (by omega) hcreate).2.1

/-! ### Isolation -/

/-- The frame that a user task reaches at `addr`, with the page directory in frame `dir`. -/
def userWalk (m : Paging.Mem) (dir addr : Nat) : Option Nat :=
  let pde := m.ram dir (pageDirectoryIndex addr)
  let pte := m.ram pde.physAddr (pageTableIndex addr)
  if pde.present ∧ pde.user ∧ pte.present ∧ pte.user then some pte.physAddr else none

/-- A user task reaches the page of its program and the page of its stack, in different frames, and
no other page; the kernel's half is that of the kernel. -/
structure Isolated (m : Paging.Mem) (user_task : UserTaskInfo) (dir : Nat) : Prop where
  program : userWalk m dir 0 = some (user_task.physAddrStart >>> 12)
  stack : ∃ f, userWalk m dir stackAddressBase = some f ∧ f ≠ user_task.physAddrStart >>> 12
  only : ∀ page < 2 ^ 20, userWalk m dir (4096 * page) ≠ none →
    page = 0 ∨ 4096 * page = stackAddressBase
  kernel : ∀ i, 768 ≤ i → i < 1024 → m.ram dir i = m.ram (v2pAddr m.kernelPageDirectory >>> 12) i

theorem userWalk_userMapped (m : Paging.Mem) (user_task : UserTaskInfo) (f g : Nat) :
    userWalk (userMapped m user_task f g 767 1023) f stackAddressBase =
      some (user_task.physAddrStart >>> 12) := by
  have hpd : pageDirectoryIndex stackAddressBase = 767 := by decide
  have hpt : pageTableIndex stackAddressBase = 1023 := by decide
  have hpde : (userMapped m user_task f g 767 1023).ram f 767 =
      { userEntry with physAddr := g } := by
    rw [userMapped, setFrame_ram_self, Function.update_self]
  have hpte : (userMapped m user_task f g 767 1023).ram g 1023 =
      pagingSetPageTableAddr userEntry user_task.physAddrStart := by
    rw [userMapped]
    by_cases hfg : g = f
    · rw [hfg, setFrame_ram_self, Function.update_of_ne (by decide), setFrame_ram_self,
        Function.update_self]
    · rw [setFrame_ram_ne hfg, setFrame_ram_self, Function.update_self]
  simp only [userWalk, hpd, hpt, hpde, hpte]
  rfl

theorem FirstBlock.not_isolated {s s' : State} {d t N r : Nat} {kmalloc : Nat → Kern State Nat}
    {user_task : UserTaskInfo} (h : FirstBlock s d t N) (hk : Succeeds kmalloc) (hN : N + 3 ≤ 1024)
    (hc : pagingCreateUserspace kmalloc user_task s = .ok r s') :
    ¬ Isolated s'.paging user_task (r >>> 12) := by
  obtain ⟨rfl, -, m₁, m₂, m₃, g₂, g₃, -, -, -, -, -, hpaging⟩ := h.create hk hN hc
  intro hi
  obtain ⟨f, hf, hne⟩ := hi.stack
  rw [hpaging, shiftRight_page, userWalk_userMapped] at hf
  cases hf
  exact hne rfl

/-- **No user task is isolated**, whatever the run did before the call: the page for the stack is
mapped to the frame of the program. -/
theorem not_isolated_of_run {image : KernelImage} {mbt : MultibootInfo} {junk d t : Nat}
    {ram : Nat → Nat → PageEntry} {s₀ : State} {kmalloc : Nat → Kern State Nat} {ops : List UserOp}
    {s : UserSys} {user_task : UserTaskInfo} {r : Nat} {s' : State}
    (hboot : Boots image mbt junk ram d t s₀) (hk : Succeeds kmalloc)
    (hrun : Run (UserStep kmalloc) ⟨s₀, []⟩ ops s) (hfirst : t + 1 + pagesOf ops + 3 ≤ 1024)
    (hc : pagingCreateUserspace kmalloc user_task s.state = .ok r s') :
    ¬ Isolated s'.paging user_task (r >>> 12) :=
  ((hboot.firstBlock (by omega)).of_run hk hrun (by omega)).not_isolated hk hfirst hc

/-- The module of the small kernel, in the first page of the pool. -/
def smallTask : UserTaskInfo := ⟨0, 0x180000, 0x181000, 0x1000⟩

/-- The first address space after the boot of the small kernel. -/
theorem not_isolated_smallImage :
    ∃ s₀ s', Boots smallImage solidMap 0 (fun _ _ => {}) 385 386 s₀ ∧
      pagingCreateUserspace (fun _ => pure 0xC0160F68) smallTask s₀ = .ok 0x183000 s' ∧
      ¬ Isolated s'.paging smallTask 0x183 := by
  obtain ⟨s₀, hboot⟩ := exists_boots_smallImage
  have hk : Succeeds fun _ => pure 0xC0160F68 := succeeds_pure (by decide)
  have h := hboot.firstBlock (by decide)
  obtain ⟨s', hc⟩ := h.create_ok (fun _ => pure 0xC0160F68) smallTask (by decide)
  exact ⟨s₀, s', hboot, hc, h.not_isolated hk (by decide) hc⟩

/-- An address space that is created after a page was handed out. -/
theorem not_isolated_after_alloc :
    ∃ s₀ s s', Run (UserStep fun _ => pure 0xC0160F68) ⟨s₀, []⟩ [.alloc] s ∧
      pagingCreateUserspace (fun _ => pure 0xC0160F68) smallTask s.state = .ok (4096 * 0x184) s' ∧
      ¬ Isolated s'.paging smallTask ((4096 * 0x184) >>> 12) := by
  obtain ⟨s₀, hboot⟩ := exists_boots_smallImage
  have hk : Succeeds fun _ => pure 0xC0160F68 := succeeds_pure (by decide)
  obtain ⟨s₁, halloc, -, h₁⟩ := (hboot.firstBlock (by decide)).alloc_present
    (fun _ => pure 0xC0160F68) (by decide) (by decide)
  have hrun : Run (UserStep fun _ => pure 0xC0160F68) ⟨s₀, []⟩ [.alloc] ⟨s₁, []⟩ :=
    Run.single (UserStep.alloc (s := ⟨s₀, []⟩) halloc)
  obtain ⟨s', hc⟩ := h₁.create_ok (fun _ => pure 0xC0160F68) smallTask (by decide)
  exact ⟨s₀, ⟨s₁, []⟩, s', hrun, hc, not_isolated_of_run hboot hk hrun (by decide) hc⟩

end Aosis.Memory.Vmm
