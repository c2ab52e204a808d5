import Aosis.Memory.PageTables

/-!
# Every page that the VMM returns stays mapped

The walk of the processor starts at the frame behind `kernel_page_directory`.  The invariant
`Mapped` puts together the list of blocks (`Layout`) and their page tables (`Tables`), and says
that the frames of the directory and of the tables are taken in the bitmap of the frame allocator,
so that a new table gets a frame of its own.

* `Mapped.alloc`: what one call does to the tables.
* `staysMapped_of_run`: in every state of a run each page returned so far is mapped, to the frame
  that it had when it was returned.
-/

namespace Aosis.Memory.Vmm

open Aosis.Lib Aosis.Lib.Bitmap Aosis.Memory.Pmm Aosis.Memory.Paging

/-! ### Frames that are taken -/

/-- The pool is aligned, and no address of its bitmap wraps. -/
structure PoolStart (pmm : PhysicalMemory) : Prop where
  aligned : pmm.startingAddr % 4096 = 0
  le : pmm.startingAddr ≤ 0x80000000

/-- The bit of frame `f` is set. -/
def Taken (pmm : PhysicalMemory) (f : Nat) : Prop :=
  ∃ k < 8192 * 32, f = pmm.startingAddr / 4096 + k ∧ bit pmm.bitmap k = true

/-- An allocation returns `NULL`, or the address of a frame that was not taken and is from now
on. -/
theorem pmmAllocPage_taken {pmm pmm' : PhysicalMemory} {a : Nat} (hp : PoolStart pmm)
    (h : pmmAllocPage pmm = .ok a pmm') :
    PoolStart pmm' ∧ (∀ f, Taken pmm f → Taken pmm' f) ∧
      (a ≠ 0 → ¬ Taken pmm (a >>> 12) ∧ Taken pmm' (a >>> 12)) := by
  have hmod := hp.aligned
  have hle := hp.le
  rcases pmmAllocPage_cases h with ⟨rfl, rfl, -⟩ | ⟨k, -, hk, hfirst, rfl, rfl⟩
  · exact ⟨hp, fun _ hf => hf, fun h0 => absurd rfl h0⟩
  · have hframe : u32 (pmm.startingAddr + 4096 * k) >>> 12 = pmm.startingAddr / 4096 + k := by
      rw [u32_of_lt (by omega), Nat.shiftRight_eq_div_pow]
      omega
    refine ⟨⟨hmod, hle⟩, ?_, fun _ => ⟨?_, k, hk, hframe, ?_⟩⟩
    · rintro f ⟨i, hi, hf, hset⟩
      refine ⟨i, hi, hf, ?_⟩
      rw [bit_setAt hk, hset, Bool.true_or]
    · rintro ⟨i, -, hf, hset⟩
      rw [hframe] at hf
      obtain rfl : k = i := by omega
      rw [hfirst.1] at hset
      cases hset
    · rw [bit_setAt hk]
      simp

/-! ### The calls -/

section Calls

variable {m m' : Paging.Mem} {pmm' : PhysicalMemory} {s s' : State} {d L hole b n a f : Nat}
  {table : Nat → Nat} {kmalloc : Nat → Kern State Nat} {desc : VmmBlockDesc}

theorem onPaging_ok {α : Type} {x : Kern Paging.Mem α} {r : α} (h : x s.paging = .ok r m') :
    onPaging x s = .ok r { s with paging := m' } := Kern.zoom_ok h

theorem leads_mappedEntry (entry : PageEntry) (a : Nat) :
    Leads (mappedEntry entry a) (a >>> 12) := ⟨rfl, rfl, rfl⟩

theorem of_pagingMapVirtualPage_eq_ok {page_table virt_page : Nat}
    (h : pagingMapVirtualPage page_table virt_page m = .ok a m') :
    ∃ pmm', pmmAllocPage m.pmm = .ok a pmm' := by
  unfold pagingMapVirtualPage at h
  obtain ⟨a', m₁, h₁, h⟩ := Kern.of_bind_eq_ok h
  obtain ⟨pmm', ha, -⟩ := Kern.of_zoom_eq_ok h₁
  obtain ⟨_, _, -, h⟩ := Kern.of_bind_eq_ok h
  obtain ⟨_, _, -, h⟩ := Kern.of_bind_eq_ok h
  cases h
  exact ⟨pmm', ha⟩

theorem pagingAddPageTable_eq {pt_phys_addr pt_virt_addr : Nat}
    (hf : m.frame m.kernelPageDirectory = some d) :
    pagingAddPageTable pt_phys_addr pt_virt_addr m = .ok () (m.setFrame d
      (Function.update (m.ram d) (pageDirectoryIndex pt_virt_addr)
        { present := true, rW := true, physAddr := pt_phys_addr >>> 12 })) := by
  simp only [pagingAddPageTable, storeEntry, hf, pagingSetPageDirectoryAddr]

/-- What adding a block does to the paging structures: a fresh frame `c` becomes the table of block
`L`, and the other entries of the tables stay. -/
structure Added (m : Paging.Mem) (d : Nat) (table : Nat → Nat) (L c : Nat) (m' : Paging.Mem) :
    Prop where
  tables : Tables m' d (Function.update table L c) (L + 1) 1022
  empty : m'.ram c = fun _ => {}
  kept : ∀ b < L, ∀ i, (b + 1 = L → i ≠ 1022) → m'.ram (table b) i = m.ram (table b) i
  link : Leads (m'.ram (table (L - 1)) 1022) c

/-- What adding a block does before the new table counts as one: the fresh frame `c` is behind the
last page but one of block `L - 1`, the directory leads to it, and it is empty. -/
structure Linked (m : Paging.Mem) (d : Nat) (table : Nat → Nat) (L c : Nat) (m' : Paging.Mem) :
    Prop where
  tables : Tables m' d table L 1022
  directory : Leads (m'.ram d (pageDirectoryIndex (pageAddr (1024 * L)))) c
  empty : m'.ram c = fun _ => {}
  kept : ∀ b < L, ∀ i, (b + 1 = L → i ≠ 1022) → m'.ram (table b) i = m.ram (table b) i
  link : Leads (m'.ram (table (L - 1)) 1022) c

/-- The call, for up to 257 blocks: the range of the last one starts at address zero again. -/
theorem vmmAddVmmBlock_linked (hk : Succeeds kmalloc) (ht : Tables s.paging d table L 1022)
    (htable : desc.pageTable = tableAddr table (L - 1))
    (hfirst : desc.firstPage = pageAddr (1024 * (L - 1)))
    (ha : pmmAllocPage s.paging.pmm = .ok a pmm') (hd : a >>> 12 ≠ d)
    (hc : ∀ b < L, a >>> 12 ≠ table b) :
    ∃ s', vmmAddVmmBlock kmalloc desc s = .ok () s' ∧ s'.paging.pmm = pmm' ∧
      s'.vmmBlockList = s.vmmBlockList ++ [newBlock desc] ∧
      Linked s.paging d table L (a >>> 12) s'.paging ∧ ∀ f, f ≠ d → f ≠ a >>> 12 →
        f ≠ table (L - 1) → s'.paging.ram f = s.paging.ram f := by
  have hpos := ht.pos
  have hle := ht.le
  have hlast : L - 1 < L := by omega
  obtain ⟨p, hp, hkm⟩ := hk sizeofVmmBlockDesc s
  have hpage := pageAddr_table hfirst
  have hnext : u32 (desc.firstPage + pageTableRange) = pageAddr (1024 * L) := by
    rw [pageAddr_next hfirst, Nat.sub_add_cancel hpos]
  have hti : pageTableIndex (pageAddr (1024 * (L - 1) + 1022)) = 1022 :=
    pageTableIndex_link (by omega)
  have hdi : ∀ b < L, pageDirectoryIndex (pageAddr (1024 * L)) ≠ 768 + b := fun b hb =>
    pageDirectoryIndex_next hb hle
  generalize hindex : pageDirectoryIndex (pageAddr (1024 * L)) = index at hdi
  have hf₀ : s.paging.frame desc.pageTable = some (table (L - 1)) := by
    rw [htable]
    exact ht.frame_table hlast
  -- the entry of the last table, the entry of the directory, and the new table
  let m₁ : Paging.Mem := { s.paging.setFrame (table (L - 1)) (Function.update
    (s.paging.ram (table (L - 1))) 1022 (mappedEntry (s.paging.ram (table (L - 1)) 1022) a)) with
    pmm := pmm' }
  have ht₁ : Tables m₁ d table L 1022 :=
    Tables.congr (ht.setEntry hlast (by omega) fun _ => rfl) rfl rfl (fun _ _ => rfl) fun _ _ => rfl
  have hlink₁ : Leads (m₁.ram (table (L - 1)) 1022) (a >>> 12) := by
    have hram : m₁.ram (table (L - 1)) = _ := setFrame_ram_self
    rw [hram, Function.update_self]
    exact leads_mappedEntry _ _
  have hkept₁ : ∀ b < L, ∀ i, (b + 1 = L → i ≠ 1022) → m₁.ram (table b) i =
      s.paging.ram (table b) i := by
    intro b hb i hi
    by_cases heq : b + 1 = L
    · obtain rfl : b = L - 1 := by omega
      have hram : m₁.ram (table (L - 1)) = _ := setFrame_ram_self
      rw [hram, Function.update_of_ne (hi heq)]
    · have hram : m₁.ram (table b) = s.paging.ram (table b) :=
        setFrame_ram_ne fun h => heq (by rw [ht.inj b hb _ hlast h]; omega)
      rw [hram]
  let entry : PageEntry := { present := true, rW := true, physAddr := a >>> 12 }
  let m₂ := m₁.setFrame d (Function.update (m₁.ram d) index entry)
  have ht₂ : Tables m₂ d table L 1022 := ht₁.setDirectory hdi
  have htab₂ : ∀ b < L, m₂.ram (table b) = m₁.ram (table b) := fun b hb =>
    setFrame_ram_ne (ht.fresh b hb)
  let m₃ := m₂.setFrame (a >>> 12) fun _ => {}
  have ht₃ : Tables m₃ d table L 1022 := ht₂.setFrame hd hc
  have htab₃ : ∀ b < L, m₃.ram (table b) = m₁.ram (table b) := fun b hb =>
    (setFrame_ram_ne (hc b hb).symm).trans (htab₂ b hb)
  have hdir₃ : Leads (m₃.ram d index) (a >>> 12) := by
    have hram : m₃.ram d = m₂.ram d := setFrame_ram_ne hd.symm
    have hram₂ : m₂.ram d = _ := setFrame_ram_self
    rw [hram, hram₂, Function.update_self]
    exact ⟨rfl, rfl, rfl⟩
  have hlink₃ : Leads (m₃.ram (table (L - 1)) 1022) (a >>> 12) := by
    rw [htab₃ _ hlast]
    exact hlink₁
  have hclear : m₂.frame (pageAddr (1024 * (L - 1) + 1022)) = some (a >>> 12) := by
    have hdiv : (1024 * (L - 1) + 1022) / 1024 = L - 1 := by omega
    have hmod : (1024 * (L - 1) + 1022) % 1024 = 1022 := by omega
    apply ht₂.frame_eq (by omega)
    rw [hdiv, hmod, htab₂ _ hlast]
    exact hlink₁
  refine ⟨{ s with paging := m₃, vmmBlockList := s.vmmBlockList ++ [newBlock desc] }, ?_, rfl, rfl,
    ⟨ht₃, hindex ▸ hdir₃, setFrame_ram_self, fun b hb i hi => ?_, hlink₃⟩, fun f hfd hfa hft => ?_⟩
  · unfold vmmAddVmmBlock
    apply (Kern.bind_ok hkm).trans
    rw [if_neg hp]
    dsimp only
    rw [hpage, hnext]
    have h₁ : pagingMapVirtualPage desc.pageTable (pageAddr (1024 * (L - 1) + 1022)) s.paging =
        .ok a m₁ := by
      have heq := pagingMapVirtualPage_eq (v := pageAddr (1024 * (L - 1) + 1022)) hf₀ ha
      rwa [hti] at heq
    apply (Kern.bind_ok (onPaging_ok h₁)).trans
    have h₂ : pagingAddPageTable a (pageAddr (1024 * L)) m₁ = .ok () m₂ := by
      rw [pagingAddPageTable_eq ht₁.frame_directory, hindex]
    apply (Kern.bind_ok (onPaging_ok (s := { s with paging := m₁ }) h₂)).trans
    apply (Kern.bind_ok (onPaging_ok (s := { s with paging := m₂ }) (clearPage_eq hclear))).trans
    have hnew : newBlock desc = ⟨Vector.replicate 32 0, 0, pageTableIndices, pageAddr (1024 * L),
        pageAddr (1024 * (L - 1) + 1022)⟩ := by
      rw [newBlock, hfirst, pageAddr_add, pageAddr_add,
        show 1024 * (L - 1) + 1024 = 1024 * L by omega, pageTableIndices]
    rw [Kern.modify_ok, hnew]
  · rw [htab₃ b hb]
    exact hkept₁ b hb i hi
  · have hram₃ : m₃.ram f = m₂.ram f := setFrame_ram_ne hfa
    have hram₂ : m₂.ram f = m₁.ram f := setFrame_ram_ne hfd
    have hram₁ : m₁.ram f = s.paging.ram f := setFrame_ram_ne hft
    exact hram₃.trans (hram₂.trans hram₁)

/-- **Adding a block**, when the frame allocator has a frame for its table. -/
theorem vmmAddVmmBlock_eq (hk : Succeeds kmalloc) (ht : Tables s.paging d table L 1022)
    (hL : L + 1 ≤ 256) (htable : desc.pageTable = tableAddr table (L - 1))
    (hfirst : desc.firstPage = pageAddr (1024 * (L - 1)))
    (ha : pmmAllocPage s.paging.pmm = .ok a pmm') (hd : a >>> 12 ≠ d)
    (hc : ∀ b < L, a >>> 12 ≠ table b) :
    ∃ s', vmmAddVmmBlock kmalloc desc s = .ok () s' ∧ s'.paging.pmm = pmm' ∧
      s'.vmmBlockList = s.vmmBlockList ++ [newBlock desc] ∧
      Added s.paging d table L (a >>> 12) s'.paging ∧ ∀ f, f ≠ d → f ≠ a >>> 12 →
        f ≠ table (L - 1) → s'.paging.ram f = s.paging.ram f := by
  obtain ⟨s', hcall, hpmm, hlist, hlinked, hother⟩ :=
    vmmAddVmmBlock_linked hk ht htable hfirst ha hd hc
  have hindex : pageDirectoryIndex (pageAddr (1024 * L)) = 768 + L := by
    rw [pageDirectoryIndex_pageAddr (by omega)]
    omega
  have hdir := hlinked.directory
  rw [hindex] at hdir
  exact ⟨s', hcall, hpmm, hlist, ⟨hlinked.tables.grow hL hd hc hdir hlinked.link, hlinked.empty,
    hlinked.kept, hlinked.link⟩, hother⟩

theorem vmmMapPage_present {page : Nat} (hf : s.paging.frame desc.pageTable = some f)
    (hp : (s.paging.ram f (pageTableIndex page)).present = true) :
    vmmMapPage page desc s = .ok page s := by
  have hpresent := pagingIsVirtualPagePresent_eq page hf
  rw [hp] at hpresent
  exact (Kern.bind_ok (onPaging_ok hpresent)).trans rfl

theorem vmmMapPage_absent {p page : Nat} (hf : s.paging.frame desc.pageTable = some f)
    (hp : (s.paging.ram f (pageTableIndex page)).present = false)
    (h : vmmMapPage page desc s = .ok p s') :
    ∃ a pmm', pmmAllocPage s.paging.pmm = .ok a pmm' ∧ s' = { s with paging :=
      { s.paging.setFrame f (Function.update (s.paging.ram f) (pageTableIndex page)
          (mappedEntry (s.paging.ram f (pageTableIndex page)) a)) with pmm := pmm' } } := by
  have hpresent := pagingIsVirtualPagePresent_eq page hf
  rw [hp] at hpresent
  have hbind : vmmMapPage page desc s =
      (onPaging (pagingMapVirtualPage desc.pageTable page) >>= fun _ => pure page) s :=
    Kern.bind_ok (onPaging_ok hpresent)
  rw [hbind] at h
  obtain ⟨a, s₁, h₁, h⟩ := Kern.of_bind_eq_ok h
  obtain ⟨m₁, hm₁, rfl⟩ := onPaging_eq_ok h₁
  obtain ⟨pmm', ha⟩ := of_pagingMapVirtualPage_eq_ok hm₁
  rw [pagingMapVirtualPage_eq hf ha] at hm₁
  cases hm₁
  cases h
  exact ⟨a, pmm', ha, rfl⟩

theorem of_vmmAddVmmBlock_eq_ok (hk : Succeeds kmalloc) (h : vmmAddVmmBlock kmalloc desc s = .ok () s') :
    ∃ a pmm', pmmAllocPage s.paging.pmm = .ok a pmm' := by
  obtain ⟨p, hp, hkm⟩ := hk sizeofVmmBlockDesc s
  unfold vmmAddVmmBlock at h
  obtain ⟨_, s₁, hkm', h⟩ := Kern.of_bind_eq_ok h
  rw [hkm] at hkm'
  cases hkm'
  rw [if_neg hp] at h
  obtain ⟨a, s₂, h₁, -⟩ := Kern.of_bind_eq_ok h
  obtain ⟨m₁, hm₁, -⟩ := onPaging_eq_ok h₁
  obtain ⟨pmm', ha⟩ := of_pagingMapVirtualPage_eq_ok hm₁
  exact ⟨a, pmm', ha⟩

end Calls

/-! ### The invariant -/

/-- The tables of the blocks, each in a frame that the allocator has handed out. -/
structure TablesTaken (m : Paging.Mem) (d : Nat) (table : Nat → Nat) (L : Nat) : Prop where
  tables : Tables m d table L (if L = 1 then 1024 else 1022)
  writable : ∀ b < L, ∀ i < 1024, (m.ram (table b) i).present = true → (m.ram (table b) i).rW = true
  start : PoolStart m.pmm
  directory : Taken m.pmm d
  taken : ∀ b < L, Taken m.pmm (table b)
  lt : d < table 0

namespace TablesTaken

variable {s s' : State} {m : Paging.Mem} {d L n : Nat} {table : Nat → Nat} {desc : VmmBlockDesc}
  {kmalloc : Nat → Kern State Nat}

theorem setFrame (ht : TablesTaken m d table L) {f : Nat} {e : Nat → PageEntry} (hd : f ≠ d)
    (hb : ∀ b < L, f ≠ table b) : TablesTaken (m.setFrame f e) d table L := by
  refine ⟨ht.tables.setFrame hd hb, ?_, ht.start, ht.directory, ht.taken, ht.lt⟩
  intro b hlt
  rw [setFrame_ram_ne (hb b hlt).symm]
  exact ht.writable b hlt

/-- An entry of the tables that is not present belongs to a page of a later block, and not to the
table of a block. -/
theorem of_absent (ht : TablesTaken m d table L) (hn : n / 1024 < L)
    (habsent : (m.ram (table (n / 1024)) (n % 1024)).present = false) :
    n / 1024 ≠ 0 ∧ (n % 1024 = 1022 → L ≤ n / 1024 + 1) := by
  have hlink : ∀ b, b + 1 < L → n / 1024 = b → n % 1024 ≠ 1022 := by
    intro b hb hnb hi
    have hpresent := (ht.tables.link b hb).present
    rw [hnb, hi, hpresent] at habsent
    cases habsent
  refine ⟨?_, ?_⟩
  · intro h0
    have hwindow := ht.tables.window (n % 1024) (Nat.mod_lt _ (by decide))
    rw [h0] at habsent
    by_cases hhole : n % 1024 = if L = 1 then 1024 else 1022
    · split at hhole
      · omega
      · exact hlink 0 (by omega) h0 hhole
    · have hpresent := (hwindow hhole).present
      rw [hpresent] at habsent
      cases habsent
  · intro hi
    by_contra hlt
    exact hlink _ (by omega) rfl hi

theorem frame_desc (ht : TablesTaken s.paging d table L) (hn : n / 1024 < L)
    (htable : desc.pageTable = tableAddr table (n / 1024)) :
    s.paging.frame desc.pageTable = some (table (n / 1024)) ∧ pageTableIndex (pageAddr n) = n % 1024 := by
  have hle := ht.tables.le
  refine ⟨?_, pageTableIndex_pageAddr (by omega)⟩
  rw [htable]
  exact ht.tables.frame_table hn

/-- **Mapping page `n`** changes its own entry at most, which leads to a frame afterwards. -/
theorem mapPage (ht : TablesTaken s.paging d table L) (hn : n / 1024 < L)
    (htable : desc.pageTable = tableAddr table (n / 1024)) {p : Nat}
    (h : vmmMapPage (pageAddr n) desc s = .ok p s') :
    TablesTaken s'.paging d table L ∧
      (∃ g, Leads (s'.paging.ram (table (n / 1024)) (n % 1024)) g) ∧
      ∀ k, k ≠ n → k / 1024 < L →
        s'.paging.ram (table (k / 1024)) (k % 1024) = s.paging.ram (table (k / 1024)) (k % 1024) := by
  obtain ⟨hf, hi⟩ := ht.frame_desc hn htable
  cases hp : (s.paging.ram (table (n / 1024)) (n % 1024)).present with
  | true =>
    rw [vmmMapPage_present hf (by rw [hi]; exact hp)] at h
    cases h
    exact ⟨ht, ⟨_, hp, ht.writable _ hn _ (Nat.mod_lt _ (by decide)) hp, rfl⟩, fun _ _ _ => rfl⟩
  | false =>
    obtain ⟨h0, hlink⟩ := ht.of_absent hn hp
    obtain ⟨a, pmm', ha, rfl⟩ := vmmMapPage_absent hf (by rw [hi]; exact hp) h
    rw [hi]
    obtain ⟨hstart, htaken, -⟩ := pmmAllocPage_taken ht.start ha
    generalize hentry : mappedEntry (s.paging.ram (table (n / 1024)) (n % 1024)) a = entry
    have hleads : Leads entry (a >>> 12) := hentry ▸ leads_mappedEntry _ _
    have hself : (s.paging.setFrame (table (n / 1024)) (Function.update
        (s.paging.ram (table (n / 1024))) (n % 1024) entry)).ram (table (n / 1024)) =
          Function.update (s.paging.ram (table (n / 1024))) (n % 1024) entry := setFrame_ram_self
    have hother : ∀ b < L, b ≠ n / 1024 → (s.paging.setFrame (table (n / 1024)) (Function.update
        (s.paging.ram (table (n / 1024))) (n % 1024) entry)).ram (table b) =
          s.paging.ram (table b) := fun b hb hne =>
      setFrame_ram_ne fun heq => hne (ht.tables.inj b hb _ hn heq)
    refine ⟨⟨(ht.tables.setEntry hn hlink fun h => absurd h h0).congr rfl rfl (fun _ _ => rfl)
      fun _ _ => rfl, fun b hb i hi hpi => ?_, hstart, htaken _ ht.directory,
      fun b hb => htaken _ (ht.taken b hb), ht.lt⟩, ⟨a >>> 12, ?_⟩, fun k hk hkL => ?_⟩
    · dsimp only at hpi ⊢
      by_cases hb' : b = n / 1024
      · subst hb'
        rw [hself] at hpi ⊢
        by_cases hi' : i = n % 1024
        · rw [hi', Function.update_self]
          exact hleads.rW
        · rw [Function.update_of_ne hi'] at hpi ⊢
          exact ht.writable _ hn i hi hpi
      · rw [hother b hb hb'] at hpi ⊢
        exact ht.writable b hb i hi hpi
    · dsimp only
      rw [hself, Function.update_self]
      exact hleads
    · dsimp only
      by_cases hb' : k / 1024 = n / 1024
      · rw [hb', hself, Function.update_of_ne (by omega)]
      · rw [hother _ hkL hb']

/-- **Adding a block** keeps the entries of the pages before its table. -/
theorem addBlock (hk : Succeeds kmalloc) (ht : TablesTaken s.paging d table L) (hL : L + 1 ≤ 256)
    (hlow : L = 1 → table 0 < 1022) (htable : desc.pageTable = tableAddr table (L - 1))
    (hfirst : desc.firstPage = pageAddr (1024 * (L - 1))) {a : Nat} {pmm' : PhysicalMemory}
    (ha : pmmAllocPage s.paging.pmm = .ok a pmm') (h0 : a ≠ 0) :
    ∃ s' table', vmmAddVmmBlock kmalloc desc s = .ok () s' ∧ s'.paging.pmm = pmm' ∧
      s'.vmmBlockList = s.vmmBlockList ++ [newBlock desc] ∧
      TablesTaken s'.paging d table' (L + 1) ∧ (∀ b < L, table' b = table b) ∧
      ∀ k < 1024 * (L - 1) + 1022,
        s'.paging.ram (table (k / 1024)) (k % 1024) = s.paging.ram (table (k / 1024)) (k % 1024) := by
  have hpos := ht.tables.pos
  obtain ⟨hstart, hmono, hfresh⟩ := pmmAllocPage_taken ht.start ha
  obtain ⟨hnew, hset⟩ := hfresh h0
  have hd : a >>> 12 ≠ d := fun heq => hnew (heq ▸ ht.directory)
  have hc : ∀ b < L, a >>> 12 ≠ table b := fun b hb heq => hnew (heq ▸ ht.taken b hb)
  have hholed : Tables s.paging d table L 1022 := by
    have htables := ht.tables
    have hlt := ht.lt
    by_cases h1 : L = 1
    · rw [if_pos h1] at htables
      have := hlow h1
      exact htables.setHole (by omega) (by omega)
    · rwa [if_neg h1] at htables
  obtain ⟨u, hu, hpmm, hlist, hadded, -⟩ := vmmAddVmmBlock_eq hk hholed hL htable hfirst ha hd hc
  have hold : ∀ b < L, Function.update table L (a >>> 12) b = table b := fun b hb =>
    Function.update_of_ne hb.ne _ _
  refine ⟨u, Function.update table L (a >>> 12), hu, hpmm, hlist, ⟨?_, fun b hb i hi hpi => ?_,
    hpmm ▸ hstart, hpmm ▸ hmono _ ht.directory, fun b hb => ?_, ?_⟩, hold, fun k hk => ?_⟩
  · rw [if_neg (by omega)]
    exact hadded.tables
  · by_cases hb' : b < L
    · rw [hold b hb'] at hpi ⊢
      by_cases hlink : b + 1 = L ∧ i = 1022
      · obtain ⟨hbL, rfl⟩ := hlink
        obtain rfl : b = L - 1 := by omega
        exact hadded.link.rW
      · rw [hadded.kept b hb' i fun hbL hi' => hlink ⟨hbL, hi'⟩] at hpi ⊢
        exact ht.writable b hb' i hi hpi
    · obtain rfl : b = L := by omega
      rw [Function.update_self, hadded.empty] at hpi
      cases hpi
  · rw [hpmm]
    by_cases hb' : b < L
    · rw [hold b hb']
      exact hmono _ (ht.taken b hb')
    · obtain rfl : b = L := by omega
      rw [Function.update_self]
      exact hset
  · rw [hold 0 hpos]
    exact ht.lt
  · exact hadded.kept _ (by omega) _ fun hb => by omega

end TablesTaken

/-- The blocks and their tables, when the pages from `f` to before `N` were handed out. -/
structure Mapped (s : State) (d f N : Nat) (table : Nat → Nat) : Prop where
  layout : Layout (tableAddr table 0) f N s.vmmBlockList
  flag : s.allocatingNewBlock = false
  tables : TablesTaken s.paging d table s.vmmBlockList.length
  first : f = table 0 + 1
  le : f ≤ N

theorem Mapped.setFrame {s : State} {d f N g : Nat} {table : Nat → Nat} {e : Nat → PageEntry}
    (hm : Mapped s d f N table) (hd : g ≠ d) (hb : ∀ b < s.vmmBlockList.length, g ≠ table b) :
    Mapped { s with paging := s.paging.setFrame g e } d f N table :=
  ⟨hm.layout, hm.flag, hm.tables.setFrame hd hb, hm.first, hm.le⟩

theorem tableAddr_congr {table table' : Nat → Nat} (h : table' 0 = table 0) (b : Nat) :
    tableAddr table' b = tableAddr table b := by
  rw [tableAddr, tableAddr, h]

/-- **One call** maps page `N` and leaves the entries of the pages before it alone. -/
theorem Mapped.alloc {kmalloc : Nat → Kern State Nat} {s s' : State} {d f N p : Nat}
    {table : Nat → Nat} (hk : Succeeds kmalloc) (hm : Mapped s d f N table)
    (h : vmmAllocPage kmalloc s = .ok p s') (hlen : s'.vmmBlockList.length ≤ 256)
    (hnull : s.vmmBlockList.length < s'.vmmBlockList.length →
      ∀ pmm', pmmAllocPage s.paging.pmm ≠ .ok 0 pmm') :
    p = pageAddr N ∧ ∃ table', Mapped s' d f (N + 1) table' ∧ N / 1024 < s'.vmmBlockList.length ∧
      (∃ g, Leads (s'.paging.ram (table' (N / 1024)) (N % 1024)) g) ∧
      ∀ n < N, s'.paging.ram (table' (n / 1024)) (n % 1024) =
        s.paging.ram (table (n / 1024)) (n % 1024) := by
  obtain ⟨-, -, -, hflag, M, hlayout, hM⟩ :=
    hm.layout.alloc (hk.serves (s.vmmBlockList.length + 1)) hm.le hm.flag h
  obtain rfl : M = N + 1 := by omega
  obtain ⟨rfl, -, hlt, desc, s₁, hdesc, hreserve, hmap⟩ := hm.layout.blocks.alloc_cases h
  obtain ⟨-, hlist, -⟩ := vmmMapPage_list hmap
  have hblock := hm.layout.block _ hlt
  have htable : desc.pageTable = tableAddr table (N / 1024) := by
    rw [hdesc]
    exact hblock.table
  have hfirst : desc.firstPage = pageAddr (1024 * (N / 1024)) := by
    rw [hdesc]
    exact hblock.first
  have hmark : desc.highWaterMark = N % 1024 + 1 := by rw [hdesc]; rfl
  have hle := hm.le
  refine ⟨rfl, ?_⟩
  rcases vmmReserveBlock_cases hreserve with ⟨-, rfl⟩ | ⟨hm', hlast, -, u, hadd, rfl⟩
  · have hL : s'.vmmBlockList.length = s.vmmBlockList.length := by rw [hlist, List.length_set]
    obtain ⟨ht, hg, hkept⟩ := TablesTaken.mapPage (s := { s with
      vmmBlockList := s.vmmBlockList.set (N / 1024) desc }) hm.tables hlt htable hmap
    refine ⟨table, ⟨hlayout, hflag, hL ▸ ht, hm.first, by omega⟩, hL ▸ hlt, hg, ?_⟩
    intro n hn
    exact hkept n hn.ne (by omega)
  · rw [List.length_set] at hlast
    obtain ⟨a, pmm', ha⟩ := of_vmmAddVmmBlock_eq_ok hk hadd
    obtain ⟨q, t, hkm, hu⟩ := vmmAddVmmBlock_list hadd
    obtain ⟨q', -, hkm'⟩ := hk sizeofVmmBlockDesc
      { s with
        vmmBlockList := s.vmmBlockList.set (N / 1024) desc
        allocatingNewBlock := true }
    rw [hkm'] at hkm
    cases hkm
    have hL : s'.vmmBlockList.length = s.vmmBlockList.length + 1 := by
      rw [hlist, hu, List.length_append, List.length_set, List.length_singleton]
    have hb : s.vmmBlockList.length - 1 = N / 1024 := by omega
    have hfirst0 := hm.first
    obtain ⟨u', table', hadd', -, -, ht', hold, hkept'⟩ := TablesTaken.addBlock (s := { s with
      vmmBlockList := s.vmmBlockList.set (N / 1024) desc
      allocatingNewBlock := true }) hk hm.tables (by omega) (fun _ => by omega) (hb.symm ▸ htable)
      (hb.symm ▸ hfirst) ha fun h0 => hnull (by omega) pmm' (h0 ▸ ha)
    rw [hadd] at hadd'
    cases hadd'
    have h0 : table' 0 = table 0 := hold 0 hm.tables.tables.pos
    obtain ⟨ht, hg, hkept⟩ := TablesTaken.mapPage (s := { u with allocatingNewBlock := false }) ht'
      (by omega) (htable.trans (tableAddr_congr h0 _).symm) hmap
    refine ⟨table', ⟨?_, hflag, hL ▸ ht, h0 ▸ hm.first, by omega⟩, by omega, hg, ?_⟩
    · rw [tableAddr_congr h0]
      exact hlayout
    · intro n hn
      rw [hkept n hn.ne (by omega), hold _ (by omega)]
      exact hkept' n (by omega)

/-- A page of the first block, apart from page 1021, is handed out without a change of the paging
structures if the table of the block has it. -/
theorem Layout.alloc_present {s : State} {T f N g : Nat} (kmalloc : Nat → Kern State Nat)
    (hl : Layout T f N s.vmmBlockList) (hN : N < 1024) (hne : N ≠ 1021)
    (ht : s.paging.frame T = some g) (hp : (s.paging.ram g N).present = true) :
    ∃ s', vmmAllocPage kmalloc s = .ok (pageAddr N) s' ∧ s'.paging = s.paging ∧
      s'.allocatingNewBlock = s.allocatingNewBlock ∧ Layout T f (N + 1) s'.vmmBlockList ∧
      s'.vmmBlockList.length = s.vmmBlockList.length := by
  have hdiv : N / 1024 = 0 := Nat.div_eq_of_lt hN
  have hlen := hl.length
  have hpos : 0 < s.vmmBlockList.length := by rw [hlen]; split <;> omega
  rcases hl.blocks.findPage with ⟨hnone, -⟩ | ⟨hlt, hfind⟩
  · omega
  have hblock := hl.block _ hlt
  have htake := hl.blocks.take hlt
  generalize hd : takePage N (s.vmmBlockList.get ⟨N / 1024, hlt⟩) = desc at hfind htake
  have hmark : desc.highWaterMark = N % 1024 + 1 := by rw [← hd]; rfl
  have htable : desc.pageTable = T := by
    rw [← hd]
    exact hblock.table.trans (if_pos hdiv)
  have hstay : vmmReserveBlock kmalloc (N / 1024) desc
      { s with vmmBlockList := s.vmmBlockList.set (N / 1024) desc } =
        .ok () { s with vmmBlockList := s.vmmBlockList.set (N / 1024) desc } := by
    rw [vmmReserveBlock, if_neg]
    rw [hmark, highWaterThreshold]
    omega
  refine ⟨{ s with vmmBlockList := s.vmmBlockList.set (N / 1024) desc }, ?_, rfl, rfl,
    ⟨htake, ?_⟩, List.length_set⟩
  · rw [vmmAllocPage, hfind]
    dsimp only
    rw [if_neg ((pageAddr_ne_zero (by omega)).mpr (by omega))]
    refine (Kern.bind_ok hstay).trans (vmmMapPage_present (f := g) ?_ ?_)
    · rw [htable]
      exact ht
    · rw [pageTableIndex_pageAddr (by omega), Nat.mod_eq_of_lt hN]
      exact hp
  · rw [List.length_set, hlen]
    split_ifs <;> omega

/-- **Page 1021 of the first block** comes with a second block, when the frame allocator has a frame
for its table. -/
theorem Layout.alloc_second {kmalloc : Nat → Kern State Nat} {s : State} {d t f a : Nat}
    {pmm' : PhysicalMemory} (hk : Succeeds kmalloc)
    (hl : Layout (pageAddr t) f 1021 s.vmmBlockList) (hf : f ≤ 1021)
    (hflag : s.allocatingNewBlock = false) (ht : Tables s.paging d (fun _ => t) 1 1024)
    (hd : d ≠ 1022) (ht' : t < 1021) (ha : pmmAllocPage s.paging.pmm = .ok a pmm')
    (hac : a >>> 12 ≠ d ∧ a >>> 12 ≠ t) :
    ∃ s', vmmAllocPage kmalloc s = .ok (pageAddr 1021) s' ∧ s'.paging.pmm = pmm' ∧
      s'.allocatingNewBlock = false ∧ Layout (pageAddr t) f 1022 s'.vmmBlockList ∧
      Added s.paging d (fun _ => t) 1 (a >>> 12) s'.paging ∧
      ∀ g, g ≠ d → g ≠ a >>> 12 → g ≠ t → s'.paging.ram g = s.paging.ram g := by
  have hlen : s.vmmBlockList.length = 1 := by
    rw [hl.length, if_pos hf]
  obtain ⟨hlt, hfind⟩ : ∃ hlt : 1021 / 1024 < s.vmmBlockList.length, vmmFindPage s.vmmBlockList =
      some (1021 / 1024, pageAddr 1021, takePage 1021 (s.vmmBlockList.get ⟨1021 / 1024, hlt⟩)) := by
    rcases hl.blocks.findPage with ⟨hnone, -⟩ | hsome
    · omega
    · exact hsome
  have hblock := hl.block _ hlt
  generalize hdesc : takePage 1021 (s.vmmBlockList.get ⟨1021 / 1024, hlt⟩) = desc at hfind
  have hmark : desc.highWaterMark = 1022 := by rw [← hdesc]; rfl
  have htable : desc.pageTable = tableAddr (fun _ => t) 0 := by
    rw [← hdesc]
    exact hblock.table
  have hfirst : desc.firstPage = pageAddr 0 := by
    rw [← hdesc]
    exact hblock.first
  obtain ⟨u, hadd, hpmm, -, hadded, hother⟩ := vmmAddVmmBlock_eq (s := { s with
    vmmBlockList := s.vmmBlockList.set 0 desc
    allocatingNewBlock := true }) hk (ht.setHole hd (by omega)) (by decide) htable hfirst ha hac.1
    fun _ _ => hac.2
  have hreserve : vmmReserveBlock kmalloc 0 desc { s with vmmBlockList := s.vmmBlockList.set 0 desc } =
      .ok () { u with allocatingNewBlock := false } := by
    rw [vmmReserveBlock, if_pos ⟨hmark, by rw [List.length_set, hlen], hflag⟩]
    apply (Kern.bind_ok (Kern.modify_ok _ _)).trans
    exact (Kern.bind_ok hadd).trans rfl
  have htables : Tables u.paging d (fun _ => t) 1 1022 := hadded.tables.first
  have hmap : vmmMapPage (pageAddr 1021) desc { u with allocatingNewBlock := false } =
      .ok (pageAddr 1021) { u with allocatingNewBlock := false } := by
    refine vmmMapPage_present (f := t) ?_ ?_
    · rw [htable]
      exact htables.frame_table Nat.one_pos
    · rw [pageTableIndex_pageAddr (by decide)]
      exact (htables.window 1021 (by decide) (by decide)).present
  have hcall : vmmAllocPage kmalloc s = .ok (pageAddr 1021) { u with allocatingNewBlock := false } := by
    rw [vmmAllocPage, hfind]
    dsimp only
    rw [if_neg ((pageAddr_ne_zero (by decide)).mpr (by decide))]
    exact (Kern.bind_ok hreserve).trans hmap
  obtain ⟨-, -, -, hflag', M, hlayout, hM⟩ := hl.alloc (hk.serves 2) hf hflag hcall
  obtain rfl : M = 1022 := by omega
  exact ⟨_, hcall, hpmm, hflag', hlayout, hadded, hother⟩

/-- **A page of the first block**, apart from page 1021, is handed out without a change of the
page tables. -/
theorem Mapped.alloc_first {s : State} {d f N : Nat} {table : Nat → Nat}
    (kmalloc : Nat → Kern State Nat) (hm : Mapped s d f N table) (hN : N < 1024) (hne : N ≠ 1021) :
    ∃ s', vmmAllocPage kmalloc s = .ok (pageAddr N) s' ∧ s'.paging = s.paging ∧
      Mapped s' d f (N + 1) table := by
  have hdiv : N / 1024 = 0 := Nat.div_eq_of_lt hN
  have hpos := hm.tables.tables.pos
  have hpresent : (s.paging.ram (table 0) N).present = true := by
    by_contra hp
    rw [Bool.not_eq_true] at hp
    refine (hm.tables.of_absent (n := N) (hdiv.symm ▸ hpos) ?_).1 hdiv
    rw [hdiv, Nat.mod_eq_of_lt hN]
    exact hp
  obtain ⟨s', halloc, hpaging, hflag, hlayout, hlen⟩ := hm.layout.alloc_present kmalloc hN hne
    (hm.tables.tables.frame_table hpos) hpresent
  refine ⟨s', halloc, hpaging, hlayout, hflag.trans hm.flag, ?_, hm.first,
    hm.le.trans (Nat.le_succ N)⟩
  rw [hpaging, hlen]
  exact hm.tables

/-! ### Runs -/

/-- The two entries of the walk from `kernel_page_directory`, if both are present. -/
def kernelWalk (m : Paging.Mem) (addr : Nat) : Option (PageEntry × PageEntry) :=
  let pde := m.ram (v2pAddr m.kernelPageDirectory >>> 12) (pageDirectoryIndex addr)
  let pte := m.ram pde.physAddr (pageTableIndex addr)
  if pde.present ∧ pte.present then some (pde, pte) else none

/-- The state, and the pages returned so far, each with the frame behind it when it was
returned. -/
structure WalkSys where
  state : State
  pages : List (Nat × Option Nat)

/-- A call of `vmm_alloc_page` that returns, with at most 256 blocks.  If it adds a block, the frame
allocator has a frame for the table. -/
inductive WalkStep (kmalloc : Nat → Kern State Nat) : WalkSys → Unit → WalkSys → Prop
  | alloc {s : WalkSys} {p : Nat} {s' : State} (h : vmmAllocPage kmalloc s.state = .ok p s')
      (hlen : s'.vmmBlockList.length ≤ 256)
      (hnull : s.state.vmmBlockList.length < s'.vmmBlockList.length →
        ∀ pmm', pmmAllocPage s.state.paging.pmm ≠ .ok 0 pmm') :
      WalkStep kmalloc s ()
        ⟨s', s.pages ++ [(p, (kernelWalk s'.paging p).map fun walk => walk.2.physAddr)]⟩

/-- Every page returned is mapped for writing, to the frame that it had when it was returned. -/
def StaysMapped (s : WalkSys) : Prop :=
  ∀ page ∈ s.pages, ∃ pde pte, kernelWalk s.state.paging page.1 = some (pde, pte) ∧
    pde.rW = true ∧ pte.rW = true ∧ page.2 = some pte.physAddr

theorem Tables.kernel_frame {m : Paging.Mem} {d L hole : Nat} {table : Nat → Nat}
    (ht : Tables m d table L hole) : v2pAddr m.kernelPageDirectory >>> 12 = d := by
  have hdir := ht.directory_lt.1
  rw [ht.kernel, v2pAddr_pageAddr (by omega), shiftRight_page]

theorem Tables.kernelWalk_eq {m : Paging.Mem} {d L hole n g : Nat} {table : Nat → Nat}
    (ht : Tables m d table L hole) (hn : n / 1024 < L)
    (hg : Leads (m.ram (table (n / 1024)) (n % 1024)) g) :
    kernelWalk m (pageAddr n) =
      some (m.ram d (768 + n / 1024), m.ram (table (n / 1024)) (n % 1024)) := by
  have hle := ht.le
  have hd := ht.directory _ hn
  simp only [kernelWalk, ht.kernel_frame, pageDirectoryIndex_pageAddr (by omega : n < 262144),
    pageTableIndex_pageAddr (by omega : n < 262144), hd.physAddr, hd.present, hg.present, and_self,
    if_true]

/-- The invariant of a run: each page returned has an entry that leads to its frame. -/
structure WalkInv (d f : Nat) (s : WalkSys) : Prop where
  mapped : ∃ N table, Mapped s.state d f N table ∧ ∀ page ∈ s.pages, ∃ n < N,
    n / 1024 < s.state.vmmBlockList.length ∧ page.1 = pageAddr n ∧
      ∃ g, page.2 = some g ∧ Leads (s.state.paging.ram (table (n / 1024)) (n % 1024)) g

theorem WalkInv.step {kmalloc : Nat → Kern State Nat} (hk : Succeeds kmalloc) {d f : Nat}
    {s s' : WalkSys} {op : Unit} (hi : WalkInv d f s) (h : WalkStep kmalloc s op s') :
    WalkInv d f s' := by
  obtain ⟨N, table, hm, hpages⟩ := hi.mapped
  cases h with
  | alloc h hlen hnull =>
    obtain ⟨rfl, table', hm', hlt, ⟨g, hg⟩, hkept⟩ := hm.alloc hk h hlen hnull
    refine ⟨N + 1, table', hm', ?_⟩
    intro page hpage
    rcases List.mem_append.mp hpage with hpage | hpage
    · obtain ⟨n, hn, -, hp, g', hg', hleads⟩ := hpages page hpage
      exact ⟨n, by omega, by dsimp only; omega, hp, g', hg', by rw [hkept n hn]; exact hleads⟩
    · rw [List.mem_singleton.mp hpage]
      refine ⟨N, Nat.lt_succ_self N, hlt, rfl, g, ?_, hg⟩
      rw [hm'.tables.tables.kernelWalk_eq hlt hg, Option.map_some, hg.physAddr]

theorem WalkInv.staysMapped {d f : Nat} {s : WalkSys} (hi : WalkInv d f s) : StaysMapped s := by
  obtain ⟨N, table, hm, hpages⟩ := hi.mapped
  intro page hpage
  obtain ⟨n, -, hlt, hp, g, hg, hleads⟩ := hpages page hpage
  have hd := hm.tables.tables.directory _ hlt
  rw [hp, hg]
  exact ⟨_, _, hm.tables.tables.kernelWalk_eq hlt hleads, hd.rW, hleads.rW,
    congrArg some hleads.physAddr.symm⟩

theorem Boots.mapped {image : KernelImage} {mbt : MultibootInfo} {junk d t : Nat}
    {ram : Nat → Nat → PageEntry} {s : State} (h : Boots image mbt junk ram d t s) :
    Mapped s d (t + 1) (t + 1) fun _ => t := by
  obtain ⟨hb, g, pmm₁, hinit, hd, ht⟩ := h.booted_pmm
  obtain ⟨hmod, -, hlt⟩ := pmmFirstPageAddr_spec image.end_le'
  have hend := image.end_le'
  have hstart : PoolStart g.pmm := by
    have := pmmInit_startingAddr hinit
    exact ⟨by omega, by omega⟩
  have hpos := h.directory_pos
  have hpos' := h.table_pos
  obtain ⟨hstart₁, -, hset₁⟩ := pmmAllocPage_taken hstart hd
  obtain ⟨hstart₂, hmono, hset₂⟩ := pmmAllocPage_taken hstart₁ ht
  obtain ⟨-, hdset⟩ := hset₁ (by omega)
  obtain ⟨-, htset⟩ := hset₂ (by omega)
  rw [shiftRight_page] at hdset htset
  have hlen : s.vmmBlockList.length = 1 := by
    have htl := hb.table_lt
    rw [hb.layout.length]
    split_ifs <;> omega
  have htables := tables_of_kernelTable hb.kernel hb.directory hb.lt h.table_lt
  refine ⟨?_, hb.flag, ?_, rfl, le_rfl⟩
  · rw [tableAddr, if_pos rfl, ← p2vAddr_page]
    exact hb.layout
  · rw [hlen]
    refine ⟨htables, ?_, hstart₂, hmono _ hdset, fun b _ => htset, hb.lt⟩
    intro b _ i hi _
    rw [hb.kernel.table i hi]
    rfl

/-- **Every page that the VMM returned is mapped and stays mapped**, in every state of a run. -/
theorem staysMapped_of_run {image : KernelImage} {mbt : MultibootInfo} {junk d t : Nat}
    {ram : Nat → Nat → PageEntry} {s₀ : State} {kmalloc : Nat → Kern State Nat} {ops : List Unit}
    {s : WalkSys} (hboot : Boots image mbt junk ram d t s₀) (hk : Succeeds kmalloc)
    (hrun : Run (WalkStep kmalloc) ⟨s₀, []⟩ ops s) : StaysMapped s := by
  have hinit : WalkInv d (t + 1) ⟨s₀, []⟩ :=
    ⟨t + 1, fun _ => t, hboot.mapped, fun page hpage => absurd hpage List.not_mem_nil⟩
  exact (hrun.invariant (fun hi hs => hi.step hk hs) hinit).staysMapped

theorem Mapped.exists_walkStep {s : WalkSys} {d f N : Nat} {table : Nat → Nat}
    (kmalloc : Nat → Kern State Nat) (hm : Mapped s.state d f N table) (hN : N < 1021) :
    ∃ g s', WalkStep kmalloc s () ⟨s', s.pages ++ [(pageAddr N, g)]⟩ ∧ Mapped s' d f (N + 1) table := by
  obtain ⟨s', halloc, -, hm'⟩ := hm.alloc_first kmalloc (by omega) (by omega)
  have hlen : s'.vmmBlockList.length = 1 := by
    rw [hm'.layout.length]
    split_ifs <;> omega
  refine ⟨_, s', .alloc halloc (by omega) fun hlt => ?_, hm'⟩
  have hle := hm.tables.tables.pos
  omega

/-- The first two pages that the VMM returns after the boot of the small kernel. -/
theorem staysMapped_smallImage :
    ∃ s : WalkSys, s.pages.map Prod.fst = [0xC0183000, 0xC0184000] ∧ StaysMapped s := by
  obtain ⟨s₀, hboot⟩ := exists_boots_smallImage
  have hk : Succeeds fun _ => pure 0xC0160F68 := succeeds_pure (by decide)
  obtain ⟨_, s₁, hstep₁, hm₁⟩ := Mapped.exists_walkStep (s := ⟨s₀, []⟩) (fun _ => pure 0xC0160F68)
    hboot.mapped (by decide)
  obtain ⟨_, s₂, hstep₂, -⟩ := Mapped.exists_walkStep (s := ⟨s₁, _⟩) (fun _ => pure 0xC0160F68) hm₁
    (by decide)
  exact ⟨_, rfl, staysMapped_of_run hboot hk ((Run.single hstep₁).snoc hstep₂)⟩

end Aosis.Memory.Vmm
