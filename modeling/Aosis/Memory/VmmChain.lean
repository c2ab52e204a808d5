import Aosis.Memory.VmmMapped

/-!
# The chain of page tables, also when the frames run out

`paging_map_virtual_page` takes the `NULL` of `pmm_alloc_page` for a frame.  So when the frames
run out the table of a new block is frame 0, and the tables of all blocks after it are frame 0 too,
which is emptied for each of them.  `Chained` describes the tables of `L` blocks without a promise
about what is in frame 0, and `Handed` says what the frame allocator knows about them.

* `Chained.store`, `Chained.clear`, `Chained.grow`: the stores of the allocator keep the tables.
* `Chained.mapPage`, `Chained.addTable`: a new page, and the table of a new block.
-/

namespace Aosis.Memory.Vmm

open Aosis.Lib Aosis.Lib.Bitmap Aosis.Memory.Pmm Aosis.Memory.Paging

/-! ### The tables -/

/-- The tables of `L` blocks.  A table that is frame 0 is followed by others that are, and only
there the link to the next table may be missing. -/
structure Chained (m : Paging.Mem) (d : Nat) (table : Nat → Nat) (L : Nat) : Prop where
  cr3 : m.cr3 = 4096 * d
  kernel : m.kernelPageDirectory = pageAddr d
  directory : ∀ b < L, Leads (m.ram d (768 + b)) (table b)
  fresh : ∀ b < L, table b ≠ d
  inj : ∀ b < L, ∀ c < L, table b ≠ 0 → table b = table c → b = c
  zeros : ∀ b < L, table b = 0 → ∀ c < L, b ≤ c → table c = 0
  link : ∀ b, b + 1 < L → (m.ram (table b) 1022).present = true →
    (m.ram (table b) 1022).physAddr = table (b + 1)
  kept : ∀ b, b + 1 < L → table b ≠ 0 → (m.ram (table b) 1022).present = true
  window : ∀ i < 1024, (i = 1022 → table 0 = 1022) → Leads (m.ram (table 0) i) i
  last : (m.ram (table 0) 1022).present = true ∧ (m.ram (table 0) 1022).physAddr < 2 ^ 20
  lt : d < table 0
  table_lt : table 0 < 1023
  pos : 0 < L
  le : L ≤ 256

namespace Chained

variable {m m' : Paging.Mem} {d L b c i n f : Nat} {table : Nat → Nat} {entry : PageEntry}

theorem frame_eq (h : Chained m d table L) (hb : n / 1024 < L) : m.frame (pageAddr n) =
    if (m.ram (table (n / 1024)) (n % 1024)).present then
      some (m.ram (table (n / 1024)) (n % 1024)).physAddr
    else none := by
  have hle := h.le
  have hd := h.directory _ hb
  have hc : m.cr3 >>> 12 = d := by rw [h.cr3, shiftRight_page]
  simp only [Paging.Mem.frame, Paging.Mem.walk, hc, pageDirectoryIndex_pageAddr (by omega : n < 262144),
    pageTableIndex_pageAddr (by omega : n < 262144), hd.present, hd.physAddr, if_true]
  split <;> rfl

theorem frame_window (h : Chained m d table L) (hi : i < 1024) (hlast : i = 1022 → table 0 = 1022) :
    m.frame (pageAddr i) = some i := by
  have hdiv : i / 1024 = 0 := Nat.div_eq_of_lt hi
  have hw := h.window i hi hlast
  rw [h.frame_eq (hdiv ▸ h.pos), hdiv, Nat.mod_eq_of_lt hi, if_pos hw.present, hw.physAddr]

theorem frame_directory (h : Chained m d table L) : m.frame m.kernelPageDirectory = some d := by
  have hlt := h.lt
  have htable := h.table_lt
  rw [h.kernel]
  exact h.frame_window (by omega) (by omega)

theorem frame_first (h : Chained m d table L) : m.frame (tableAddr table 0) = some (table 0) := by
  have htable := h.table_lt
  rw [tableAddr, if_pos rfl]
  exact h.frame_window (by omega) fun heq => heq

theorem first_entry (h : Chained m d table L) (hi : i < 1024) :
    (m.ram (table 0) i).present = true ∧ (m.ram (table 0) i).physAddr < 2 ^ 20 := by
  by_cases hlast : i = 1022
  · rw [hlast]
    exact h.last
  · have hw := h.window i hi fun heq => absurd heq hlast
    rw [hw.physAddr]
    exact ⟨hw.present, by omega⟩

theorem frame_table (h : Chained m d table L) (hb : b < L)
    (hf : m.frame (tableAddr table b) = some f) : f = table b := by
  cases b with
  | zero =>
    rw [h.frame_first] at hf
    cases hf
    rfl
  | succ b =>
    have hdiv : (1024 * b + 1022) / 1024 = b := by omega
    have hmod : (1024 * b + 1022) % 1024 = 1022 := by omega
    rw [tableAddr, if_neg (Nat.succ_ne_zero b), Nat.add_sub_cancel, h.frame_eq (by omega), hdiv,
      hmod] at hf
    split at hf
    · next hp =>
      cases hf
      exact h.link b hb hp
    · cases hf

theorem congr (h : Chained m d table L) (hcr3 : m'.cr3 = m.cr3)
    (hk : m'.kernelPageDirectory = m.kernelPageDirectory)
    (hd : ∀ b < L, m'.ram d (768 + b) = m.ram d (768 + b))
    (hr : ∀ b < L, m'.ram (table b) = m.ram (table b)) : Chained m' d table L where
  cr3 := hcr3.trans h.cr3
  kernel := hk.trans h.kernel
  directory b hb := by rw [hd b hb]; exact h.directory b hb
  fresh := h.fresh
  inj := h.inj
  zeros := h.zeros
  link b hb := by rw [hr b (by omega)]; exact h.link b hb
  kept b hb := by rw [hr b (by omega)]; exact h.kept b hb
  window := by rw [hr 0 h.pos]; exact h.window
  last := by rw [hr 0 h.pos]; exact h.last
  lt := h.lt
  table_lt := h.table_lt
  pos := h.pos
  le := h.le

theorem setDirectory (h : Chained m d table L) (entry : PageEntry) (hi : ∀ b < L, i ≠ 768 + b) :
    Chained (m.setFrame d (Function.update (m.ram d) i entry)) d table L := by
  refine h.congr rfl rfl ?_ fun b hb => setFrame_ram_ne (h.fresh b hb)
  intro b hb
  rw [setFrame_ram_self, Function.update_of_ne (hi b hb).symm]

/-- The first table is not frame 0, so no other block has it. -/
theorem eq_zero_of_table (h : Chained m d table L) (hb : b < L) (heq : table 0 = table b) :
    b = 0 := by
  have hlt := h.lt
  exact (h.inj 0 h.pos b hb (by omega) heq).symm

/-- **An entry of a table may be set** if it is no link that is there, and none of the window. -/
theorem store (h : Chained m d table L) (hb : b < L) (hfirst : b = 0 → i = 1022 ∧ table 0 ≠ 1022)
    (hlink : i = 1022 → b + 1 < L → (m.ram (table b) 1022).present = false) (he : Leads entry c)
    (hc : c < 2 ^ 20) (hzero : table b = 0 → c = 0) :
    Chained (m.setFrame (table b) (Function.update (m.ram (table b)) i entry)) d table L := by
  have hsame : ∀ {c j}, table c = table b → i = j →
      (m.setFrame (table b) (Function.update (m.ram (table b)) i entry)).ram (table c) j = entry := by
    intro c j hc hj
    rw [hc, setFrame_ram_self, hj, Function.update_self]
  have hother : ∀ {c j}, ¬ (table c = table b ∧ i = j) →
      (m.setFrame (table b) (Function.update (m.ram (table b)) i entry)).ram (table c) j =
        m.ram (table c) j := by
    intro c j hne
    by_cases hc : table c = table b
    · rw [hc, setFrame_ram_self, Function.update_of_ne fun hj => hne ⟨hc, hj.symm⟩]
    · rw [setFrame_ram_ne hc]
  refine ⟨h.cr3, h.kernel, ?_, h.fresh, h.inj, h.zeros, ?_, ?_, ?_, ?_, h.lt, h.table_lt, h.pos,
    h.le⟩
  · intro c hc
    rw [setFrame_ram_ne (h.fresh b hb).symm]
    exact h.directory c hc
  · intro c hc hp
    by_cases heq : table c = table b ∧ i = 1022
    · rw [hsame heq.1 heq.2, he.physAddr]
      by_cases h0 : table b = 0
      · -- the frames have run out
        rw [hzero h0, h.zeros c (by omega) (heq.1.trans h0) (c + 1) hc (Nat.le_succ c)]
      · obtain rfl := h.inj b hb c (by omega) h0 heq.1.symm
        have hp' := h.kept b hc h0
        rw [hlink heq.2 hc] at hp'
        cases hp'
    · rw [hother heq] at hp ⊢
      exact h.link c hc hp
  · intro c hc h0
    by_cases heq : table c = table b ∧ i = 1022
    · rw [hsame heq.1 heq.2]
      exact he.present
    · rw [hother heq]
      exact h.kept c hc h0
  · intro j hj hlast
    rw [hother]
    · exact h.window j hj hlast
    · rintro ⟨heq, rfl⟩
      obtain ⟨hi, hne⟩ := hfirst (h.eq_zero_of_table hb heq)
      exact hne (hlast hi)
  · by_cases heq : table 0 = table b ∧ i = 1022
    · rw [hsame heq.1 heq.2, he.physAddr]
      exact ⟨he.present, hc⟩
    · rw [hother heq]
      exact h.last

/-- **A frame may be emptied** if it is no table, or frame 0. -/
theorem clear (h : Chained m d table L) (hd : c ≠ d) (hc : ∀ b < L, table b ≠ 0 → c ≠ table b) :
    Chained (m.setFrame c fun _ => {}) d table L := by
  have hlt := h.lt
  have hkept : ∀ b < L, table b ≠ 0 → (m.setFrame c fun _ => {}).ram (table b) = m.ram (table b) :=
    fun b hb h0 => setFrame_ram_ne (hc b hb h0).symm
  refine ⟨h.cr3, h.kernel, ?_, h.fresh, h.inj, h.zeros, ?_, ?_, ?_, ?_, h.lt, h.table_lt, h.pos,
    h.le⟩
  · intro b hb
    rw [setFrame_ram_ne hd.symm]
    exact h.directory b hb
  · intro b hb hp
    by_cases heq : table b = c
    · rw [heq, setFrame_ram_self] at hp
      cases hp
    · rw [setFrame_ram_ne heq] at hp ⊢
      exact h.link b hb hp
  · intro b hb h0
    rw [hkept b (by omega) h0]
    exact h.kept b hb h0
  · rw [hkept 0 h.pos (by omega)]
    exact h.window
  · rw [hkept 0 h.pos (by omega)]
    exact h.last

/-- **A new block**, once its directory entry and the link to its table are set. -/
theorem grow (h : Chained m d table L) (hL : L + 1 ≤ 256) (hd : c ≠ d)
    (hc : ∀ b < L, table b ≠ 0 → c ≠ table b) (hzero : ∀ b < L, table b = 0 → c = 0)
    (hdir : Leads (m.ram d (768 + L)) c)
    (hlink : (m.ram (table (L - 1)) 1022).present = true →
      (m.ram (table (L - 1)) 1022).physAddr = c)
    (hkept : table (L - 1) ≠ 0 → (m.ram (table (L - 1)) 1022).present = true) :
    Chained m d (Function.update table L c) (L + 1) := by
  have hpos := h.pos
  have hold : ∀ b < L, Function.update table L c b = table b := fun b hb =>
    Function.update_of_ne hb.ne _ _
  have hnew : Function.update table L c L = c := Function.update_self _ _ _
  have hcases : ∀ b < L + 1, b < L ∨ b = L := fun b hb => by omega
  refine ⟨h.cr3, h.kernel, ?_, ?_, ?_, ?_, ?_, ?_, ?_, ?_, ?_, ?_, Nat.succ_pos L, hL⟩
  · intro b hb
    rcases hcases b hb with hb | rfl
    · rw [hold b hb]
      exact h.directory b hb
    · rwa [hnew]
  · intro b hb
    rcases hcases b hb with hb | rfl
    · rw [hold b hb]
      exact h.fresh b hb
    · rwa [hnew]
  · intro b hb b' hb' h0 heq
    rcases hcases b hb with hb | rfl <;> rcases hcases b' hb' with hb' | rfl
    · rw [hold b hb] at h0 heq
      rw [hold b' hb'] at heq
      exact h.inj b hb b' hb' h0 heq
    · rw [hold b hb] at h0 heq
      rw [hnew] at heq
      exact absurd heq.symm (hc b hb h0)
    · rw [hnew] at h0 heq
      rw [hold b' hb'] at heq
      exact absurd heq (hc b' hb' (heq ▸ h0))
    · rfl
  · intro b hb h0 b' hb' hle
    rcases hcases b' hb' with hb' | rfl
    · rw [hold b (by omega)] at h0
      rw [hold b' hb']
      exact h.zeros b (by omega) h0 b' hb' hle
    · rcases hcases b hb with hb | rfl
      · rw [hold b hb] at h0
        rw [hnew]
        exact hzero b hb h0
      · exact h0
  · intro b hb hp
    rw [hold b (by omega)] at hp ⊢
    rcases hcases (b + 1) hb with hb' | hb'
    · rw [hold (b + 1) hb']
      exact h.link b hb' hp
    · obtain rfl : b = L - 1 := by omega
      rw [hb', hnew]
      exact hlink hp
  · intro b hb h0
    rw [hold b (by omega)] at h0 ⊢
    rcases hcases (b + 1) hb with hb' | hb'
    · exact h.kept b hb' h0
    · obtain rfl : b = L - 1 := by omega
      exact hkept h0
  · rw [hold 0 hpos]
    exact h.window
  · rw [hold 0 hpos]
    exact h.last
  · rw [hold 0 hpos]
    exact h.lt
  · rw [hold 0 hpos]
    exact h.table_lt

end Chained

/-! ### The frames -/

/-- What the frame allocator knows about the tables: those that are not frame 0 are taken, and once
one is frame 0 there is no frame left. -/
structure Handed (pmm : PhysicalMemory) (d : Nat) (table : Nat → Nat) (L : Nat) : Prop where
  start : PoolStart pmm
  start_pos : 0 < pmm.startingAddr
  directory : Taken pmm d
  tables : ∀ b < L, table b ≠ 0 → Taken pmm (table b)
  exhausted : ∀ b < L, table b = 0 → pmmAllocPage pmm = .ok 0 pmm

/-- The frame `c` is the one that the allocator has just given, or frame 0 when there was none. -/
structure Granted (pmm : PhysicalMemory) (d : Nat) (table : Nat → Nat) (L c : Nat) : Prop where
  handed : Handed pmm d table L
  lt : c < 2 ^ 20
  ne_directory : c ≠ d
  ne_table : ∀ b < L, table b ≠ 0 → c ≠ table b
  zero : ∀ b < L, table b = 0 → c = 0
  taken : c ≠ 0 → Taken pmm c
  exhausted : c = 0 → pmmAllocPage pmm = .ok 0 pmm

section Frames

variable {pmm pmm' : PhysicalMemory} {d L a c : Nat} {table : Nat → Nat}

theorem pmmAllocPage_startingAddr (ha : pmmAllocPage pmm = .ok a pmm') :
    pmm'.startingAddr = pmm.startingAddr := by
  rcases pmmAllocPage_cases ha with ⟨-, rfl, -⟩ | ⟨k, -, -, -, -, rfl⟩ <;> rfl

/-- Frame 0 stands for `NULL` when the pool does not start at address zero. -/
theorem pmmAllocPage_zero (hp : PoolStart pmm) (h0 : 0 < pmm.startingAddr)
    (ha : pmmAllocPage pmm = .ok a pmm') (hshift : a >>> 12 = 0) : a = 0 ∧ pmm' = pmm := by
  have hmod := hp.aligned
  have hle := hp.le
  rcases pmmAllocPage_cases ha with ⟨rfl, rfl, -⟩ | ⟨k, -, hk, -, rfl, -⟩
  · exact ⟨rfl, rfl⟩
  · rw [u32_of_lt (by omega), Nat.shiftRight_eq_div_pow] at hshift
    omega

/-- **An allocation** gives a frame that is neither the directory nor a table, or none. -/
theorem Handed.alloc (h : Handed pmm d table L) (hd : 0 < d) (ha : pmmAllocPage pmm = .ok a pmm') :
    Granted pmm' d table L (a >>> 12) := by
  obtain ⟨hstart, hmono, hfresh⟩ := pmmAllocPage_taken h.start ha
  have hlt := pmmAllocPage_lt ha
  have hnew : a >>> 12 ≠ 0 → ¬ Taken pmm (a >>> 12) ∧ Taken pmm' (a >>> 12) := by
    intro hne
    apply hfresh
    intro h0
    apply hne
    rw [h0]
    rfl
  have hnone : ∀ b < L, table b = 0 → a = 0 ∧ pmm' = pmm := by
    intro b hb h0
    have hout := h.exhausted b hb h0
    rw [hout] at ha
    cases ha
    exact ⟨rfl, rfl⟩
  refine ⟨⟨hstart, pmmAllocPage_startingAddr ha ▸ h.start_pos, hmono d h.directory, ?_, ?_⟩, ?_, ?_,
    ?_, ?_, fun hne => (hnew hne).2, ?_⟩
  · intro b hb h0
    exact hmono _ (h.tables b hb h0)
  · intro b hb h0
    rw [(hnone b hb h0).2]
    exact h.exhausted b hb h0
  · rw [Nat.shiftRight_eq_div_pow]
    omega
  · intro heq
    apply (hnew (by omega)).1
    rw [heq]
    exact h.directory
  · intro b hb h0 heq
    apply (hnew (by omega)).1
    rw [heq]
    exact h.tables b hb h0
  · intro b hb h0
    rw [(hnone b hb h0).1]
    rfl
  · intro h0
    obtain ⟨rfl, rfl⟩ := pmmAllocPage_zero h.start h.start_pos ha h0
    exact ha

theorem Granted.grow (h : Granted pmm d table L c) :
    Handed pmm d (Function.update table L c) (L + 1) := by
  have hold : ∀ b < L, Function.update table L c b = table b := fun b hb =>
    Function.update_of_ne hb.ne _ _
  have hnew : Function.update table L c L = c := Function.update_self _ _ _
  have hcases : ∀ b < L + 1, b < L ∨ b = L := fun b hb => by omega
  refine ⟨h.handed.start, h.handed.start_pos, h.handed.directory, ?_, ?_⟩
  · intro b hb h0
    rcases hcases b hb with hb | rfl
    · rw [hold b hb] at h0 ⊢
      exact h.handed.tables b hb h0
    · rw [hnew] at h0 ⊢
      exact h.taken h0
  · intro b hb h0
    rcases hcases b hb with hb | rfl
    · rw [hold b hb] at h0
      exact h.handed.exhausted b hb h0
    · rw [hnew] at h0
      exact h.exhausted h0

end Frames

/-! ### The calls of the paging functions -/

section Calls

variable {m m' m₁ m₂ m₃ : Paging.Mem} {s s' : State} {d L a b p page page_table : Nat}
  {table : Nat → Nat} {desc : VmmBlockDesc}

theorem of_loadEntry_eq_ok {j : Nat} {e : PageEntry} (h : loadEntry page_table j m = .ok e m') :
    ∃ f, m.frame page_table = some f := by
  rw [loadEntry] at h
  split at h
  · next f hf => exact ⟨f, hf⟩
  · cases h

theorem pagingMapVirtualPage_cases (h : pagingMapVirtualPage page_table page m = .ok a m') :
    ∃ f pmm', m.frame page_table = some f ∧ pmmAllocPage m.pmm = .ok a pmm' ∧
      m' = { m.setFrame f (Function.update (m.ram f) (pageTableIndex page)
        (mappedEntry (m.ram f (pageTableIndex page)) a)) with pmm := pmm' } := by
  obtain ⟨pmm', ha⟩ := of_pagingMapVirtualPage_eq_ok h
  have hcall := h
  unfold pagingMapVirtualPage at hcall
  obtain ⟨_, m₁, h₁, hcall⟩ := Kern.of_bind_eq_ok hcall
  obtain ⟨_, -, rfl⟩ := Kern.of_zoom_eq_ok h₁
  obtain ⟨_, _, hload, -⟩ := Kern.of_bind_eq_ok hcall
  obtain ⟨f, hf⟩ := of_loadEntry_eq_ok hload
  have hf' : m.frame page_table = some f := hf
  rw [pagingMapVirtualPage_eq hf' ha] at h
  cases h
  exact ⟨f, pmm', hf', ha, rfl⟩

theorem of_vmmMapPage_eq_ok (h : vmmMapPage page desc s = .ok p s') :
    ∃ f, s.paging.frame desc.pageTable = some f := by
  unfold vmmMapPage at h
  obtain ⟨_, s₁, hmapped, -⟩ := Kern.of_bind_eq_ok h
  obtain ⟨m₁, hm₁, -⟩ := onPaging_eq_ok hmapped
  unfold pagingIsVirtualPagePresent at hm₁
  obtain ⟨_, _, hload, -⟩ := Kern.of_bind_eq_ok hm₁
  exact of_loadEntry_eq_ok hload

/-- **Mapping a page** of one of the blocks. -/
theorem Chained.mapPage (h : Chained s.paging d table L) (hh : Handed s.paging.pmm d table L)
    (hd : 0 < d) (hb : b < L) (htable : desc.pageTable = tableAddr table b)
    (hcall : vmmMapPage page desc s = .ok p s') :
    Chained s'.paging d table L ∧ Handed s'.paging.pmm d table L := by
  obtain ⟨f, hf⟩ := of_vmmMapPage_eq_ok hcall
  have hreach := hf
  rw [htable] at hreach
  obtain rfl := h.frame_table hb hreach
  cases hp : (s.paging.ram (table b) (pageTableIndex page)).present with
  | true =>
    rw [vmmMapPage_present hf hp] at hcall
    cases hcall
    exact ⟨h, hh⟩
  | false =>
    obtain ⟨a, pmm', ha, rfl⟩ := vmmMapPage_absent hf hp hcall
    have hg := hh.alloc hd ha
    have hstore := h.store (i := pageTableIndex page) hb (fun h0 => ?_) (fun hi _ => ?_)
      (leads_mappedEntry (s.paging.ram (table b) (pageTableIndex page)) a) hg.lt (hg.zero b hb)
    · exact ⟨hstore.congr rfl rfl (fun _ _ => rfl) fun _ _ => rfl, hg.handed⟩
    · subst h0
      rw [(h.first_entry (pageTableIndex_lt page)).1] at hp
      cases hp
    · rw [← hi]
      exact hp

/-- **The table of a new block**, also of block 256, which has no place in the kernel's half any
more. -/
theorem Chained.addTable (h : Chained m d table L) (hh : Handed m.pmm d table L) (hd : 0 < d)
    (hfirst : L = 1 → table 0 ≠ 1022)
    (h₁ : pagingMapVirtualPage (tableAddr table (L - 1)) (pageAddr (1024 * (L - 1) + 1022)) m =
      .ok a m₁)
    (h₂ : pagingAddPageTable a (pageAddr (1024 * L)) m₁ = .ok () m₂)
    (h₃ : clearPage (pageAddr (1024 * (L - 1) + 1022)) m₂ = .ok () m₃) :
    ∃ table', table' 0 = table 0 ∧ Chained m₃ d table' (min (L + 1) 256) ∧
      Handed m₃.pmm d table' (min (L + 1) 256) := by
  have hpos := h.pos
  have hle := h.le
  have hlast : L - 1 < L := by omega
  have hti : pageTableIndex (pageAddr (1024 * (L - 1) + 1022)) = 1022 :=
    pageTableIndex_link (by omega)
  have hdi : ∀ b < L, pageDirectoryIndex (pageAddr (1024 * L)) ≠ 768 + b := fun b hb =>
    pageDirectoryIndex_next hb hle
  -- the link
  obtain ⟨f, pmm', hf, ha, rfl⟩ := pagingMapVirtualPage_cases h₁
  obtain rfl := h.frame_table hlast hf
  rw [hti] at h₂
  have hg := hh.alloc hd ha
  generalize hentry : mappedEntry (m.ram (table (L - 1)) 1022) a = entry at h₂
  have hleads : Leads entry (a >>> 12) := hentry ▸ leads_mappedEntry _ a
  have hstore := h.store (i := 1022) hlast (fun h0 => ⟨rfl, hfirst (by omega)⟩)
    (fun _ hlt => by omega) hleads hg.lt (hg.zero _ hlast)
  have hlink : (m.setFrame (table (L - 1)) (Function.update (m.ram (table (L - 1))) 1022 entry)).ram
      (table (L - 1)) 1022 = entry := by
    rw [setFrame_ram_self, Function.update_self]
  generalize m.setFrame (table (L - 1)) (Function.update (m.ram (table (L - 1))) 1022 entry) = n
    at h₂ hstore hlink
  have hn : Chained { n with pmm := pmm' } d table L :=
    hstore.congr rfl rfl (fun _ _ => rfl) fun _ _ => rfl
  -- the entry of the directory
  rw [pagingAddPageTable_eq hn.frame_directory] at h₂
  cases h₂
  have hdir := hn.setDirectory { present := true, rW := true, physAddr := a >>> 12 } hdi
  generalize hm₂ : Paging.Mem.setFrame { n with pmm := pmm' } d (Function.update (n.ram d)
    (pageDirectoryIndex (pageAddr (1024 * L)))
    { present := true, rW := true, physAddr := a >>> 12 }) = m₂ at h₃ hdir
  have hlast₂ : m₂.ram (table (L - 1)) 1022 = entry := by
    rw [← hm₂, setFrame_ram_ne (h.fresh _ hlast)]
    exact hlink
  have hentry₂ : m₂.ram d (pageDirectoryIndex (pageAddr (1024 * L))) =
      { present := true, rW := true, physAddr := a >>> 12 } := by
    rw [← hm₂, setFrame_ram_self, Function.update_self]
  have hpmm₂ : m₂.pmm = pmm' := by rw [← hm₂]; rfl
  -- the new table is emptied
  have hframe : m₂.frame (pageAddr (1024 * (L - 1) + 1022)) = some (a >>> 12) := by
    have hdiv : (1024 * (L - 1) + 1022) / 1024 = L - 1 := by omega
    have hmod : (1024 * (L - 1) + 1022) % 1024 = 1022 := by omega
    rw [hdir.frame_eq (by omega), hdiv, hmod, hlast₂, if_pos hleads.present, hleads.physAddr]
  rw [clearPage_eq hframe] at h₃
  cases h₃
  have hclear := hdir.clear hg.ne_directory hg.ne_table
  by_cases hL : L = 256
  · subst hL
    exact ⟨table, rfl, hclear, hpmm₂ ▸ hg.handed⟩
  · have hmin : min (L + 1) 256 = L + 1 := by omega
    have hindex : pageDirectoryIndex (pageAddr (1024 * L)) = 768 + L := by
      rw [pageDirectoryIndex_pageAddr (by omega)]
      omega
    have hother : table (L - 1) ≠ a >>> 12 →
        (m₂.setFrame (a >>> 12) fun _ => {}).ram (table (L - 1)) 1022 = entry := by
      intro hne
      rw [setFrame_ram_ne hne, hlast₂]
    have hgrow := hclear.grow (c := a >>> 12) (by omega) hg.ne_directory hg.ne_table hg.zero ?_
      (fun hp => ?_) fun h0 => ?_
    · refine ⟨Function.update table L (a >>> 12), Function.update_of_ne (by omega) _ _, ?_, ?_⟩
      · rw [hmin]
        exact hgrow
      · rw [hmin]
        exact hpmm₂ ▸ hg.grow
    · rw [setFrame_ram_ne hg.ne_directory.symm, ← hindex, hentry₂]
      exact ⟨rfl, rfl, rfl⟩
    · by_cases heq : table (L - 1) = a >>> 12
      · rw [heq, setFrame_ram_self] at hp
        cases hp
      · rw [hother heq, hleads.physAddr]
    · rw [hother (hg.ne_table _ hlast h0).symm]
      exact hleads.present

end Calls

end Aosis.Memory.Vmm
