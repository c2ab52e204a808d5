import Aosis.Memory.Paging

/-!
# Mapping one page

`paging_map_virtual_page` writes one entry of a page table.  The processor reads that entry as a word of
32 bits, so what a page is mapped to depends on where the bit fields of the entry lie in it
(`PageEntry.bits`).

* `mapsOnly_pagingMapVirtualPage`: the page is mapped to the new frame, and the other pages of the table
  stay as they are.
-/

namespace Aosis.Memory.Paging

open Aosis.Memory.Pmm

/-! ### Entries as words -/

/-- The bit fields below `phys_addr`; the first one is in the lowest bit. -/
def PageEntry.flags (e : PageEntry) : BitVec 12 :=
  e.ignored ++ BitVec.ofBool e.globalTranslation ++ BitVec.ofBool e.patSupport ++
    BitVec.ofBool e.dirty ++ BitVec.ofBool e.accessed ++ BitVec.ofBool e.cacheDisable ++
    BitVec.ofBool e.writeThrough ++ BitVec.ofBool e.user ++ BitVec.ofBool e.rW ++
    BitVec.ofBool e.present

/-- The entry in memory. -/
def PageEntry.bits (e : PageEntry) : Word := BitVec.ofNat 20 e.physAddr ++ e.flags

/-- Bit 0 says whether an entry is present. -/
def presentBit (entry : Word) : Bool := entry.getLsbD 0

/-- Bit 1 says whether an entry allows writing. -/
def writeBit (entry : Word) : Bool := entry.getLsbD 1

/-- Bits 12 to 31 are the number of the frame. -/
def frameBits (entry : Word) : Nat := (entry.extractLsb' 12 20).toNat

namespace Mem

/-- The word that the processor reads as entry `i` of the table in frame `f`. -/
def word (s : Mem) (f i : Nat) : Word := (s.ram f i).bits

/-- The entry of the page directory for `addr`. -/
def directoryEntry (s : Mem) (addr : Nat) : Word := s.word (s.cr3 >>> 12) (pageDirectoryIndex addr)

/-- The entry of the page table for `addr`. -/
def tableEntry (s : Mem) (addr : Nat) : Option Word :=
  if presentBit (s.directoryEntry addr) then
    some (s.word (frameBits (s.directoryEntry addr)) (pageTableIndex addr))
  else none

/-- The physical address that `addr` stands for. -/
def translate (s : Mem) (addr : Nat) : Option Nat :=
  (s.tableEntry addr).bind fun entry =>
    if presentBit entry then some (4096 * frameBits entry + addr % 4096) else none

end Mem

/-- The page table in frame `T` serves the region of `addr`: an entry of the page directory, which is
another frame, leads to it. -/
structure Serves (s : Mem) (T addr : Nat) : Prop where
  present : presentBit (s.directoryEntry addr) = true
  frame : frameBits (s.directoryEntry addr) = T
  table : T ≠ s.cr3 >>> 12

/-- From `s` to `s'` the page of `virt_page`, which the table in frame `T` serves, is mapped to the frame
at `a`, and the other pages of the region stay as they are.  The table is reached through any pointer
that leads to it, and `page_table_ptr` still does unless its own entry is the one that changes. -/
structure MapsOnly (s s' : Mem) (page_table_ptr virt_page T a : Nat) : Prop where
  translate : ∀ addr, pageAlign addr = pageAlign virt_page →
    s'.translate addr = some (a + addr % 4096) ∧
      ∃ entry, s'.tableEntry addr = some entry ∧ presentBit entry = true ∧ writeBit entry = true
  present : ∀ addr, pageAlign addr = pageAlign virt_page → ∀ ptr, s'.frame ptr = some T →
    pagingIsVirtualPagePresent ptr addr s' = .ok true s'
  other : ∀ addr, pageDirectoryIndex addr = pageDirectoryIndex virt_page →
    pageAlign addr ≠ pageAlign virt_page →
      s'.tableEntry addr = s.tableEntry addr ∧ s'.translate addr = s.translate addr ∧
      ∃ b, pagingIsVirtualPagePresent page_table_ptr addr s = .ok b s ∧
        ∀ ptr, s'.frame ptr = some T → pagingIsVirtualPagePresent ptr addr s' = .ok b s'
  pointer : ¬ ((s.ram (s.cr3 >>> 12) (pageDirectoryIndex page_table_ptr)).physAddr = T ∧
      pageTableIndex page_table_ptr = pageTableIndex virt_page) → s'.frame page_table_ptr = some T

/-! ### The bits of an entry -/

section Bits

variable {e : PageEntry}

theorem bits_getLsbD {i : Nat} (hi : i < 12) : e.bits.getLsbD i = e.flags.getLsbD i := by
  rw [PageEntry.bits, BitVec.getLsbD_append]
  simp [hi]

theorem presentBit_bits : presentBit e.bits = e.present := by
  rw [presentBit, bits_getLsbD (by decide), PageEntry.flags, BitVec.getLsbD_append]
  simp

theorem writeBit_bits : writeBit e.bits = e.rW := by
  rw [writeBit, bits_getLsbD (by decide), PageEntry.flags, BitVec.getLsbD_append,
    BitVec.getLsbD_append]
  simp

theorem frameBits_bits : frameBits e.bits = e.physAddr % 2 ^ 20 := by
  rw [frameBits, PageEntry.bits, BitVec.extractLsb'_append_eq_left, BitVec.toNat_ofNat]

end Bits

/-! ### Pages and indices -/

theorem pageAlign_eq_iff {x y : Nat} : pageAlign x = pageAlign y ↔
    pageDirectoryIndex x = pageDirectoryIndex y ∧ pageTableIndex x = pageTableIndex y := by
  rw [pageAlign_u32, pageAlign_u32, pageDirectoryIndex_eq, pageDirectoryIndex_eq, pageTableIndex_eq,
    pageTableIndex_eq, u32, u32]
  omega

/-! ### The store -/

section MapPage

variable {s : Mem} {pmm' : PhysicalMemory} {page_table_ptr virt_page T a addr i : Nat}
  {entry : PageEntry}

/-- The memory after entry `i` of the table in frame `T` was stored. -/
def Mem.setEntry (s : Mem) (T i : Nat) (entry : PageEntry) : Mem :=
  s.setFrame T (Function.update (s.ram T) i entry)

theorem setEntry_ram (f j : Nat) : (s.setEntry T i entry).ram f j =
    if f = T ∧ j = i then entry else s.ram f j := by
  by_cases hf : f = T
  · subst hf
    rw [Mem.setEntry, setFrame_ram_self, Function.update_apply]
    simp
  · rw [Mem.setEntry, setFrame_ram_ne hf, if_neg fun h => hf h.1]

theorem Serves.directoryEntry_setEntry (h : Serves s T virt_page) (addr : Nat) :
    (s.setEntry T i entry).directoryEntry addr = s.directoryEntry addr := by
  have hne : ¬ (s.cr3 >>> 12 = T ∧ pageDirectoryIndex addr = i) := fun heq => h.table heq.1.symm
  rw [Mem.directoryEntry, Mem.word, show (s.setEntry T i entry).cr3 = s.cr3 from rfl, setEntry_ram,
    if_neg hne]
  rfl

/-- **The entries that the processor reads after the store.** -/
theorem Serves.tableEntry_setEntry (h : Serves s T virt_page)
    (haddr : pageDirectoryIndex addr = pageDirectoryIndex virt_page) :
    (s.setEntry T i entry).tableEntry addr =
      if pageTableIndex addr = i then some entry.bits else s.tableEntry addr := by
  have hdir : s.directoryEntry addr = s.directoryEntry virt_page := by
    rw [Mem.directoryEntry, Mem.directoryEntry, haddr]
  rw [Mem.tableEntry, Mem.tableEntry, h.directoryEntry_setEntry, hdir, if_pos h.present,
    if_pos h.present, h.frame, Mem.word, setEntry_ram]
  by_cases hi : pageTableIndex addr = i
  · rw [if_pos ⟨rfl, hi⟩, if_pos hi]
  · rw [if_neg fun heq => hi heq.2, if_neg hi]
    rfl

theorem Serves.frame_setEntry (h : Serves s T virt_page)
    (hne : ¬ ((s.ram (s.cr3 >>> 12) (pageDirectoryIndex addr)).physAddr = T ∧ pageTableIndex addr = i)) :
    (s.setEntry T i entry).frame addr = s.frame addr := by
  have hdir : ¬ (s.cr3 >>> 12 = T ∧ pageDirectoryIndex addr = i) := fun heq => h.table heq.1.symm
  simp only [Mem.frame, Mem.walk, show (s.setEntry T i entry).cr3 = s.cr3 from rfl, setEntry_ram,
    if_neg hdir, if_neg hne]

/-- **Mapping a page affects that page only.**  Whatever the table holds, after
`paging_map_virtual_page` the page is mapped to the frame that `pmm_alloc_page` returned, and the
other pages of the region have the translation and the presence that they had. -/
theorem mapsOnly_pagingMapVirtualPage (hptr : s.frame page_table_ptr = some T)
    (hserves : Serves s T virt_page) (halloc : pmmAllocPage s.pmm = .ok a pmm')
    (haligned : a % 4096 = 0) :
    ∃ s', pagingMapVirtualPage page_table_ptr virt_page s = .ok a s' ∧
      MapsOnly s s' page_table_ptr virt_page T a := by
  refine ⟨_, pagingMapVirtualPage_eq hptr halloc, ?_⟩
  let s₁ : Mem := { s with pmm := pmm' }
  let entry := mappedEntry (s.ram T (pageTableIndex virt_page)) a
  show MapsOnly s (s₁.setEntry T (pageTableIndex virt_page) entry) page_table_ptr virt_page T a
  have hs₁ : Serves s₁ T virt_page := ⟨hserves.present, hserves.frame, hserves.table⟩
  have halt := pmmAllocPage_lt halloc
  have hframe : 4096 * frameBits entry.bits = a := by
    rw [frameBits_bits, show entry.physAddr = a >>> 12 from rfl, Nat.shiftRight_eq_div_pow]
    omega
  have hself : ∀ addr, pageAlign addr = pageAlign virt_page →
      (s₁.setEntry T (pageTableIndex virt_page) entry).tableEntry addr = some entry.bits := by
    intro addr haddr
    obtain ⟨hdir, htable⟩ := pageAlign_eq_iff.mp haddr
    rw [hs₁.tableEntry_setEntry hdir, if_pos htable]
  have hother : ∀ addr, pageDirectoryIndex addr = pageDirectoryIndex virt_page →
      pageAlign addr ≠ pageAlign virt_page → pageTableIndex addr ≠ pageTableIndex virt_page :=
    fun addr hdir hne heq => hne (pageAlign_eq_iff.mpr ⟨hdir, heq⟩)
  refine ⟨?_, ?_, ?_, ?_⟩
  · intro addr haddr
    refine ⟨?_, entry.bits, hself addr haddr, presentBit_bits, writeBit_bits⟩
    rw [Mem.translate, hself addr haddr, Option.bind_some, presentBit_bits, hframe]
    rfl
  · intro addr haddr ptr hptr'
    rw [pagingIsVirtualPagePresent_eq addr hptr', setEntry_ram,
      if_pos ⟨rfl, (pageAlign_eq_iff.mp haddr).2⟩]
    rfl
  · intro addr hdir hne
    have hentry : (s₁.setEntry T (pageTableIndex virt_page) entry).tableEntry addr =
        s.tableEntry addr := by
      rw [hs₁.tableEntry_setEntry hdir, if_neg (hother addr hdir hne)]
      rfl
    refine ⟨hentry, ?_, _, pagingIsVirtualPagePresent_eq addr hptr, ?_⟩
    · rw [Mem.translate, hentry]
      rfl
    · intro ptr hptr'
      rw [pagingIsVirtualPagePresent_eq addr hptr', setEntry_ram,
        if_neg fun heq => hother addr hdir hne heq.2]
  · intro hne
    rw [hs₁.frame_setEntry hne]
    exact hptr

end MapPage

/-- A table in frame 2 for the first 4 MiB, which is mapped at page 5. -/
def smallTable : Mem where
  pmm := smallPool
  ram f i :=
    if f = 1 ∧ i = 0 ∨ f = 2 ∧ i = 5 then { present := true, rW := true, physAddr := 2 } else {}
  cr3 := 4096
  kernelPageDirectory := 0

/-- Page 7 is mapped to the first frame of the pool. -/
theorem mapsOnly_smallTable : ∃ s', pagingMapVirtualPage 0x5000 0x7000 smallTable = .ok 0x200000 s' ∧
    MapsOnly smallTable s' 0x5000 0x7000 2 0x200000 := by
  have halloc : pmmAllocPage smallTable.pmm = .ok 0x200000 (stateAfter (pmmAllocPage smallPool)) := rfl
  have hserves : Serves smallTable 2 0x7000 := ⟨by decide, by decide, by decide⟩
  exact mapsOnly_pagingMapVirtualPage rfl hserves halloc (by decide)

end Aosis.Memory.Paging
