import Aosis.Common.Image
import Aosis.Memory.Pmm

/-!
# Paging

`kernel/memory/paging.c`.  Page directories and page tables are frames of 1024 entries, so
the memory is read as `ram frame index`; the bits of an entry are those of
`struct page_table_entry`, which lie where those of `struct page_directory_entry` do.

The code reaches a table through a virtual address, so every access goes through the
directory that is loaded in `cr3`; what is not mapped is a page fault.  The entries that are
changed while they may be cached are changed right before a flush, and the accessed and
dirty bits, which no code reads, are not set by the model's processor.

* `pagingInit_eq`: what `paging_init` leaves when its two frames lie below 4 MiB.
-/

namespace Aosis.Memory.Paging

open Aosis.Memory.Pmm

/-- `struct page_table_entry`; all fields are zero by default. -/
structure PageEntry where
  present : Bool := false
  rW : Bool := false
  user : Bool := false
  writeThrough : Bool := false
  cacheDisable : Bool := false
  accessed : Bool := false
  dirty : Bool := false
  patSupport : Bool := false
  globalTranslation : Bool := false
  ignored : BitVec 3 := 0
  physAddr : Nat := 0
  deriving DecidableEq

/-- The allocator of frames, the frames read as tables, the loaded page directory and the
pointer `kernel_page_directory`. -/
structure Mem where
  pmm : PhysicalMemory
  ram : Nat → Nat → PageEntry
  cr3 : Nat
  kernelPageDirectory : Nat

/-! ### The source -/

/-- `PAGE_TABLE_INDICES`. -/
def pageTableIndices : Nat := 1024

/-- `PAGE_TABLE_RANGE`. -/
def pageTableRange : Nat := pageTableIndices * pageSize

/-- `PAGE_DIRECTORY_INDEX(addr)`. -/
def pageDirectoryIndex (addr : Nat) : Nat := (addr >>> 22) &&& 0x3FF

/-- `PAGE_TABLE_INDEX(addr)`. -/
def pageTableIndex (addr : Nat) : Nat := (addr >>> 12) &&& 0x3FF

/-- `paging_set_page_directory_addr`. -/
def pagingSetPageDirectoryAddr (entry : PageEntry) (addr : Nat) : PageEntry :=
  { entry with physAddr := addr >>> 12 }

/-- `paging_set_page_table_addr`. -/
def pagingSetPageTableAddr (entry : PageEntry) (addr : Nat) : PageEntry :=
  { entry with physAddr := addr >>> 12 }

namespace Mem

/-- The walk of the processor: the entry of the page table that `addr` leads to. -/
def walk (s : Mem) (addr : Nat) : Option PageEntry :=
  let pde := s.ram (s.cr3 >>> 12) (pageDirectoryIndex addr)
  if pde.present then
    let pte := s.ram pde.physAddr (pageTableIndex addr)
    if pte.present then some pte else none
  else none

/-- The frame behind a virtual page. -/
def frame (s : Mem) (addr : Nat) : Option Nat := (s.walk addr).map PageEntry.physAddr

/-- The memory with the frame `f` overwritten. -/
def setFrame (s : Mem) (f : Nat) (entries : Nat → PageEntry) : Mem :=
  { s with ram := Function.update s.ram f entries }

end Mem

/-- A call of the frame allocator. -/
def onPmm {α : Type} (x : Kern PhysicalMemory α) : Kern Mem α :=
  x.zoom Mem.pmm fun pmm s => { s with pmm := pmm }

/-- `table->entries[i]`, for a table at a page-aligned virtual address. -/
def loadEntry (table i : Nat) : Kern Mem PageEntry := fun s =>
  match s.frame table with
  | some f => .ok (s.ram f i) s
  | none => .error (.pageFault (table + 4 * i)) s

/-- `table->entries[i] = entry`. -/
def storeEntry (table i : Nat) (entry : PageEntry) : Kern Mem Unit := fun s =>
  match s.frame table with
  | some f => .ok () (s.setFrame f (Function.update (s.ram f) i entry))
  | none => .error (.pageFault (table + 4 * i)) s

/-- `memset(page, 0, PAGE_SIZE)`. -/
def clearPage (page : Nat) : Kern Mem Unit := fun s =>
  match s.frame page with
  | some f => .ok () (s.setFrame f fun _ => {})
  | none => .error (.pageFault page) s

/-- One turn of the loop of `paging_init`. -/
def pagingMapKernelFrame (page_table i : Nat) : Kern Mem Unit :=
  let kernel_frame := pageSize * i
  let entry := { pagingSetPageTableAddr {} (pageAlign kernel_frame) with
    present := true, rW := true, globalTranslation := true }
  storeEntry page_table (pageTableIndex kernel_frame) entry

/-- The loop of `paging_init`, up to `n` turns. -/
def pagingMapKernel (page_table : Nat) : Nat → Kern Mem Unit
  | 0 => pure ()
  | n + 1 => do
    pagingMapKernel page_table n
    pagingMapKernelFrame page_table n

/-- `paging_change_page_directory`. -/
def pagingChangePageDirectory (page_directory_phys : Nat) : Kern Mem Unit := fun s =>
  .ok () { s with cr3 := page_directory_phys }

/-- `paging_init`. -/
def pagingInit (image : KernelImage) : Kern Mem Nat := do
  let page_directory ← onPmm pmmAllocPage
  let kernel_page_directory := p2vAddr page_directory
  modify fun s => { s with kernelPageDirectory := kernel_page_directory }
  if kernel_page_directory = 0 then throw (.panic "Unable to allocate page directory\n")
  else
    clearPage kernel_page_directory
    let page ← onPmm pmmAllocPage
    let page_table := p2vAddr page
    if page_table = 0 then throw (.panic "Unable to allocate a kernel page table\n")
    else
      clearPage page_table
      pagingMapKernel page_table 1024
      let pd_entry := { pagingSetPageDirectoryAddr {} (v2pAddr page_table) with
        present := true, rW := true, globalTranslation := true }
      storeEntry kernel_page_directory (pageDirectoryIndex image.kernelStartAddrVirt) pd_entry
      pagingChangePageDirectory (v2pAddr kernel_page_directory)
      return page_table

/-- `paging_add_page_table`. -/
def pagingAddPageTable (pt_phys_addr pt_virt_addr : Nat) : Kern Mem Unit := fun s =>
  let pd_entry := { pagingSetPageDirectoryAddr {} pt_phys_addr with present := true, rW := true }
  storeEntry s.kernelPageDirectory (pageDirectoryIndex pt_virt_addr) pd_entry s

/-- `paging_is_virtual_page_present`. -/
def pagingIsVirtualPagePresent (page_table_ptr virt_page : Nat) : Kern Mem Bool := do
  let pt_entry ← loadEntry page_table_ptr (pageTableIndex virt_page)
  return pt_entry.present

/-- `paging_map_virtual_page`. -/
def pagingMapVirtualPage (page_table_ptr virt_page : Nat) : Kern Mem Nat := do
  let pt_index := pageTableIndex virt_page
  let phys_page ← onPmm pmmAllocPage
  let pt_entry ← loadEntry page_table_ptr pt_index
  storeEntry page_table_ptr pt_index
    { pagingSetPageTableAddr pt_entry phys_page with present := true, rW := true }
  return phys_page

/-- The state in which `boot.asm` enters the kernel, with the frame allocator set up: the
temporary page table maps the first 4 MiB, at address zero and at `kernel_base_addr_virt`. -/
def Mem.atEntry (image : KernelImage) (pmm : PhysicalMemory) (ram : Nat → Nat → PageEntry) :
    Mem where
  pmm := pmm
  ram := Function.update
    (Function.update ram image.tempPageTable fun i => { present := true, rW := true, physAddr := i })
    image.tempPageDirectory fun i =>
      if i = 0 ∨ i = 0x300 then { present := true, rW := true, physAddr := image.tempPageTable }
      else {}
  cr3 := 4096 * image.tempPageDirectory
  kernelPageDirectory := 0

/-! ### Indices -/

theorem pageDirectoryIndex_eq (addr : Nat) : pageDirectoryIndex addr = addr / 4194304 % 1024 := by
  rw [pageDirectoryIndex, Nat.shiftRight_eq_div_pow]
  exact Nat.and_two_pow_sub_one_eq_mod _ 10

theorem pageTableIndex_eq (addr : Nat) : pageTableIndex addr = addr / 4096 % 1024 := by
  rw [pageTableIndex, Nat.shiftRight_eq_div_pow]
  exact Nat.and_two_pow_sub_one_eq_mod _ 10

theorem pageTableIndex_lt (addr : Nat) : pageTableIndex addr < 1024 := by
  rw [pageTableIndex_eq]
  exact Nat.mod_lt _ (by decide)

theorem shiftRight_page (i : Nat) : (4096 * i) >>> 12 = i := by
  rw [Nat.shiftRight_eq_div_pow]
  omega

theorem pageTableIndex_p2vAddr {i : Nat} (hi : i < 1024) :
    pageTableIndex (p2vAddr (4096 * i)) = i := by
  rw [pageTableIndex_eq, p2vAddr, kernelBaseAddrVirt, u32_of_lt (by omega)]
  omega

section SetFrame

variable {s : Mem} {f g : Nat} {e e' : Nat → PageEntry}

theorem setFrame_ram_self : (s.setFrame f e).ram f = e := by
  simp [Mem.setFrame]

theorem setFrame_ram_ne (h : g ≠ f) : (s.setFrame f e).ram g = s.ram g := by
  simp [Mem.setFrame, h]

theorem setFrame_setFrame : (s.setFrame f e).setFrame f e' = s.setFrame f e' := by
  rw [Mem.setFrame, Mem.setFrame, Mem.setFrame, Function.update_idem]

end SetFrame

/-! ### The window to the first 4 MiB -/

/-- The directory in frame `d` is loaded, and at `kernel_base_addr_virt` it leads to the table
in frame `t`, whose first `n` entries map the first `n` frames. -/
structure Window (s : Mem) (d t n : Nat) : Prop where
  cr3 : s.cr3 = 4096 * d
  directory : (s.ram d 0x300).present = true ∧ (s.ram d 0x300).physAddr = t
  table : ∀ i < n, (s.ram t i).present = true ∧ (s.ram t i).physAddr = i

namespace Window

variable {s s' : Mem} {d t n m f i : Nat} {e : Nat → PageEntry}

theorem frame_eq (hw : Window s d t n) (hi : i < n) (hn : n ≤ 1024) :
    s.frame (p2vAddr (4096 * i)) = some i := by
  have hd : pageDirectoryIndex (p2vAddr (4096 * i)) = 0x300 := by
    rw [pageDirectoryIndex_eq, p2vAddr, kernelBaseAddrVirt, u32_of_lt (by omega)]
    omega
  have hc : s.cr3 >>> 12 = d := by rw [hw.cr3, shiftRight_page]
  obtain ⟨hp, ha⟩ := hw.table i hi
  simp only [Mem.frame, Mem.walk, hd, hc, hw.directory, pageTableIndex_p2vAddr (by omega : i < 1024),
    if_true, hp, Option.map_some, ha]

theorem setFrame (hw : Window s d t n) (hd : f ≠ d) (ht : f ≠ t) :
    Window (s.setFrame f e) d t n := by
  have hrd : (s.setFrame f e).ram d = s.ram d := setFrame_ram_ne hd.symm
  have hrt : (s.setFrame f e).ram t = s.ram t := setFrame_ram_ne ht.symm
  exact ⟨hw.cr3, by rw [hrd]; exact hw.directory, fun i hi => by rw [hrt]; exact hw.table i hi⟩

theorem congr (hw : Window s d t n) (hc : s'.cr3 = s.cr3) (hr : s'.ram = s.ram) :
    Window s' d t n :=
  ⟨hc.trans hw.cr3, by rw [hr]; exact hw.directory, by rw [hr]; exact hw.table⟩

end Window

/-! ### Accesses through the window -/

section Access

variable {s : Mem} {d t n i j page f : Nat} {entry : PageEntry}

theorem onPmm_ok {α : Type} {x : Kern PhysicalMemory α} {a : α} {pmm : PhysicalMemory}
    (h : x s.pmm = .ok a pmm) : onPmm x s = .ok a { s with pmm := pmm } := Kern.zoom_ok h

theorem loadEntry_eq (hf : s.frame page = some f) : loadEntry page j s = .ok (s.ram f j) s := by
  rw [loadEntry, hf]

theorem storeEntry_eq (hf : s.frame page = some f) : storeEntry page j entry s =
    .ok () (s.setFrame f (Function.update (s.ram f) j entry)) := by
  rw [storeEntry, hf]

theorem clearPage_eq (hf : s.frame page = some f) :
    clearPage page s = .ok () (s.setFrame f fun _ => {}) := by
  rw [clearPage, hf]

theorem storeEntry_ok (hw : Window s d t n) (hi : i < n) (hn : n ≤ 1024) :
    storeEntry (p2vAddr (4096 * i)) j entry s =
      .ok () (s.setFrame i (Function.update (s.ram i) j entry)) :=
  storeEntry_eq (hw.frame_eq hi hn)

theorem clearPage_ok (hw : Window s d t n) (hi : i < n) (hn : n ≤ 1024) :
    clearPage (p2vAddr (4096 * i)) s = .ok () (s.setFrame i fun _ => {}) :=
  clearPage_eq (hw.frame_eq hi hn)

theorem pagingIsVirtualPagePresent_eq (virt_page : Nat) (hf : s.frame page = some f) :
    pagingIsVirtualPagePresent page virt_page s =
      .ok (s.ram f (pageTableIndex virt_page)).present s :=
  (Kern.bind_ok (loadEntry_eq hf)).trans rfl

/-- The entry that `paging_map_virtual_page` stores. -/
def mappedEntry (entry : PageEntry) (a : Nat) : PageEntry :=
  { pagingSetPageTableAddr entry a with present := true, rW := true }

theorem pagingMapVirtualPage_eq {v a : Nat} {pmm' : PhysicalMemory} (hf : s.frame page = some f)
    (ha : pmmAllocPage s.pmm = .ok a pmm') :
    pagingMapVirtualPage page v s = .ok a
      { s.setFrame f (Function.update (s.ram f) (pageTableIndex v)
          (mappedEntry (s.ram f (pageTableIndex v)) a)) with pmm := pmm' } := by
  have hf' : ({ s with pmm := pmm' } : Mem).frame page = some f := hf
  unfold pagingMapVirtualPage
  apply (Kern.bind_ok (onPmm_ok ha)).trans
  apply (Kern.bind_ok (loadEntry_eq hf')).trans
  exact Kern.bind_ok (storeEntry_eq hf')

end Access

/-! ### `paging_init` -/

/-- The entry of `paging_init` for frame `i`. -/
def kernelEntry (i : Nat) : PageEntry :=
  { present := true, rW := true, globalTranslation := true, physAddr := i }

theorem pagingMapKernelFrame_eq {page_table i : Nat} (hi : i < 1024) :
    pagingMapKernelFrame page_table i = storeEntry page_table i (kernelEntry i) := by
  have hal : pageAlign (4096 * i) = 4096 * i := by
    rw [pageAlign_eq (by omega)]
    omega
  have hix : pageTableIndex (4096 * i) = i := by
    rw [pageTableIndex_eq]
    omega
  rw [pagingMapKernelFrame, pageSize, hal, hix, pagingSetPageTableAddr, shiftRight_page]
  rfl

theorem pagingMapKernel_eq {s : Mem} {d t f : Nat} (hw : Window s d t 1024) (hf : f < 1024)
    (hd : f ≠ d) (ht : f ≠ t) : ∀ n ≤ 1024, pagingMapKernel (p2vAddr (4096 * f)) n s =
      .ok () (s.setFrame f fun i => if i < n then kernelEntry i else s.ram f i) := by
  intro n
  induction n with
  | zero =>
    intro _
    simp only [Nat.not_lt_zero, if_false, Mem.setFrame, Function.update_eq_self]
    rfl
  | succ n ih =>
    intro hn
    rw [pagingMapKernel, Kern.bind_ok (ih (by omega)), pagingMapKernelFrame_eq (by omega),
      storeEntry_ok (hw.setFrame hd ht) hf le_rfl, setFrame_setFrame, setFrame_ram_self]
    congr 2
    funext i
    rw [Function.update_apply]
    by_cases hi : i = n
    · rw [if_pos hi, hi, if_pos (Nat.lt_succ_self n)]
    · rw [if_neg hi]
      by_cases hlt : i < n
      · rw [if_pos hlt, if_pos (by omega)]
      · rw [if_neg hlt, if_neg (by omega)]

theorem Window.atEntry (image : KernelImage) (pmm : PhysicalMemory)
    (ram : Nat → Nat → PageEntry) :
    Window (Mem.atEntry image pmm ram) image.tempPageDirectory image.tempPageTable 1024 := by
  refine ⟨rfl, ?_, ?_⟩
  · simp [Mem.atEntry]
  · intro i _
    simp [Mem.atEntry, Function.update_of_ne image.temp_ne.symm]

/-- The directory and the table that `paging_init` sets up. -/
structure KernelTable (s : Mem) (d t : Nat) : Prop where
  cr3 : s.cr3 = 4096 * d
  directory : s.ram d 0x300 = kernelEntry t
  rest : ∀ i, i ≠ 0x300 → s.ram d i = {}
  table : ∀ i < 1024, s.ram t i = kernelEntry i

/-- **What `paging_init` leaves.**  When its two frames are different, lie below 4 MiB and
hold neither of the temporary tables, it loads the first one, which leads to the second one,
which maps the first 4 MiB. -/
theorem pagingInit_eq (image : KernelImage) (ram : Nat → Nat → PageEntry)
    {pmm pmm₁ pmm₂ : PhysicalMemory} {d t : Nat}
    (hd : pmmAllocPage pmm = .ok (4096 * d) pmm₁) (ht : pmmAllocPage pmm₁ = .ok (4096 * t) pmm₂)
    (hdlt : d < 1024) (htlt : t < 1024) (hdt : d ≠ t)
    (hdir : ∀ x, x = d ∨ x = t → x ≠ image.tempPageDirectory ∧ x ≠ image.tempPageTable)
    (hstart : image.kernelStartAddrVirt < 0xC0400000) :
    ∃ s, pagingInit image (Mem.atEntry image pmm ram) = .ok (p2vAddr (4096 * t)) s ∧
      KernelTable s d t ∧ s.pmm = pmm₂ ∧ s.kernelPageDirectory = p2vAddr (4096 * d) := by
  have hne : ∀ x, x < 1024 → p2vAddr (4096 * x) ≠ 0 := by
    intro x hx
    rw [p2vAddr, kernelBaseAddrVirt, u32_of_lt (by omega)]
    omega
  have hv2p : ∀ x, x < 1024 → v2pAddr (p2vAddr (4096 * x)) = 4096 * x := by
    intro x hx
    rw [v2pAddr, p2vAddr, kernelBaseAddrVirt, u32_of_lt (by omega),
      sub32_of_le (by omega) (by omega)]
    omega
  have hindex : pageDirectoryIndex image.kernelStartAddrVirt = 0x300 := by
    have := image.start_ge
    rw [kernelBaseAddrVirt] at this
    rw [pageDirectoryIndex_eq]
    omega
  obtain ⟨hd₁, hd₂⟩ := hdir d (Or.inl rfl)
  obtain ⟨ht₁, ht₂⟩ := hdir t (Or.inr rfl)
  have hw₀ := Window.atEntry image pmm ram
  have hpmm₀ : (Mem.atEntry image pmm ram).pmm = pmm := rfl
  generalize Mem.atEntry image pmm ram = s₀ at hw₀ hpmm₀
  -- the directory
  let s₁ : Mem := { s₀ with pmm := pmm₁, kernelPageDirectory := p2vAddr (4096 * d) }
  have hw₁ : Window s₁ image.tempPageDirectory image.tempPageTable 1024 := hw₀.congr rfl rfl
  have hw₂ := hw₁.setFrame (e := fun _ => {}) hd₁ hd₂
  -- the table
  let s₃ : Mem := { s₁.setFrame d fun _ => {} with pmm := pmm₂ }
  have hw₃ : Window s₃ image.tempPageDirectory image.tempPageTable 1024 := hw₂.congr rfl rfl
  have hw₄ := hw₃.setFrame (e := fun _ => {}) ht₁ ht₂
  have hmap := pagingMapKernel_eq hw₄ htlt ht₁ ht₂ 1024 le_rfl
  let s₅ : Mem := (s₃.setFrame t fun _ => {}).setFrame t fun i =>
    if i < 1024 then kernelEntry i else (s₃.setFrame t fun _ => {}).ram t i
  have hw₅ : Window s₅ image.tempPageDirectory image.tempPageTable 1024 := hw₄.setFrame ht₁ ht₂
  -- the entry of the directory
  let s₆ : Mem := { s₅.setFrame d (Function.update (s₅.ram d) 0x300 (kernelEntry t)) with
    cr3 := 4096 * d }
  refine ⟨s₆, ?_, ⟨rfl, ?_, ?_, ?_⟩, rfl, rfl⟩
  · unfold pagingInit
    apply (Kern.bind_ok (onPmm_ok (hpmm₀ ▸ hd))).trans
    apply (Kern.bind_ok (Kern.modify_ok _ _)).trans
    simp only [if_neg (hne d hdlt)]
    apply (Kern.bind_ok (clearPage_ok hw₁ hdlt le_rfl)).trans
    apply (Kern.bind_ok (onPmm_ok ht)).trans
    simp only [if_neg (hne t htlt)]
    apply (Kern.bind_ok (clearPage_ok hw₃ htlt le_rfl)).trans
    apply (Kern.bind_ok hmap).trans
    rw [hindex, hv2p d hdlt, hv2p t htlt, pagingSetPageDirectoryAddr, shiftRight_page]
    exact Kern.bind_ok (storeEntry_ok hw₅ hdlt le_rfl)
  · have hram : s₆.ram d = Function.update (s₅.ram d) 0x300 (kernelEntry t) := setFrame_ram_self
    rw [hram, Function.update_self]
  · intro i hi
    have hram : s₆.ram d = Function.update (s₅.ram d) 0x300 (kernelEntry t) := setFrame_ram_self
    have h₅ : s₅.ram d = (s₃.setFrame t fun _ => {}).ram d := setFrame_ram_ne hdt
    have h₄ : (s₃.setFrame t fun _ => {}).ram d = s₃.ram d := setFrame_ram_ne hdt
    have h₃ : s₃.ram d = fun _ => {} := setFrame_ram_self (s := s₁)
    rw [hram, Function.update_of_ne hi, h₅, h₄, h₃]
  · intro i hi
    have hram : s₆.ram t = s₅.ram t := setFrame_ram_ne hdt.symm
    rw [hram, setFrame_ram_self, if_pos hi]

end Aosis.Memory.Paging
