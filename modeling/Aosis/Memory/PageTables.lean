import Aosis.Memory.VmmBoot

/-!
# The page tables of the blocks

`Tables m d table L hole` describes the kernel's half of the address space when it consists of
`L` blocks: the loaded directory is in frame `d`, the table of block `b` in frame `table b`.  A
table is reached through the table of the block before it, whose entry 1022 leads to it; the
initial table maps the first 4 MiB, except at the entry `hole`, where a second block has put its
table.

* `Tables.frame_eq`: an entry of a table says which frame is behind a page.
* `Tables.setEntry`, `Tables.setDirectory`, `Tables.clear`, `Tables.grow`: the stores of the
  allocator keep the description.
* `tables_of_kernelTable`: the state after `paging_init`.
-/

namespace Aosis.Memory.Vmm

open Aosis.Lib.Bitmap Aosis.Memory.Pmm Aosis.Memory.Paging

/-! ### Pages of the kernel's half -/

theorem p2vAddr_page (i : Nat) : p2vAddr (4096 * i) = pageAddr i := by
  rw [p2vAddr, pageAddr, Nat.add_comm]

section PageAddr

variable {n m : Nat}

theorem pageAddr_eq (h : n < 262144) : pageAddr n = 0xC0000000 + 4096 * n := by
  rw [pageAddr, kernelBaseAddrVirt, u32_of_lt (by omega)]

theorem pageAddr_inj (hn : n < 262144) (hm : m < 262144) : pageAddr n = pageAddr m ↔ n = m := by
  rw [pageAddr_eq hn, pageAddr_eq hm]
  omega

theorem pageAddr_ne_zero (hn : n ≤ 262144) : pageAddr n ≠ 0 ↔ n < 262144 := by
  rw [pageAddr, kernelBaseAddrVirt, u32]
  omega

theorem v2pAddr_pageAddr (h : n < 262144) : v2pAddr (pageAddr n) = 4096 * n := by
  rw [pageAddr_eq h, v2pAddr, kernelBaseAddrVirt, sub32_of_le (by omega) (by omega),
    Nat.add_sub_cancel_left]

theorem pageDirectoryIndex_pageAddr (h : n < 262144) :
    pageDirectoryIndex (pageAddr n) = 768 + n / 1024 := by
  rw [pageDirectoryIndex_eq, pageAddr_eq h]
  omega

theorem pageTableIndex_pageAddr (h : n < 262144) : pageTableIndex (pageAddr n) = n % 1024 := by
  rw [pageTableIndex_eq, pageAddr_eq h]
  omega

theorem pageTableIndex_link (h : n < 256) : pageTableIndex (pageAddr (1024 * n + 1022)) = 1022 := by
  rw [pageTableIndex_pageAddr (by omega)]
  omega

/-- A block after the first `n` ones has a directory entry of its own, also block 256. -/
theorem pageDirectoryIndex_next (hm : m < n) (hn : n ≤ 256) :
    pageDirectoryIndex (pageAddr (1024 * n)) ≠ 768 + m := by
  rw [pageDirectoryIndex_eq, pageAddr, kernelBaseAddrVirt, u32]
  omega

end PageAddr

/-! ### Entries -/

/-- The entry leads to the frame `f` and allows writing. -/
structure Leads (e : PageEntry) (f : Nat) : Prop where
  present : e.present = true
  rW : e.rW = true
  physAddr : e.physAddr = f

theorem leads_kernelEntry (i : Nat) : Leads (kernelEntry i) i := ⟨rfl, rfl, rfl⟩

/-- The address through which the code reaches the table of block `b`. -/
def tableAddr (table : Nat → Nat) (b : Nat) : Nat :=
  if b = 0 then pageAddr (table 0) else pageAddr (1024 * (b - 1) + 1022)

/-- The tables of `L` blocks. -/
structure Tables (m : Paging.Mem) (d : Nat) (table : Nat → Nat) (L hole : Nat) : Prop where
  cr3 : m.cr3 = 4096 * d
  kernel : m.kernelPageDirectory = pageAddr d
  fresh : ∀ b < L, table b ≠ d
  inj : ∀ b < L, ∀ c < L, table b = table c → b = c
  directory : ∀ b < L, Leads (m.ram d (768 + b)) (table b)
  link : ∀ b, b + 1 < L → Leads (m.ram (table b) 1022) (table (b + 1))
  window : ∀ i < 1024, i ≠ hole → Leads (m.ram (table 0) i) i
  directory_lt : d < 1024 ∧ d ≠ hole
  table_lt : table 0 < 1024 ∧ table 0 ≠ hole
  pos : 0 < L
  le : L ≤ 256

namespace Tables

variable {m m' : Paging.Mem} {d L hole n b c i f g : Nat} {table : Nat → Nat}
  {e : Nat → PageEntry} {entry : PageEntry}

/-- **The frame behind a page.** -/
theorem frame_eq (ht : Tables m d table L hole) (hb : n / 1024 < L)
    (he : Leads (m.ram (table (n / 1024)) (n % 1024)) g) : m.frame (pageAddr n) = some g := by
  have hle := ht.le
  have hd := ht.directory _ hb
  have hc : m.cr3 >>> 12 = d := by rw [ht.cr3, shiftRight_page]
  simp only [Paging.Mem.frame, Paging.Mem.walk, hc, pageDirectoryIndex_pageAddr (by omega : n < 262144),
    pageTableIndex_pageAddr (by omega : n < 262144), hd.present, hd.physAddr, he.present, if_true,
    Option.map_some, he.physAddr]

/-- The first pages of the kernel's half are the first frames. -/
theorem frame_window (ht : Tables m d table L hole) (hi : i < 1024) (hne : i ≠ hole) :
    m.frame (pageAddr i) = some i := by
  refine ht.frame_eq (by rw [Nat.div_eq_of_lt hi]; exact ht.pos) ?_
  rw [Nat.div_eq_of_lt hi, Nat.mod_eq_of_lt hi]
  exact ht.window i hi hne

theorem frame_directory (ht : Tables m d table L hole) : m.frame m.kernelPageDirectory = some d := by
  rw [ht.kernel]
  exact ht.frame_window ht.directory_lt.1 ht.directory_lt.2

/-- **The frame behind a table.** -/
theorem frame_table (ht : Tables m d table L hole) (hb : b < L) :
    m.frame (tableAddr table b) = some (table b) := by
  rw [tableAddr]
  split
  · next h0 =>
    rw [h0]
    exact ht.frame_window ht.table_lt.1 ht.table_lt.2
  · next h0 =>
    obtain ⟨b, rfl⟩ := Nat.exists_eq_succ_of_ne_zero h0
    have hdiv : (1024 * (b.succ - 1) + 1022) / 1024 = b := by omega
    have hmod : (1024 * (b.succ - 1) + 1022) % 1024 = 1022 := by omega
    apply ht.frame_eq (by omega)
    rw [hdiv, hmod]
    exact ht.link b hb

theorem congr (ht : Tables m d table L hole) (hcr3 : m'.cr3 = m.cr3)
    (hk : m'.kernelPageDirectory = m.kernelPageDirectory)
    (hd : ∀ b < L, m'.ram d (768 + b) = m.ram d (768 + b))
    (hr : ∀ b < L, m'.ram (table b) = m.ram (table b)) : Tables m' d table L hole where
  cr3 := hcr3.trans ht.cr3
  kernel := hk.trans ht.kernel
  fresh := ht.fresh
  inj := ht.inj
  directory b hb := by rw [hd b hb]; exact ht.directory b hb
  link b hb := by rw [hr b (by omega)]; exact ht.link b hb
  window i hi hne := by rw [hr 0 ht.pos]; exact ht.window i hi hne
  directory_lt := ht.directory_lt
  table_lt := ht.table_lt
  pos := ht.pos
  le := ht.le

theorem setFrame (ht : Tables m d table L hole) (hd : f ≠ d) (hb : ∀ b < L, f ≠ table b) :
    Tables (m.setFrame f e) d table L hole := by
  refine ht.congr rfl rfl ?_ fun b hlt => setFrame_ram_ne (hb b hlt).symm
  intro b _
  rw [setFrame_ram_ne hd.symm]

theorem setDirectory (ht : Tables m d table L hole) (hi : ∀ b < L, i ≠ 768 + b) :
    Tables (m.setFrame d (Function.update (m.ram d) i entry)) d table L hole := by
  refine ht.congr rfl rfl ?_ fun b hb => setFrame_ram_ne (ht.fresh b hb)
  intro b hb
  rw [setFrame_ram_self, Function.update_of_ne (hi b hb).symm]

theorem setEntry (ht : Tables m d table L hole) (hb : b < L) (hlink : i = 1022 → L ≤ b + 1)
    (hwindow : b = 0 → i = hole) :
    Tables (m.setFrame (table b) (Function.update (m.ram (table b)) i entry)) d table L hole := by
  have hram : ∀ c < L, ∀ j, (c = b → j ≠ i) →
      (m.setFrame (table b) (Function.update (m.ram (table b)) i entry)).ram (table c) j =
        m.ram (table c) j := by
    intro c hc j hj
    by_cases heq : c = b
    · subst heq
      rw [setFrame_ram_self, Function.update_of_ne (hj rfl)]
    · rw [setFrame_ram_ne fun h => heq (ht.inj c hc b hb h)]
  refine ⟨ht.cr3, ht.kernel, ht.fresh, ht.inj, fun c hc => ?_, fun c hc => ?_, fun j hj hne => ?_,
    ht.directory_lt, ht.table_lt, ht.pos, ht.le⟩
  · rw [setFrame_ram_ne (ht.fresh b hb).symm]
    exact ht.directory c hc
  · rw [hram c (by omega) 1022 (by omega)]
    exact ht.link c hc
  · rw [hram 0 ht.pos j fun h0 hji => hne (hji.trans (hwindow h0.symm))]
    exact ht.window j hj hne

theorem setHole (ht : Tables m d table L 1024) (hd : d ≠ hole) (h0 : table 0 ≠ hole) :
    Tables m d table L hole :=
  ⟨ht.cr3, ht.kernel, ht.fresh, ht.inj, ht.directory, ht.link,
    fun i hi _ => ht.window i hi hi.ne, ⟨ht.directory_lt.1, hd⟩, ⟨ht.table_lt.1, h0⟩, ht.pos, ht.le⟩

/-- **A new block**, once its directory entry and the link to its table are set. -/
theorem grow (ht : Tables m d table L hole) (hL : L + 1 ≤ 256) (hd : c ≠ d)
    (hc : ∀ b < L, c ≠ table b) (hdir : Leads (m.ram d (768 + L)) c)
    (hlink : Leads (m.ram (table (L - 1)) 1022) c) :
    Tables m d (Function.update table L c) (L + 1) hole := by
  have hpos := ht.pos
  have hold : ∀ b < L, Function.update table L c b = table b := fun b hb =>
    Function.update_of_ne hb.ne _ _
  have hnew : Function.update table L c L = c := Function.update_self _ _ _
  have hcases : ∀ b < L + 1, b < L ∨ b = L := fun b hb => by omega
  refine ⟨ht.cr3, ht.kernel, fun b hb => ?_, fun b hb b' hb' heq => ?_, fun b hb => ?_,
    fun b hb => ?_, fun i hi hne => ?_, ht.directory_lt, ?_, Nat.succ_pos L, hL⟩
  · rcases hcases b hb with hb | rfl
    · rw [hold b hb]
      exact ht.fresh b hb
    · rwa [hnew]
  · rcases hcases b hb with hb | rfl <;> rcases hcases b' hb' with hb' | rfl
    · rw [hold b hb, hold b' hb'] at heq
      exact ht.inj b hb b' hb' heq
    · rw [hold b hb, hnew] at heq
      exact absurd heq.symm (hc b hb)
    · rw [hnew, hold b' hb'] at heq
      exact absurd heq (hc b' hb')
    · rfl
  · rcases hcases b hb with hb | rfl
    · rw [hold b hb]
      exact ht.directory b hb
    · rwa [hnew]
  · rw [hold b (by omega)]
    rcases hcases (b + 1) hb with hb' | hb'
    · rw [hold (b + 1) hb']
      exact ht.link b hb'
    · rw [hb', hnew, show b = L - 1 by omega]
      exact hlink
  · rw [hold 0 hpos]
    exact ht.window i hi hne
  · rw [hold 0 hpos]
    exact ht.table_lt

/-- The first block alone. -/
theorem first (ht : Tables m d table L hole) : Tables m d (fun _ => table 0) 1 hole where
  cr3 := ht.cr3
  kernel := ht.kernel
  fresh _ _ := ht.fresh 0 ht.pos
  inj b hb c hc _ := by omega
  directory b hb := by
    obtain rfl : b = 0 := by omega
    exact ht.directory 0 ht.pos
  link b hb := by omega
  window := ht.window
  directory_lt := ht.directory_lt
  table_lt := ht.table_lt
  pos := Nat.one_pos
  le := by decide

end Tables

theorem tables_of_kernelTable {m : Paging.Mem} {d t : Nat}
    (h : KernelTable m d t) (hk : m.kernelPageDirectory = p2vAddr (4096 * d)) (hdt : d < t)
    (ht : t < 1024) : Tables m d (fun _ => t) 1 1024 where
  cr3 := h.cr3
  kernel := hk.trans (p2vAddr_page d)
  fresh _ _ := hdt.ne'
  inj b hb c hc _ := by omega
  directory b hb := by
    obtain rfl : b = 0 := by omega
    rw [h.directory]
    exact leads_kernelEntry t
  link b hb := by omega
  window i hi _ := by rw [h.table i hi]; exact leads_kernelEntry i
  directory_lt := ⟨by omega, by omega⟩
  table_lt := ⟨ht, by omega⟩
  pos := Nat.one_pos
  le := by decide

end Aosis.Memory.Vmm
