import Aosis.Memory.PmmInit
import Aosis.Memory.Paging

/-!
# When the frame allocator fails

`pmm_alloc_page` returns `NULL` when it finds no frame.  `paging_init` adds `kernel_base_addr_virt`
before it compares with `NULL`, and `paging_map_virtual_page` does not compare at all.

* `of_pagingInit_eq_panic`: where a panic of `paging_init` comes from.
* `nullFrame_iff`: a failed allocation is noticed only if there is none.
-/

namespace Aosis.Memory.Paging

open Kern (NeverPanics)
open Aosis.Memory.Pmm

/-! ### Where a panic comes from -/

theorem neverPanics_pmmAllocPage : NeverPanics pmmAllocPage := by
  intro pmm msg pmm' h
  rw [pmmAllocPage] at h
  split at h
  · next hs =>
    rw [(scanBitmap_error hs).1] at h
    cases h
  · cases h
  · cases h

theorem neverPanics_loadEntry (table i : Nat) : NeverPanics (loadEntry table i) := by
  intro m msg m' h
  rw [loadEntry] at h
  split at h <;> cases h

theorem neverPanics_storeEntry (table i : Nat) (entry : PageEntry) :
    NeverPanics (storeEntry table i entry) := by
  intro m msg m' h
  rw [storeEntry] at h
  split at h <;> cases h

theorem neverPanics_clearPage (page : Nat) : NeverPanics (clearPage page) := by
  intro m msg m' h
  rw [clearPage] at h
  split at h <;> cases h

theorem neverPanics_pagingMapKernel (page_table n : Nat) :
    NeverPanics (pagingMapKernel page_table n) := by
  induction n with
  | zero => exact Kern.neverPanics_pure _
  | succ n ih => exact ih.bind fun _ => neverPanics_storeEntry _ _ _

theorem neverPanics_pagingMapVirtualPage (page_table virt_page : Nat) :
    NeverPanics (pagingMapVirtualPage page_table virt_page) :=
  (NeverPanics.zoom neverPanics_pmmAllocPage).bind fun _ =>
    (neverPanics_loadEntry _ _).bind fun _ =>
      (neverPanics_storeEntry _ _ _).bind fun _ => Kern.neverPanics_pure _

section Init

variable {image : KernelImage} {m m' : Mem} {msg : String}

theorem clearPage_pmm {page : Nat} (h : clearPage page m = .ok () m') : m'.pmm = m.pmm := by
  rw [clearPage] at h
  split at h
  · cases h
    rfl
  · cases h

/-- `paging_init` panics only when `P2V_ADDR` gives zero. -/
theorem of_pagingInit_eq_panic (h : pagingInit image m = .error (.panic msg) m') :
    ∃ a pmm₁, pmmAllocPage m.pmm = .ok a pmm₁ ∧
      (p2vAddr a = 0 ∨ ∃ b pmm₂, pmmAllocPage pmm₁ = .ok b pmm₂ ∧ p2vAddr b = 0) := by
  unfold pagingInit at h
  obtain ⟨a, m₁, ha, h⟩ := (NeverPanics.zoom neverPanics_pmmAllocPage).of_bind h
  obtain ⟨pmm₁, hpmm₁, rfl⟩ := Kern.of_zoom_eq_ok ha
  obtain ⟨_, m₂, hm₂, h⟩ := (Kern.neverPanics_modify _).of_bind h
  cases hm₂
  refine ⟨a, pmm₁, hpmm₁, ?_⟩
  split at h
  · next h0 => exact Or.inl h0
  · obtain ⟨_, m₃, hm₃, h⟩ := (neverPanics_clearPage _).of_bind h
    obtain ⟨b, m₄, hb, h⟩ := (NeverPanics.zoom neverPanics_pmmAllocPage).of_bind h
    obtain ⟨pmm₂, hpmm₂, rfl⟩ := Kern.of_zoom_eq_ok hb
    rw [clearPage_pmm hm₃] at hpmm₂
    refine Or.inr ⟨b, pmm₂, hpmm₂, ?_⟩
    dsimp only at h
    split at h
    · next h0 => exact h0
    · have hrest : NeverPanics (do
          clearPage (p2vAddr b)
          pagingMapKernel (p2vAddr b) 1024
          storeEntry (p2vAddr a) (pageDirectoryIndex image.kernelStartAddrVirt)
            { pagingSetPageDirectoryAddr {} (v2pAddr (p2vAddr b)) with
              present := true, rW := true, globalTranslation := true }
          pagingChangePageDirectory (v2pAddr (p2vAddr a))
          return p2vAddr b) :=
        (neverPanics_clearPage _).bind fun _ => (neverPanics_pagingMapKernel _ _).bind fun _ =>
          (neverPanics_storeEntry _ _ _).bind fun _ => NeverPanics.bind
            (fun _ _ _ h => by cases h) fun _ => Kern.neverPanics_pure _
      exact absurd h (hrest _ msg m')

theorem p2vAddr_null : p2vAddr 0 ≠ 0 := by decide

end Init

/-! ### The law -/

/-- What is to happen when an allocation of `paging_init` fails: a panic, before anything is written
that does not go through the pointer of an allocation that succeeded. -/
structure InitLaw (image : KernelImage) (m : Mem) : Prop where
  first : ∀ pmm₁, pmmAllocPage m.pmm = .ok 0 pmm₁ →
    ∃ msg m', pagingInit image m = .error (.panic msg) m' ∧ m'.ram = m.ram
  second : ∀ a f pmm₁ pmm₂, pmmAllocPage m.pmm = .ok a pmm₁ → a ≠ 0 → p2vAddr a ≠ 0 →
    m.frame (p2vAddr a) = some f → pmmAllocPage pmm₁ = .ok 0 pmm₂ →
    ∃ msg m', pagingInit image m = .error (.panic msg) m' ∧ m'.ram = (m.setFrame f fun _ => {}).ram

/-- A present entry that `paging_map_virtual_page` stores refers to a frame that the allocator
returned, and not to `NULL`. -/
def MapLaw (page_table virt_page : Nat) (m : Mem) : Prop :=
  ∀ a m' f, pagingMapVirtualPage page_table virt_page m = .ok a m' → m.frame page_table = some f →
    (m'.ram f (pageTableIndex virt_page)).present = true →
    ∃ b pmm', pmmAllocPage m.pmm = .ok b pmm' ∧ b ≠ 0 ∧
      (m'.ram f (pageTableIndex virt_page)).physAddr = b >>> 12

/-- One of the allocations of `paging_init` fails. -/
def InitFails (m : Mem) : Prop :=
  (∃ pmm₁, pmmAllocPage m.pmm = .ok 0 pmm₁) ∨ ∃ a f pmm₁ pmm₂, pmmAllocPage m.pmm = .ok a pmm₁ ∧
    a ≠ 0 ∧ p2vAddr a ≠ 0 ∧ m.frame (p2vAddr a) = some f ∧ pmmAllocPage pmm₁ = .ok 0 pmm₂

theorem pagingInit_ne_panic {image : KernelImage} {m : Mem} (hm : InitFails m) (msg : String)
    (m' : Mem) : pagingInit image m ≠ .error (.panic msg) m' := by
  intro h
  obtain ⟨a, pmm₁, ha, hzero⟩ := of_pagingInit_eq_panic h
  rcases hm with ⟨pmm₁', hnull⟩ | ⟨a', f, pmm₁', pmm₂, ha', -, hne, -, hnull⟩
  · rw [hnull] at ha
    cases ha
    rcases hzero with h0 | ⟨b, pmm₂, hb, h0⟩
    · exact p2vAddr_null h0
    · rcases pmmAllocPage_cases hnull with ⟨-, rfl, -⟩ | ⟨k, hk, hkb, hfirst, hzero, rfl⟩
      · -- nothing was handed out, so the second call fails as well
        rw [hnull] at hb
        cases hb
        exact p2vAddr_null h0
      · -- the pool wraps around, and the second frame is less than 1 GiB behind address zero
        rcases pmmAllocPage_cases hb with ⟨rfl, -⟩ | ⟨k', -, hkb', hfirst', rfl, -⟩
        · exact p2vAddr_null h0
        · have hlt := lt_of_firstClear hfirst hkb hfirst'
          unfold p2vAddr kernelBaseAddrVirt u32 at h0
          unfold u32 at hzero
          dsimp only at h0
          omega
  · rw [ha'] at ha
    cases ha
    rcases hzero with h0 | ⟨b, pmm₂', hb, h0⟩
    · exact hne h0
    · rw [hnull] at hb
      cases hb
      exact p2vAddr_null h0

theorem pagingMapVirtualPage_entry {m m' : Mem} {page_table virt_page f a : Nat}
    (h : pagingMapVirtualPage page_table virt_page m = .ok a m') (hf : m.frame page_table = some f) :
    (∃ pmm', pmmAllocPage m.pmm = .ok a pmm') ∧
      (m'.ram f (pageTableIndex virt_page)).present = true ∧
      (m'.ram f (pageTableIndex virt_page)).physAddr = a >>> 12 := by
  unfold pagingMapVirtualPage at h
  obtain ⟨a', m₁, h₁, h⟩ := Kern.of_bind_eq_ok h
  obtain ⟨pmm', ha, rfl⟩ := Kern.of_zoom_eq_ok h₁
  have hf' : ({ m with pmm := pmm' } : Mem).frame page_table = some f := hf
  obtain ⟨entry, m₂, h₂, h⟩ := Kern.of_bind_eq_ok h
  rw [loadEntry, hf'] at h₂
  cases h₂
  obtain ⟨_, m₃, h₃, h⟩ := Kern.of_bind_eq_ok h
  rw [storeEntry, hf'] at h₃
  cases h₃
  cases h
  rw [setFrame_ram_self, Function.update_self]
  exact ⟨⟨pmm', ha⟩, rfl, rfl⟩

/-- **A failed allocation is never noticed.**  `paging_init` keeps its law exactly if none of its
allocations fails, and a call of `paging_map_virtual_page` that can reach its table keeps its law
exactly if the allocation does not fail. -/
theorem nullFrame_iff (image : KernelImage) (m : Mem) :
    (InitLaw image m ↔ ¬ InitFails m) ∧
      ∀ page_table virt_page m' a f, m.frame page_table = some f →
        pagingMapVirtualPage page_table virt_page m = .ok a m' →
          (MapLaw page_table virt_page m ↔ ¬ ∃ pmm', pmmAllocPage m.pmm = .ok 0 pmm') := by
  refine ⟨⟨?_, fun hok => ⟨?_, ?_⟩⟩, ?_⟩
  · intro hlaw hfails
    have hpanic : ∃ msg m', pagingInit image m = .error (.panic msg) m' := by
      rcases hfails with ⟨pmm₁, hnull⟩ | ⟨a, f, pmm₁, pmm₂, ha, h0, hne, hf, hnull⟩
      · obtain ⟨msg, m', h, -⟩ := hlaw.first pmm₁ hnull
        exact ⟨msg, m', h⟩
      · obtain ⟨msg, m', h, -⟩ := hlaw.second a f pmm₁ pmm₂ ha h0 hne hf hnull
        exact ⟨msg, m', h⟩
    obtain ⟨msg, m', h⟩ := hpanic
    exact pagingInit_ne_panic hfails msg m' h
  · intro pmm₁ hnull
    exact absurd (Or.inl ⟨pmm₁, hnull⟩) hok
  · intro a f pmm₁ pmm₂ ha h0 hne hf hnull
    exact absurd (Or.inr ⟨a, f, pmm₁, pmm₂, ha, h0, hne, hf, hnull⟩) hok
  · intro page_table virt_page m' a f hf hmap
    obtain ⟨⟨pmm', ha⟩, hpresent, hphys⟩ := pagingMapVirtualPage_entry hmap hf
    refine ⟨?_, ?_⟩
    · intro hlaw hnull
      obtain ⟨pmm₀, hnull⟩ := hnull
      obtain ⟨b, pmm'', hb, h0, -⟩ := hlaw a m' f hmap hf hpresent
      rw [hnull] at hb
      cases hb
      exact h0 rfl
    · intro hok b m'' g hmap' hg _
      obtain ⟨hb, -, hphys'⟩ := pagingMapVirtualPage_entry hmap' hg
      obtain ⟨pmm₁, hb⟩ := hb
      exact ⟨b, pmm₁, hb, fun h0 => hok ⟨pmm₁, h0 ▸ hb⟩, hphys'⟩

/-- The state in which the small kernel enters `paging_init`, with its temporary page table. -/
theorem nullFrame_smallImage :
    ∃ g m, pmmInit smallImage solidMap 0 .static = .ok () g ∧
      m = Mem.atEntry smallImage g.pmm (fun _ _ => {}) ∧ (InitLaw smallImage m ↔ ¬ InitFails m) ∧
      (MapLaw (p2vAddr (4096 * smallImage.tempPageTable)) 0xC0000000 m ↔
        ¬ ∃ pmm', pmmAllocPage m.pmm = .ok 0 pmm') := by
  refine ⟨_, _, rfl, rfl, (nullFrame_iff _ _).1,
    (nullFrame_iff smallImage _).2 _ _ _ _ smallImage.tempPageTable ?_ rfl⟩
  exact (Window.atEntry smallImage _ _).frame_eq (by decide) le_rfl

/-- Free memory from 1 MiB to 1.5 MiB and 64 KiB: the pool has less than 32 frames. -/
def tinyMap : MultibootInfo where
  flags := 0x40
  mmap := [⟨0x100000, 0, 0x90000, 0, multibootMemoryAvailable⟩]
  modList := ⟨0x180000, 0x181000⟩

/-- With this map no frame is ever handed out, and `paging_init` does not panic. -/
theorem not_initLaw_tinyMap :
    ∃ g, pmmInit smallImage tinyMap 0 .static = .ok () g ∧ pmmAllocPage g.pmm = .ok 0 g.pmm ∧
      ¬ InitLaw smallImage (Mem.atEntry smallImage g.pmm fun _ _ => {}) := by
  refine ⟨_, rfl, rfl, ?_⟩
  intro hlaw
  obtain ⟨msg, m', h, -⟩ := hlaw.first _ rfl
  exact pagingInit_ne_panic (Or.inl ⟨_, rfl⟩) msg m' h

end Aosis.Memory.Paging
