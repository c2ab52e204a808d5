import Aosis.Memory.FreeList

/-!
# The order of the free list

`Ordered h free`: the free list of `h` is `free`, its blocks ascend by address, are disjoint,
and no two neighbours are contiguous.

* `Ordered.release`: `kfree` refines `release`, the insertion of an extent into a sorted and
  merged list.
* `kfree_ordered`: the list stays ordered and covers the old list and the block.
* `kfreeAll_order`: the list that is left after several blocks were freed does not depend on the
  order in which they were freed.
-/

namespace Aosis.Memory.Kmalloc

open Aosis.Lib Aosis.Lib.Extent

/-- The free list of the heap is `free`, ascending by address, disjoint and without contiguous
neighbours. -/
structure Ordered (h : Heap) (free : List Extent) : Prop where
  linked : Linked h free
  ascending : free.Pairwise fun a b => a.start < b.start
  apart : free.IsChain fun a b => a.start + a.len ≠ b.start

/-- A block with a right size word that is disjoint from the blocks of the list. -/
structure Allocated (h : Heap) (free : List Extent) (u : Extent) : Prop where
  block : IsBlock u
  size : h.size u.start = u.len
  apart : ∀ c ∈ free, Apart u c

section Ordered

variable {h h' : Heap} {free free' : List Extent} {u v : Extent} {us us' : List Extent}

theorem Ordered.gapped (hl : Ordered h free) : Gapped free :=
  .of_chain hl.ascending hl.linked.separate hl.apart fun c hc => (hl.linked.blocks c hc).len_pos

theorem Ordered.of_gapped (hl : Linked h free) (hg : Gapped free) : Ordered h free :=
  ⟨hl, hg.ascending, hg.chain⟩

theorem Placed.eq_release (hp : Placed h u free free') (hg : Gapped free) :
    free' = release u free := by
  -- the list after the place of the block
  have hhead : ∀ l : List Extent, l = [] ∨ u.start < firstStart l →
      ∀ b ∈ l.head?, u.start < b.start := by
    intro l hl b hb
    cases l with
    | nil => simp at hb
    | cons c l =>
      simp only [List.head?_cons, Option.mem_def, Option.some_inj] at hb
      subst hb
      exact hl.resolve_left (List.cons_ne_nil c l)
  cases hp with
  | front hu =>
    cases free with
    | nil => rfl
    | cons c l => rw [release, if_pos (hhead _ hu c rfl)]
  | after hfree hhead' hplace hfirst hu =>
    subst hfree
    exact (hg.release_append hplace.1 (hhead _ hu)).symm

/-- **`kfree` inserts the block and merges it with its neighbours.** -/
theorem Ordered.release (hl : Ordered h free) (hu : Allocated h free u) :
    ∃ h', kfree (u.start + blockHeaderSize) h = .ok () h' ∧ Ordered h' (release u free) ∧
      SameBut (u :: free) h h' := by
  obtain ⟨h', free', hk, hl', hplaced, hsame⟩ := hl.linked.kfree hu.block hu.size hu.apart
  obtain rfl := hplaced.eq_release hl.gapped
  exact ⟨h', hk, .of_gapped hl' (hl.gapped.release hu.apart hu.block.len_pos), hsame⟩

theorem Linked.next_last (hl : Linked h free) {b : Extent} (hb : free.getLast? = some b) :
    h.next b.start = 0 := by
  obtain ⟨f, rfl⟩ := List.getLast?_eq_some_iff.mp hb
  have hlinks := hl.links
  rw [List.map_append, List.map_cons, List.map_nil] at hlinks
  exact (Path.append_cons_iff.mp hlinks).2

/-- **`kfree` keeps the free list sorted and merged.** -/
theorem kfree_ordered (hl : Ordered h free) (hu : Allocated h free u) :
    ∃ h' free', kfree (u.start + blockHeaderSize) h = .ok () h' ∧ Ordered h' free' ∧
      (∀ b, free'.getLast? = some b → h'.next b.start = 0) ∧
      ∀ x, Covers free' x ↔ Covers free x ∨ u.Mem x := by
  obtain ⟨h', hk, hl', -⟩ := hl.release hu
  refine ⟨h', _, hk, hl', fun b hb => hl'.linked.next_last hb, ?_⟩
  intro x
  rw [covers_release, or_comm]

theorem Allocated.release (hl : Ordered h free) (hu : Allocated h free u) (hv : Allocated h free v)
    (huv : Apart u v) (hsame : SameBut (u :: free) h h') (hl' : Ordered h' (release u free)) :
    Allocated h' (release u free) v := by
  refine ⟨hv.block, ?_, ?_⟩
  · refine (hsame v.start ?_).trans hv.size
    intro b hb
    have hne : v.start ≠ b.start ∧ v.start ≠ b.start + 4 ∧ v.start + 4 ≠ b.start := by
      rcases List.mem_cons.mp hb with rfl | hb
      · exact Linked.headers_ne hv.block hu.block huv.symm
      · exact Linked.headers_ne hv.block (hl.linked.blocks b hb) (hv.apart b hb)
    exact ⟨hne.1, hne.2.1⟩
  · intro c hc
    apply apart_of_not_mem hv.block.len_pos (hl'.linked.blocks c hc).len_pos
    intro x hx hxc
    rcases covers_release.mp ⟨c, hc, hxc⟩ with hxu | ⟨d, hd, hxd⟩
    · exact huv.symm.not_mem hx hxu
    · exact (hv.apart d hd).not_mem hx hxd

/-! ### Several blocks -/

/-- Free the blocks of the list, the first one first. -/
def kfreeAll : List Extent → Kern Heap Unit
  | [] => pure ()
  | u :: us => do
    kfree (u.start + blockHeaderSize)
    kfreeAll us

/-- **Freeing several blocks** gives an ordered list that covers the old list and the blocks. -/
theorem kfreeAll_ordered (hl : Ordered h free) (hus : ∀ u ∈ us, Allocated h free u)
    (hsep : Separate us) :
    ∃ h' free', kfreeAll us h = .ok () h' ∧ Ordered h' free' ∧
      ∀ x, Covers free' x ↔ Covers free x ∨ Covers us x := by
  induction us generalizing h free with
  | nil =>
    refine ⟨h, free, rfl, hl, ?_⟩
    intro x
    simp [not_covers_nil]
  | cons u us ih =>
    obtain ⟨hapart, hsep⟩ := Separate.cons_iff.mp hsep
    have hu := hus u List.mem_cons_self
    obtain ⟨h₁, hk, hl₁, hsame⟩ := hl.release hu
    obtain ⟨h', free', hks, hl', hcover⟩ := ih hl₁ (fun v hv =>
      hu.release hl (hus v (List.mem_cons_of_mem u hv)) (hapart v hv) hsame hl₁) hsep
    refine ⟨h', free', ?_, hl', ?_⟩
    · rw [kfreeAll, Kern.bind_ok hk]
      exact hks
    · intro x
      rw [hcover, covers_release, covers_cons, or_assoc, or_left_comm]

/-- **The order of frees does not matter.**  The blocks that are left on the list, with their
addresses and sizes, are the same. -/
theorem kfreeAll_order (hl : Ordered h free) (hus : ∀ u ∈ us, Allocated h free u)
    (hsep : Separate us) (hperm : us.Perm us') :
    ∃ h₁ h₂ free', kfreeAll us h = .ok () h₁ ∧ kfreeAll us' h = .ok () h₂ ∧ Ordered h₁ free' ∧
      Ordered h₂ free' := by
  obtain ⟨h₁, free₁, hk₁, hl₁, hcover₁⟩ := kfreeAll_ordered hl hus hsep
  obtain ⟨h₂, free₂, hk₂, hl₂, hcover₂⟩ := kfreeAll_ordered hl
    (fun u hu => hus u (hperm.mem_iff.mpr hu)) (hsep.perm hperm)
  have hsame : ∀ x, Covers us x ↔ Covers us' x := fun x =>
    ⟨fun hx => hx.mono fun b hb => hperm.mem_iff.mp hb,
      fun hx => hx.mono fun b hb => hperm.mem_iff.mpr hb⟩
  have heq : free₁ = free₂ := hl₁.gapped.eq_of_covers hl₂.gapped
    (fun c hc => (hl₁.linked.blocks c hc).len_pos) (fun c hc => (hl₂.linked.blocks c hc).len_pos)
    fun x => by rw [hcover₁, hcover₂, hsame]
  exact ⟨h₁, h₂, free₁, hk₁, hk₂, hl₁, heq ▸ hl₂⟩

end Ordered

/-! ### Three blocks -/

/-- A memory with three blocks of 16 bytes, of which the first one is free. -/
def threeBlocks : Heap := ⟨fun a => if a = 68 then 0 else 16, 64, 64⟩

theorem ordered_threeBlocks : Ordered threeBlocks [⟨64, 16⟩] := by
  refine ⟨⟨⟨rfl, rfl⟩, ?_, List.pairwise_singleton _ _, ?_⟩, List.pairwise_singleton _ _,
    List.isChain_singleton _⟩
  · intro b hb
    obtain rfl := List.mem_singleton.mp hb
    rfl
  · intro b hb
    obtain rfl := List.mem_singleton.mp hb
    exact ⟨by decide, by decide, by decide⟩

theorem allocated_threeBlocks : ∀ u ∈ [(⟨80, 16⟩ : Extent), ⟨96, 16⟩],
    Allocated threeBlocks [⟨64, 16⟩] u := by
  intro u hu
  simp only [List.mem_cons, List.not_mem_nil, or_false] at hu
  have hblock : IsBlock u := by
    rcases hu with rfl | rfl <;> exact ⟨by decide, by decide, by decide⟩
  refine ⟨hblock, ?_, ?_⟩
  · rcases hu with rfl | rfl <;> rfl
  · intro c hc
    obtain rfl := List.mem_singleton.mp hc
    unfold Apart
    rcases hu with rfl | rfl <;> decide

/-- Freeing the block in the middle. -/
theorem kfree_threeBlocks : ∃ h' free', kfree (80 + blockHeaderSize) threeBlocks = .ok () h' ∧
    Ordered h' free' ∧ (∀ b, free'.getLast? = some b → h'.next b.start = 0) ∧
    ∀ x, Covers free' x ↔ Covers [⟨64, 16⟩] x ∨ (⟨80, 16⟩ : Extent).Mem x :=
  kfree_ordered (u := ⟨80, 16⟩) ordered_threeBlocks (allocated_threeBlocks _ List.mem_cons_self)

/-- Freeing the two blocks in both orders. -/
theorem kfreeAll_threeBlocks :
    ∃ h₁ h₂ free', kfreeAll [⟨80, 16⟩, ⟨96, 16⟩] threeBlocks = .ok () h₁ ∧
      kfreeAll [⟨96, 16⟩, ⟨80, 16⟩] threeBlocks = .ok () h₂ ∧ Ordered h₁ free' ∧ Ordered h₂ free' :=
  kfreeAll_order ordered_threeBlocks allocated_threeBlocks
    (by simp [Separate, Apart]) (List.Perm.swap _ _ _)

end Aosis.Memory.Kmalloc
