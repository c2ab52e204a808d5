import Aosis.Lib.Gapped
import Aosis.Memory.KmallocList

/-!
# What `kfree` does to the free list

A block comes into the list at one of its places and is merged with its neighbours.  As for `kmalloc`,
nothing is assumed about the order of the list.

* `Linked.kfree`: `kfree` returns; it puts the block in front of the list or behind the first
  block that is below it and has its successor above it, and merges it with the successor and
  the predecessor that meet it.  It writes no word but the headers of the list and of the
  block.
-/

namespace Aosis.Memory.Kmalloc

open Aosis.Lib Aosis.Lib.Extent

/-- The address of the first block, or null. -/
def firstStart (l : List Extent) : Nat := (l.head?.map Extent.start).getD 0

/-- The two heaps agree on every word that is not in the header of one of the blocks. -/
def SameBut (blocks : List Extent) (h h' : Heap) : Prop :=
  ∀ x, (∀ b ∈ blocks, x ≠ b.start ∧ x ≠ b.start + 4) → h'.mem x = h.mem x

namespace SameBut

variable {blocks blocks' : List Extent} {h h' h'' : Heap} {b : Extent} {v : Nat}

theorem refl (blocks : List Extent) (h : Heap) : SameBut blocks h h := fun _ _ => rfl

theorem trans (h₁ : SameBut blocks h h') (h₂ : SameBut blocks h' h'') : SameBut blocks h h'' :=
  fun x hx => (h₂ x hx).trans (h₁ x hx)

theorem setTail (h₁ : SameBut blocks h h') (t : Nat) : SameBut blocks h { h' with tail := t } := h₁

theorem setNext (h₁ : SameBut blocks h h') (hb : b ∈ blocks) :
    SameBut blocks h (h'.setNext b.start v) := by
  intro x hx
  rw [Heap.setNext, Heap.store_mem, if_neg (hx b hb).2, h₁ x hx]

theorem setSize (h₁ : SameBut blocks h h') (hb : b ∈ blocks) :
    SameBut blocks h (h'.setSize b.start v) := by
  intro x hx
  rw [Heap.setSize, Heap.store_mem, if_neg (hx b hb).1, h₁ x hx]

end SameBut

/-! ### The search of `kfree` -/

/-- The test of the loop of `kfree`. -/
def IsPlace (h : Heap) (new_block block : Nat) : Prop :=
  block < new_block ∧ (new_block < h.next block ∨ h.next block = 0)

/-- A list that starts below the block has a place for it, and the search finds the first
one. -/
theorem kfreeFind_path {h : Heap} {new_block : Nat} {free : List Extent} {c : Extent}
    (hpos : ∀ b ∈ c :: free, 0 < b.start) {fuel : Nat}
    (hp : Path h.next c.start ((c :: free).map Extent.start) 0)
    (hnew : new_block ∉ (c :: free).map Extent.start) (hlt : c.start < new_block)
    (hfuel : (c :: free).length < fuel) :
    ∃ f₁ p f₂, c :: free = f₁ ++ p :: f₂ ∧
      kfreeFind h new_block fuel c.start = .ok (p.start, firstStart f₂) ∧
      h.next p.start = firstStart f₂ ∧ p.start < new_block ∧
      (f₂ = [] ∨ new_block < firstStart f₂) ∧ ∀ d ∈ f₁, ¬ IsPlace h new_block d.start := by
  induction free generalizing c fuel with
  | nil =>
    obtain ⟨fuel, rfl⟩ := Nat.exists_eq_succ_of_ne_zero (by omega : fuel ≠ 0)
    have hc := hpos c List.mem_cons_self
    have hnext : h.next c.start = 0 := (Path.cons_iff.mp hp).2
    refine ⟨[], c, [], rfl, ?_, hnext, hlt, Or.inl rfl, fun _ hd => absurd hd List.not_mem_nil⟩
    rw [kfreeFind, if_neg (by omega), if_pos ⟨hlt, Or.inr hnext⟩, hnext]
    rfl
  | cons d free ih =>
    obtain ⟨fuel, rfl⟩ := Nat.exists_eq_succ_of_ne_zero (by omega : fuel ≠ 0)
    have hc := hpos c List.mem_cons_self
    have hd := hpos d (List.mem_cons_of_mem c List.mem_cons_self)
    have hrest := (Path.cons_iff.mp hp).2
    have hnext : h.next c.start = d.start := hrest.1
    simp only [List.map_cons, List.mem_cons, not_or] at hnew
    by_cases hdn : new_block < d.start
    · refine ⟨[], c, d :: free, rfl, ?_, hnext, hlt, Or.inr hdn,
        fun _ hd => absurd hd List.not_mem_nil⟩
      rw [kfreeFind, if_neg (by omega), if_pos ⟨hlt, Or.inl (by omega)⟩, hnext]
      rfl
    · have hnot : ¬ IsPlace h new_block c.start := by
        unfold IsPlace
        omega
      rw [hnext] at hrest
      have hfuel' : (d :: free).length < fuel := by
        simp only [List.length_cons] at hfuel ⊢
        omega
      obtain ⟨f₁, p, f₂, heq, hfind, hnp, hpu, hbetween, hfirst⟩ := ih (c := d)
        (fun b hb => hpos b (List.mem_cons_of_mem c hb)) hrest
        (by simp only [List.map_cons, List.mem_cons, not_or]; exact hnew.2) (by omega) hfuel'
      refine ⟨c :: f₁, p, f₂, by rw [heq, List.cons_append], ?_, hnp, hpu, hbetween,
        fun e he => ?_⟩
      · rw [kfreeFind, if_neg (by omega), if_neg (by omega), hnext, hfind]
      · rcases List.mem_cons.mp he with rfl | he
        · exact hnot
        · exact hfirst e he

/-! ### The edits of the list -/

namespace Linked

variable {h h' : Heap} {free f₁ f₂ : List Extent} {a b c p u : Extent} {v : Nat}

theorem head_eq (hl : Linked h free) : h.head = firstStart free := by
  rw [firstStart, ← List.head?_map]
  exact hl.links.start_eq

theorem congr (hl : Linked h free) (hhead : h'.head = h.head)
    (hnext : ∀ b ∈ free, h'.next b.start = h.next b.start)
    (hsize : ∀ b ∈ free, h'.size b.start = h.size b.start) : Linked h' free := by
  refine ⟨?_, fun b hb => (hsize b hb).trans (hl.sizes b hb), hl.separate, hl.blocks⟩
  rw [hhead]
  apply hl.links.congr
  intro x hx
  obtain ⟨b, hb, rfl⟩ := List.mem_map.mp hx
  exact hnext b hb

theorem setTail (hl : Linked h free) (t : Nat) : Linked { h with tail := t } free :=
  hl.congr rfl (fun _ _ => rfl) fun _ _ => rfl

theorem headers_ne (ha : IsBlock a) (hb : IsBlock b) (hab : Apart a b) :
    a.start ≠ b.start ∧ a.start ≠ b.start + 4 ∧ a.start + 4 ≠ b.start := by
  have h₁ := ha.header
  have h₂ := hb.header
  rw [blockHeaderSize] at h₁ h₂
  unfold Apart at hab
  omega

theorem size_setNext (ha : IsBlock a) (hb : IsBlock b) (hab : a = b ∨ Apart a b) :
    (h.setNext b.start v).size a.start = h.size a.start := by
  have hne : a.start ≠ b.start + 4 := by
    rcases hab with rfl | hab
    · omega
    · exact (headers_ne ha hb hab).2.1
  rw [Heap.size, Heap.setNext, Heap.store_mem, if_neg hne, Heap.size]

theorem next_setSize (ha : IsBlock a) (hb : IsBlock b) (hab : a = b ∨ Apart a b) :
    (h.setSize b.start v).next a.start = h.next a.start := by
  have hne : a.start + 4 ≠ b.start := by
    rcases hab with rfl | hab
    · omega
    · exact (headers_ne ha hb hab).2.2
  rw [Heap.next, Heap.setSize, Heap.store_mem, if_neg hne, Heap.next]

theorem not_mem (hl : Linked h free) (hu : IsBlock u) (hapart : ∀ c ∈ free, Apart u c) :
    u.start ∉ free.map Extent.start := by
  intro hm
  obtain ⟨c, hc, hcu⟩ := List.mem_map.mp hm
  exact (headers_ne hu (hl.blocks c hc) (hapart c hc)).1 hcu.symm

/-- **Linking in at the front.** -/
theorem linkFront (hl : Linked h free) (hu : IsBlock u) (hsize : h.size u.start = u.len)
    (hapart : ∀ c ∈ free, Apart u c) :
    Linked { h.setNext u.start h.head with head := u.start } (u :: free) := by
  refine ⟨⟨rfl, ?_⟩, ?_, hl.separate.cons hapart, ?_⟩
  · show Path (h.setNext u.start h.head).next ((h.setNext u.start h.head).next u.start)
      (free.map Extent.start) 0
    rw [Heap.next_setNext, Function.update_self]
    exact hl.links.congr_update (hl.not_mem hu hapart)
  · intro c hc
    show (h.setNext u.start h.head).size c.start = c.len
    rcases List.mem_cons.mp hc with rfl | hc
    · rw [size_setNext hu hu (Or.inl rfl), hsize]
    · rw [size_setNext (hl.blocks c hc) hu (Or.inr (hapart c hc).symm), hl.sizes c hc]
  · intro c hc
    rcases List.mem_cons.mp hc with rfl | hc
    · exact hu
    · exact hl.blocks c hc

/-- **Linking in after the block `p`.** -/
theorem linkAfter (hl : Linked h (f₁ ++ p :: f₂)) (hu : IsBlock u) (hsize : h.size u.start = u.len)
    (hapart : ∀ c ∈ f₁ ++ p :: f₂, Apart u c) :
    Linked ((h.setNext p.start u.start).setNext u.start (h.next p.start)) (f₁ ++ p :: u :: f₂) := by
  have hp : p ∈ f₁ ++ p :: f₂ := List.mem_append_right f₁ List.mem_cons_self
  have hperm : (u :: (f₁ ++ p :: f₂)).Perm (f₁ ++ p :: u :: f₂) := by
    rw [List.append_cons f₁ p f₂, List.append_cons f₁ p (u :: f₂)]
    exact List.perm_middle.symm
  have hblocks : ∀ c ∈ u :: (f₁ ++ p :: f₂), IsBlock c := by
    intro c hc
    rcases List.mem_cons.mp hc with rfl | hc
    · exact hu
    · exact hl.blocks c hc
  have hsep := hl.separate.cons hapart
  have hcross : ∀ c ∈ u :: (f₁ ++ p :: f₂), ∀ d ∈ u :: (f₁ ++ p :: f₂), c = d ∨ Apart c d :=
    fun c hc d hd => hsep.eq_or_apart hc hd
  have hsizes : ∀ c ∈ u :: (f₁ ++ p :: f₂), h.size c.start = c.len := by
    intro c hc
    rcases List.mem_cons.mp hc with rfl | hc
    · exact hsize
    · exact hl.sizes c hc
  have hlinks := hl.links
  have hnd := hl.nodup
  have hnot := hl.not_mem hu hapart
  rw [List.map_append, List.map_cons] at hlinks hnd hnot
  refine ⟨?_, ?_, hsep.perm hperm, fun c hc => hblocks c (hperm.mem_iff.mpr hc)⟩
  · rw [List.map_append, List.map_cons, List.map_cons, Heap.next_setNext, Heap.next_setNext]
    exact hlinks.insert hnd hnot
  · intro c hc
    have hc' := hperm.mem_iff.mpr hc
    have hu' : u ∈ u :: (f₁ ++ p :: f₂) := List.mem_cons_self
    have hp' : p ∈ u :: (f₁ ++ p :: f₂) := List.mem_cons_of_mem u hp
    rw [size_setNext (hblocks c hc') hu (hcross c hc' u hu'),
      size_setNext (hblocks c hc') (hblocks p hp') (hcross c hc' p hp'), hsizes c hc']

/-- **Merging two neighbours of the list that meet in memory.** -/
theorem merge (hl : Linked h (f₁ ++ a :: b :: f₂)) (hab : a.start + a.len = b.start) :
    Linked ((h.setNext a.start (h.next b.start)).setSize a.start (a.len + b.len))
      (f₁ ++ ⟨a.start, a.len + b.len⟩ :: f₂) := by
  have hperm : (f₁ ++ a :: b :: f₂).Perm (a :: b :: (f₁ ++ f₂)) :=
    List.perm_middle.trans (List.Perm.cons a List.perm_middle)
  have ha : a ∈ f₁ ++ a :: b :: f₂ := hperm.mem_iff.mpr List.mem_cons_self
  have hb : b ∈ f₁ ++ a :: b :: f₂ := hperm.mem_iff.mpr (List.mem_cons_of_mem a List.mem_cons_self)
  have hmem : ∀ c ∈ f₁ ++ f₂, c ∈ f₁ ++ a :: b :: f₂ := fun c hc =>
    hperm.mem_iff.mpr (List.mem_cons_of_mem a (List.mem_cons_of_mem b hc))
  have hsep := hl.separate.perm hperm
  have hac := (Separate.cons_iff.mp hsep).1
  have hlen : ∀ c ∈ f₁ ++ f₂, 0 < c.len := fun c hc => (hl.blocks c (hmem c hc)).len_pos
  have hlinks := hl.links
  have hnd := hl.nodup
  rw [List.map_append, List.map_cons, List.map_cons] at hlinks hnd
  have hperm' : (f₁ ++ (⟨a.start, a.len + b.len⟩ : Extent) :: f₂).Perm
      (⟨a.start, a.len + b.len⟩ :: (f₁ ++ f₂)) := List.perm_middle
  refine ⟨?_, ?_, (hsep.join hlen hab).perm hperm'.symm, ?_⟩
  · rw [List.map_append, List.map_cons]
    apply (hlinks.unlink hnd).congr
    intro x hx
    rw [← List.map_cons, ← List.map_append] at hx
    obtain ⟨c, hc, rfl⟩ := List.mem_map.mp hx
    have hc' : c = a ∨ c ∈ f₁ ++ f₂ := List.mem_cons.mp (List.perm_middle.mem_iff.mp hc)
    rw [next_setSize (h := h.setNext a.start (h.next b.start)), Heap.next_setNext]
    · rcases hc' with rfl | hc'
      · exact hl.blocks c ha
      · exact hl.blocks c (hmem c hc')
    · exact hl.blocks a ha
    · exact hc'.imp id fun hc' => (hac c (List.mem_cons_of_mem b hc')).symm
  · intro c hc
    rcases List.mem_cons.mp (hperm'.mem_iff.mp hc) with rfl | hc
    · rw [Heap.size_setSize, if_pos rfl]
    · have hapart := (hac c (List.mem_cons_of_mem b hc)).symm
      have hcb := hl.blocks c (hmem c hc)
      rw [Heap.size_setSize, if_neg (headers_ne hcb (hl.blocks a ha) hapart).1,
        size_setNext hcb (hl.blocks a ha) (Or.inr hapart), hl.sizes c (hmem c hc)]
  · intro c hc
    rcases List.mem_cons.mp (hperm'.mem_iff.mp hc) with rfl | hc
    · have h₁ := hl.blocks a ha
      have h₂ := (hl.blocks b hb).le
      have h₃ := h₁.header
      exact ⟨h₁.pos, by dsimp only; omega, by dsimp only; omega⟩
    · exact hl.blocks c (hmem c hc)

/-! ### `kmalloc_coalesce` -/

/-- The sum of `kmalloc_coalesce` meets a block when the block does. -/
theorem meet_iff (ha : IsBlock a) (hb : IsBlock b) :
    b.start = u32 (a.start + a.len) ↔ a.start + a.len = b.start := by
  have h₁ := ha.le
  have h₂ := hb.pos
  have h₃ := hb.header
  have h₄ := hb.le
  rw [blockHeaderSize] at h₃
  unfold u32
  omega

theorem coalesceNext (hl : Linked h (f₁ ++ u :: f₂)) :
    Linked (kmallocCoalesceNext u.start (firstStart f₂) h) (f₁ ++ absorb u f₂) := by
  cases f₂ with
  | nil =>
    rw [kmallocCoalesceNext, if_neg fun hc => hc.1 rfl]
    exact hl
  | cons b f₂ =>
    have hu : u ∈ f₁ ++ u :: b :: f₂ := List.mem_append_right f₁ List.mem_cons_self
    have hb : b ∈ f₁ ++ u :: b :: f₂ :=
      List.mem_append_right f₁ (List.mem_cons_of_mem u List.mem_cons_self)
    have hub := hl.blocks u hu
    have hbb := hl.blocks b hb
    have hpos := hbb.pos
    have hmeet := meet_iff hub hbb
    rw [show firstStart (b :: f₂) = b.start from rfl, kmallocCoalesceNext, hl.sizes u hu, absorb]
    by_cases hab : u.start + u.len = b.start
    · have hsum : u32 (u.len + b.len) = u.len + b.len := by
        have := hbb.le
        have := hub.pos
        exact u32_of_lt (by omega)
      rw [if_pos hab, if_pos ⟨by omega, hmeet.mpr hab⟩]
      dsimp only
      rw [size_setNext hub hub (Or.inl rfl), size_setNext hbb hub (hl.separate.eq_or_apart hb hu),
        hl.sizes u hu, hl.sizes b hb, hsum]
      split
      · exact (hl.merge hab).setTail _
      · exact hl.merge hab
    · rw [if_neg hab, if_neg fun hc => hab (hmeet.mp hc.2)]
      exact hl

theorem coalescePrev (hl : Linked h (f₁ ++ p :: u :: f₂)) :
    Linked (kmallocCoalescePrev p.start u.start h) (f₁ ++ absorb p (u :: f₂)) := by
  have hp : p ∈ f₁ ++ p :: u :: f₂ := List.mem_append_right f₁ List.mem_cons_self
  have hu : u ∈ f₁ ++ p :: u :: f₂ :=
    List.mem_append_right f₁ (List.mem_cons_of_mem p List.mem_cons_self)
  have hpb := hl.blocks p hp
  have hub := hl.blocks u hu
  have hpos := hpb.pos
  have hmeet := meet_iff hpb hub
  rw [kmallocCoalescePrev, hl.sizes p hp, absorb]
  by_cases hab : p.start + p.len = u.start
  · have hsum : u32 (p.len + u.len) = p.len + u.len := by
      have := hub.le
      exact u32_of_lt (by omega)
    rw [if_pos hab, if_pos ⟨by omega, hmeet.mpr hab⟩]
    dsimp only
    rw [size_setNext hpb hpb (Or.inl rfl), size_setNext hub hpb (hl.separate.eq_or_apart hu hp),
      hl.sizes p hp, hl.sizes u hu, hsum]
    exact hl.merge hab
  · rw [if_neg hab, if_neg fun hc => hab (hmeet.mp hc.2)]
    exact hl

end Linked

/-! ### The words written -/

section SameBut

variable {blocks : List Extent} {h : Heap} {p u : Extent} {prev_block next_block : Nat}

theorem sameBut_coalesceNext (hu : u ∈ blocks) :
    SameBut blocks h (kmallocCoalesceNext u.start next_block h) := by
  rw [kmallocCoalesceNext]
  split
  · dsimp only
    split
    · exact (((SameBut.refl blocks h).setNext hu).setSize hu).setTail _
    · exact ((SameBut.refl blocks h).setNext hu).setSize hu
  · exact SameBut.refl blocks h

theorem sameBut_coalescePrev (hp : p ∈ blocks) :
    SameBut blocks h (kmallocCoalescePrev p.start u.start h) := by
  rw [kmallocCoalescePrev]
  split
  · exact ((SameBut.refl blocks h).setNext hp).setSize hp
  · exact SameBut.refl blocks h

theorem sameBut_kfreeLink (hu : u ∈ blocks)
    (hprev : prev_block = 0 ∨ ∃ p ∈ blocks, prev_block = p.start) :
    SameBut blocks h (kfreeLink prev_block u.start next_block h) := by
  have hrefl := SameBut.refl blocks h
  rw [kfreeLink]
  split
  · exact hrefl.setNext hu
  · next hne =>
    obtain ⟨p, hp, rfl⟩ := hprev.resolve_left hne
    split
    · exact (hrefl.setNext hp).setNext hu
    · exact (hrefl.setNext hp).setNext hu

end SameBut

/-! ### `kfree` -/

/-- The list after `kfree` of the block `u`. -/
inductive Placed (h : Heap) (u : Extent) (free : List Extent) : List Extent → Prop
  | front (hu : free = [] ∨ u.start < firstStart free) : Placed h u free (absorb u free)
  | after {f₁ f₂ : List Extent} {p : Extent} (hfree : free = f₁ ++ p :: f₂)
      (hhead : h.head ≤ u.start) (hplace : IsPlace h u.start p.start)
      (hfirst : ∀ d ∈ f₁, ¬ IsPlace h u.start d.start)
      (hu : f₂ = [] ∨ u.start < firstStart f₂) :
      Placed h u free (f₁ ++ absorb p (absorb u f₂))

namespace Linked

variable {h : Heap} {free : List Extent} {u : Extent}

theorem find_place (hl : Linked h free) (hu : u.start ∉ free.map Extent.start) :
    ((if u.start < h.head then .ok (0, h.head) else kfreeFind h u.start loopFuel h.head) =
        .ok (0, firstStart free) ∧ (free = [] ∨ u.start < firstStart free)) ∨
      ∃ f₁ p f₂, free = f₁ ++ p :: f₂ ∧ h.next p.start = firstStart f₂ ∧ h.head ≤ u.start ∧
        p.start < u.start ∧ (f₂ = [] ∨ u.start < firstStart f₂) ∧
        (∀ d ∈ f₁, ¬ IsPlace h u.start d.start) ∧
        (if u.start < h.head then .ok (0, h.head) else kfreeFind h u.start loopFuel h.head) =
          .ok (p.start, firstStart f₂) := by
  have hfirst := hl.head_eq
  by_cases hlt : u.start < h.head
  · left
    rw [if_pos hlt, hfirst]
    exact ⟨rfl, Or.inr (hfirst ▸ hlt)⟩
  · simp only [if_neg hlt]
    cases free with
    | nil =>
      left
      obtain ⟨k, hk⟩ := Nat.exists_eq_succ_of_ne_zero (by decide : loopFuel ≠ 0)
      refine ⟨?_, Or.inl rfl⟩
      rw [show h.head = 0 from hfirst, hk, kfreeFind, if_pos rfl]
      rfl
    | cons c free =>
      right
      have hc : h.head = c.start := hfirst
      have hlinks := hl.links
      rw [hc] at hlinks hlt
      have hne : u.start ≠ c.start := fun heq => hu (heq ▸ List.mem_cons_self)
      obtain ⟨f₁, p, f₂, heq, hfind, hpn, hpu, hbetween, hnot⟩ := kfreeFind_path
        (fun b hb => (hl.blocks b hb).pos) hlinks hu (by omega : c.start < u.start) hl.length_lt
      exact ⟨f₁, p, f₂, heq, hpn, by omega, hpu, hbetween, hnot, by rw [hc, hfind]⟩

/-- **What `kfree` does to the list.** -/
theorem kfree (hl : Linked h free) (hu : IsBlock u) (hsize : h.size u.start = u.len)
    (hapart : ∀ c ∈ free, Apart u c) :
    ∃ h' free', kfree (u.start + blockHeaderSize) h = .ok () h' ∧ Linked h' free' ∧
      Placed h u free free' ∧ SameBut (u :: free) h h' := by
  have hsub : sub32 (u.start + blockHeaderSize) blockHeaderSize = u.start := by
    have h₁ := hu.le
    have h₂ := hu.header
    have h₃ := hu.pos
    rw [blockHeaderSize] at h₂ ⊢
    unfold sub32 u32
    omega
  have hne : u.start + blockHeaderSize ≠ 0 := by
    have := hu.pos
    omega
  have hmem : u ∈ u :: free := List.mem_cons_self
  simp only [Kmalloc.kfree, if_neg hne, hsub]
  rcases hl.find_place (hl.not_mem hu hapart) with
    ⟨hplace, hfront⟩ | ⟨f₁, p, f₂, rfl, hpn, hhead, hpu, hbetween, hfirst, hplace⟩
  · rw [hplace]
    have hlink : Linked _ ([] ++ u :: free) := hl.linkFront hu hsize hapart
    rw [hl.head_eq] at hlink
    refine ⟨_, absorb u free, rfl, ?_, .front hfront, ?_⟩
    · rw [kmallocCoalesce, kmallocCoalescePrev, if_neg fun hc => hc.1 rfl, kfreeLink, if_pos rfl]
      exact hlink.coalesceNext
    · rw [kmallocCoalesce, kmallocCoalescePrev, if_neg fun hc => hc.1 rfl]
      exact (sameBut_kfreeLink hmem (Or.inl rfl)).trans (sameBut_coalesceNext hmem)
  · rw [hplace]
    have hp : p ∈ f₁ ++ p :: f₂ := List.mem_append_right f₁ List.mem_cons_self
    have hpos := (hl.blocks p hp).pos
    have hlink := hl.linkAfter hu hsize hapart
    rw [hpn] at hlink
    have hlinked : Linked (kfreeLink p.start u.start (firstStart f₂) h) (f₁ ++ p :: u :: f₂) := by
      rw [kfreeLink, if_neg (by omega)]
      split
      · next hz =>
        rw [hz] at hlink
        exact hlink.setTail u.start
      · exact hlink
    rw [List.append_cons] at hlinked
    have hnext := hlinked.coalesceNext
    obtain ⟨n, l, habsorb, -⟩ := exists_absorb u f₂
    rw [← List.append_cons, habsorb] at hnext
    have hprev := hnext.coalescePrev
    rw [← habsorb] at hprev
    refine ⟨_, _, rfl, hprev, .after rfl hhead ⟨hpu, ?_⟩ hfirst hbetween, ?_⟩
    · rw [hpn]
      rcases hbetween with rfl | hbetween
      · exact Or.inr rfl
      · exact Or.inl hbetween
    · have hp' : p ∈ u :: (f₁ ++ p :: f₂) := List.mem_cons_of_mem u hp
      exact ((sameBut_kfreeLink hmem (Or.inr ⟨p, hp', rfl⟩)).trans
        (sameBut_coalesceNext hmem)).trans (sameBut_coalescePrev hp')

end Linked

end Aosis.Memory.Kmalloc
