import Aosis.Memory.FreeList
import Aosis.Memory.KmallocInv

/-!
# Freeing a block keeps the heap invariant

`kfree` looks for the place of the block in the list, links the block in and merges it with
the blocks that meet it.

* `HeapInv.linkFront`, `HeapInv.linkAfter`, `HeapInv.merge`: the edits of the list keep the
  invariant.
* `HeapInv.kfree`: freeing an allocated block returns and makes it free.
-/

namespace Aosis.Memory.Kmalloc

open Aosis.Lib Aosis.Lib.Extent

/-- The last block of the list starts at `t`. -/
def EndsAt (l : List Extent) (t : Nat) : Prop := l.getLast?.map Extent.start = some t

section EndsAt

variable {f₁ f₂ : List Extent} {a b : Extent} {t : Nat}

theorem endsAt_append_cons : EndsAt (f₁ ++ a :: f₂) t ↔ EndsAt (a :: f₂) t := by
  rw [EndsAt, EndsAt, List.getLast?_append_cons]

theorem endsAt_cons_cons : EndsAt (a :: b :: f₂) t ↔ EndsAt (b :: f₂) t := by
  rw [EndsAt, EndsAt, List.getLast?_cons_cons]

theorem endsAt_congr (h : f₁.map Extent.start = f₂.map Extent.start) :
    EndsAt f₁ t ↔ EndsAt f₂ t := by
  rw [EndsAt, EndsAt, ← List.getLast?_map, ← List.getLast?_map, h]

theorem EndsAt.mem (h : EndsAt f₁ t) : t ∈ f₁.map Extent.start := by
  obtain ⟨b, hb, rfl⟩ := Option.map_eq_some_iff.mp h
  exact List.mem_map_of_mem (List.mem_of_getLast? hb)

theorem endsAt_singleton : EndsAt [a] t ↔ a.start = t := by
  rw [EndsAt, List.getLast?_singleton, Option.map_some, Option.some_inj]

theorem endsAt_cons_of_ne_nil (h : f₂ ≠ []) : EndsAt (f₁ ++ a :: f₂) t ↔ EndsAt f₂ t := by
  cases f₂ with
  | nil => exact absurd rfl h
  | cons b f₂ => rw [endsAt_append_cons, endsAt_cons_cons]

theorem EndsAt.merge (h : EndsAt (f₁ ++ a :: b :: f₂) t) (hb : b.start ∉ f₂.map Extent.start)
    (len : Nat) : EndsAt (f₁ ++ ⟨a.start, len⟩ :: f₂) (if t = b.start then a.start else t) := by
  rw [endsAt_append_cons, endsAt_cons_cons] at h
  rw [endsAt_append_cons]
  cases f₂ with
  | nil =>
    rw [if_pos (endsAt_singleton.mp h).symm, endsAt_singleton]
  | cons c f₂ =>
    -- the end of the list is behind `b`
    rw [endsAt_cons_cons] at h
    have hne : t ≠ b.start := fun heq => hb (heq ▸ h.mem)
    rw [if_neg hne, endsAt_cons_cons]
    exact h

end EndsAt

/-- The block before the place of `u` does not meet it, or the list goes on after `u` and after the
block that `u` may grow over. -/
def StaysLast (free : List Extent) (u : Extent) : Prop :=
  ∀ f₁ p f₂, free = f₁ ++ p :: f₂ → p.start < u.start → (f₂ = [] ∨ u.start < firstStart f₂) →
    p.start + p.len = u.start → f₂ ≠ [] ∧ ∀ b, f₂ = [b] → u.start + u.len ≠ b.start

/-! ### Linking in and merging -/

namespace HeapInv

variable {h : Heap} {free used f₁ f₂ : List Extent} {pages : List Nat} {a b p u : Extent}

theorem setTail (hi : HeapInv h free used pages) {t : Nat} (hmod : t % 8 = 0)
    (hin : (⟨t, 8⟩ : Extent).Within (InPages pages)) :
    HeapInv { h with tail := t } free used pages :=
  ⟨hi.links, hi.tiling.congr fun _ _ => rfl, hmod, hin, hi.aligned⟩

theorem setTail_block (hi : HeapInv h free used pages) (hb : b ∈ free ++ used) :
    HeapInv { h with tail := b.start } free used pages := by
  have hfit := hi.tiling.fit b hb
  have hlen := hfit.len_ge
  refine hi.setTail hfit.start_mod fun x hx => hfit.within x ?_
  unfold Mem at *
  dsimp only at hx
  omega

theorem start_mod (hi : HeapInv h free used pages) (hb : b ∈ free ++ used) : b.start % 8 = 0 :=
  (hi.tiling.fit b hb).start_mod

theorem tiling_setNext (hi : HeapInv h free used pages) (hb : b ∈ free ++ used) (v : Nat) :
    Tiling (h.setNext b.start v) pages (free ++ used) :=
  hi.tiling.congr fun _ hc => Heap.size_setNext (hi.start_mod hc) (hi.start_mod hb)

theorem used_block (hi : HeapInv h free (u :: used) pages) :
    IsBlock u ∧ h.size u.start = u.len ∧ ∀ c ∈ free, Apart u c := by
  have ht : Tiling h pages (u :: (free ++ used)) := hi.tiling.perm List.perm_middle
  exact ⟨(ht.fit u List.mem_cons_self).isBlock, ht.sizes u List.mem_cons_self,
    fun c hc => ht.apart (List.mem_append_left used hc)⟩

/-- **Linking in at the front.** -/
theorem linkFront (hi : HeapInv h free (u :: used) pages) :
    HeapInv { h.setNext u.start h.head with head := u.start } (u :: free) used pages := by
  have hu : u ∈ free ++ u :: used := List.mem_append_right free List.mem_cons_self
  obtain ⟨hblock, hsize, hapart⟩ := hi.used_block
  exact ⟨(hi.linked.linkFront hblock hsize hapart).links,
    ((hi.tiling_setNext hu h.head).perm List.perm_middle).congr fun _ _ => rfl,
    hi.tail_mod, hi.tail_within, hi.aligned⟩

/-- **Linking in after the block `p`.** -/
theorem linkAfter (hi : HeapInv h (f₁ ++ p :: f₂) (u :: used) pages) :
    HeapInv ((h.setNext p.start u.start).setNext u.start (h.next p.start)) (f₁ ++ p :: u :: f₂)
      used pages := by
  have hp : p ∈ f₁ ++ p :: f₂ ++ u :: used :=
    List.mem_append_left _ (List.mem_append_right f₁ List.mem_cons_self)
  have hu : u ∈ f₁ ++ p :: f₂ ++ u :: used := List.mem_append_right _ List.mem_cons_self
  obtain ⟨hblock, hsize, hapart⟩ := hi.used_block
  refine ⟨(hi.linked.linkAfter hblock hsize hapart).links, ?_, hi.tail_mod, hi.tail_within,
    hi.aligned⟩
  refine ((hi.tiling_setNext hp u.start).congr fun c hc =>
    Heap.size_setNext (hi.start_mod hc) (hi.start_mod hu)).perm (List.perm_middle.trans ?_)
  simp only [List.append_assoc, List.cons_append]
  exact (List.perm_middle.symm).trans
    (List.Perm.append_left f₁ (List.Perm.swap p u (f₂ ++ used)))

/-- **Merging two neighbours of the list that meet in memory.** -/
theorem merge (hi : HeapInv h (f₁ ++ a :: b :: f₂) used pages) (hab : a.start + a.len = b.start) :
    HeapInv ((h.setNext a.start (h.next b.start)).setSize a.start (u32 (h.size a.start +
      h.size b.start))) (f₁ ++ ⟨a.start, a.len + b.len⟩ :: f₂) used pages := by
  have hperm : (f₁ ++ a :: b :: f₂ ++ used).Perm (a :: b :: (f₁ ++ f₂ ++ used)) := by
    simp only [List.append_assoc, List.cons_append]
    exact List.perm_middle.trans (List.Perm.cons a List.perm_middle)
  have ht := hi.tiling.perm hperm
  have ha := ht.fit a List.mem_cons_self
  have hsize : u32 (h.size a.start + h.size b.start) = a.len + b.len := by
    have hle := (ht.fit b (List.mem_cons_of_mem a List.mem_cons_self)).le
    rw [ht.sizes a List.mem_cons_self, ht.sizes b (List.mem_cons_of_mem a List.mem_cons_self),
      u32_of_lt (by have := ha.pos; omega)]
  rw [hsize]
  refine ⟨(hi.linked.merge hab).links, ?_, hi.tail_mod, hi.tail_within, hi.aligned⟩
  have hj : Tiling ((h.setNext a.start (h.next b.start)).setSize a.start (a.len + b.len)) pages
      (⟨a.start, a.len + b.len⟩ :: (f₁ ++ f₂ ++ used)) := by
    refine ht.join hab ?_ ?_
    · rw [Heap.size_setSize, if_pos rfl]
    · intro c hc
      have hca := ht.start_not_mem (List.mem_cons_of_mem b hc)
      have hcm := (ht.fit c (List.mem_cons_of_mem a (List.mem_cons_of_mem b hc))).start_mod
      have hlen := ha.len_ge
      unfold Mem at hca
      rw [Heap.size_setSize, if_neg (by omega), Heap.size_setNext hcm ha.start_mod]
  apply hj.perm
  simp only [List.append_assoc, List.cons_append]
  exact List.perm_middle.symm

/-! ### `kmalloc_coalesce` -/

/-- Two blocks meet when the word sum of `kmalloc_coalesce` says so. -/
theorem meet_of_u32 (hi : HeapInv h free used pages) (ha : a ∈ free) (hb : b.start ≠ 0)
    (hab : b.start = u32 (a.start + h.size a.start)) : a.start + a.len = b.start := by
  have hle := (hi.tiling.fit a (List.mem_append_left used ha)).le
  rw [hi.tiling.sizes a (List.mem_append_left used ha), u32] at hab
  omega

/-- The block may grow over the one after it; the tail pointer stays at the end of the list. -/
theorem coalesceNext (hi : HeapInv h (f₁ ++ u :: f₂) used pages) :
    ∃ u' f₂' h', u'.start = u.start ∧ kmallocCoalesceNext u.start (firstStart f₂) h = h' ∧
      HeapInv h' (f₁ ++ u' :: f₂') used pages ∧
      (∀ x, Covers (f₁ ++ u :: f₂ ++ used) x → Covers (f₁ ++ u' :: f₂' ++ used) x) ∧
      (EndsAt (f₁ ++ u :: f₂) h.tail → EndsAt (f₁ ++ u' :: f₂') h'.tail) ∧
      (f₂' = [] → f₂ = [] ∨ ∃ b, f₂ = [b] ∧ u.start + u.len = b.start) := by
  rw [kmallocCoalesceNext]
  split
  · next hc =>
    cases f₂ with
    | nil => exact absurd rfl hc.1
    | cons b f₂ =>
      have hb : b ∈ f₁ ++ u :: b :: f₂ ++ used := List.mem_append_left used
        (List.mem_append_right f₁ (List.mem_cons_of_mem u List.mem_cons_self))
      have hu : u ∈ f₁ ++ u :: b :: f₂ := List.mem_append_right f₁ List.mem_cons_self
      have hum := hi.start_mod (List.mem_append_left used hu)
      have hbm := hi.start_mod hb
      have hmeet := hi.meet_of_u32 hu hc.1 hc.2
      have hm := hi.merge hmeet
      have hnd := hi.linked.nodup
      rw [List.map_append, List.map_cons, List.map_cons] at hnd
      have hb₂ := (List.nodup_cons.mp (List.nodup_cons.mp (List.nodup_append.mp hnd).2.1).2).1
      have hcover : ∀ x, Covers (f₁ ++ u :: b :: f₂ ++ used) x →
          Covers (f₁ ++ ⟨u.start, u.len + b.len⟩ :: f₂ ++ used) x := by
        intro x hx
        rw [List.append_assoc, List.cons_append] at hx ⊢
        exact Covers.join hx hmeet
      have hlast : f₂ = [] → b :: f₂ = [] ∨ ∃ c, b :: f₂ = [c] ∧ u.start + u.len = c.start :=
        fun hnil => Or.inr ⟨b, by rw [hnil], hmeet⟩
      rw [show firstStart (b :: f₂) = b.start from rfl]
      simp only [Heap.size_setNext hum hum, Heap.size_setNext hbm hum]
      split
      · next htail =>
        refine ⟨⟨u.start, u.len + b.len⟩, f₂, _, rfl, rfl, hm.setTail_block
          (b := ⟨u.start, u.len + b.len⟩) (List.mem_append_left used
            (List.mem_append_right f₁ List.mem_cons_self)), hcover, fun hend => ?_, hlast⟩
        have hmerge := hend.merge hb₂ (u.len + b.len)
        rwa [if_pos (show h.tail = b.start from htail)] at hmerge
      · next htail =>
        refine ⟨⟨u.start, u.len + b.len⟩, f₂, _, rfl, rfl, hm, hcover, fun hend => ?_, hlast⟩
        have hmerge := hend.merge hb₂ (u.len + b.len)
        rwa [if_neg (show ¬ h.tail = b.start from htail)] at hmerge
  · exact ⟨u, f₂, h, rfl, rfl, hi, fun _ hx => hx, fun hend => hend, Or.inl⟩

/-- The block before it may grow over the block; the tail pointer stays at the end of the list
unless the block was the last one. -/
theorem coalescePrev (hi : HeapInv h (f₁ ++ p :: u :: f₂) used pages) :
    ∃ free' h', kmallocCoalescePrev p.start u.start h = h' ∧ HeapInv h' free' used pages ∧
      (∀ x, Covers (f₁ ++ p :: u :: f₂ ++ used) x → Covers (free' ++ used) x) ∧
      ((p.start + p.len = u.start → f₂ ≠ []) → EndsAt (f₁ ++ p :: u :: f₂) h.tail →
        EndsAt free' h'.tail) := by
  rw [kmallocCoalescePrev]
  split
  · next hc =>
    have hp : p ∈ f₁ ++ p :: u :: f₂ := List.mem_append_right f₁ List.mem_cons_self
    have hu : u ∈ f₁ ++ p :: u :: f₂ :=
      List.mem_append_right f₁ (List.mem_cons_of_mem p List.mem_cons_self)
    have hpm := hi.start_mod (List.mem_append_left used hp)
    have hum := hi.start_mod (List.mem_append_left used hu)
    have hpos := (hi.tiling.fit u (List.mem_append_left used hu)).pos
    have hmeet := hi.meet_of_u32 hp (by omega) hc.2
    have hm := hi.merge hmeet
    refine ⟨f₁ ++ ⟨p.start, p.len + u.len⟩ :: f₂, _, rfl, ?_, ?_, ?_⟩
    · simp only [Heap.size_setNext hpm hpm, Heap.size_setNext hum hpm]
      exact hm
    · intro x hx
      rw [List.append_assoc, List.cons_append] at hx ⊢
      exact Covers.join hx hmeet
    · intro hne hend
      have hne := hne hmeet
      rw [endsAt_append_cons, endsAt_cons_cons, ← List.nil_append (u :: f₂),
        endsAt_cons_of_ne_nil hne] at hend
      rw [endsAt_cons_of_ne_nil hne]
      exact hend
  · exact ⟨_, h, rfl, hi, fun _ hx => hx, fun _ hend => hend⟩

/-! ### `kfree` -/

theorem firstStart_eq (hi : HeapInv h free used pages) : h.head = firstStart free :=
  hi.linked.head_eq

/-- **Linking the block in after the block `p`.**  A block that comes last becomes the tail. -/
theorem kfreeLink_after (hi : HeapInv h (f₁ ++ p :: f₂) (u :: used) pages)
    (hpn : h.next p.start = firstStart f₂) :
    HeapInv (kfreeLink p.start u.start (firstStart f₂) h) (f₁ ++ p :: u :: f₂) used pages ∧
      (EndsAt (f₁ ++ p :: f₂) h.tail →
        EndsAt (f₁ ++ p :: u :: f₂) (kfreeLink p.start u.start (firstStart f₂) h).tail) := by
  have hp := (hi.tiling.fit p (List.mem_append_left (u :: used)
    (List.mem_append_right f₁ List.mem_cons_self))).pos
  have hlink := hi.linkAfter
  rw [hpn] at hlink
  rw [kfreeLink, if_neg (by omega)]
  cases f₂ with
  | nil =>
    rw [show firstStart [] = 0 from rfl] at hlink ⊢
    rw [if_pos rfl]
    refine ⟨hlink.setTail_block (List.mem_append_left used
      (List.mem_append_right f₁ (List.mem_cons_of_mem p List.mem_cons_self))), fun _ => ?_⟩
    rw [endsAt_append_cons, endsAt_cons_cons, endsAt_singleton]
  | cons b f₂ =>
    have hb := (hi.tiling.fit b (List.mem_append_left (u :: used)
      (List.mem_append_right f₁ (List.mem_cons_of_mem p List.mem_cons_self)))).pos
    have hfirst : firstStart (b :: f₂) ≠ 0 := by
      show b.start ≠ 0
      omega
    rw [if_neg hfirst]
    refine ⟨hlink, fun ht => ?_⟩
    rw [endsAt_append_cons, endsAt_cons_cons] at ht
    rw [endsAt_append_cons, endsAt_cons_cons, endsAt_cons_cons]
    exact ht

/-- **Freeing an allocated block.**  The call returns, the block is not allocated any more, and its
addresses are free.  The tail pointer stays at the end of the list unless the end is merged into the
block before it. -/
theorem kfree (hi : HeapInv h free (u :: used) pages) :
    ∃ free' h', kfree (u.start + 8) h = .ok () h' ∧ HeapInv h' free' used pages ∧
      (∀ x, Covers (free ++ u :: used) x → Covers (free' ++ used) x) ∧
      (StaysLast free u → EndsAt free h.tail → EndsAt free' h'.tail) := by
  have hfit := hi.tiling.fit u (List.mem_append_right free List.mem_cons_self)
  have hpos := hfit.pos
  have hlen := hfit.len_ge
  have hle := hfit.le
  have hsub : sub32 (u.start + 8) blockHeaderSize = u.start := by
    rw [blockHeaderSize, sub32_of_le (by omega) (by omega), Nat.add_sub_cancel]
  simp only [Kmalloc.kfree, if_neg (by omega : u.start + 8 ≠ 0), hsub]
  obtain ⟨hblock, -, hapart⟩ := hi.used_block
  rcases hi.linked.find_place (hi.linked.not_mem hblock hapart) with
    ⟨hplace, -⟩ | ⟨f₁, p, f₂, rfl, hpn, -, hpu, hbetween, -, hplace⟩
  · rw [hplace]
    have hlink : HeapInv _ ([] ++ u :: free) used pages := hi.linkFront
    rw [hi.firstStart_eq] at hlink
    obtain ⟨u', f', h', _, hh', hnext, hcover, hend, -⟩ := coalesceNext hlink
    refine ⟨[] ++ u' :: f', h', ?_, hnext, fun x hx => hcover x (hx.mono fun b hb => ?_),
      fun _ ht => hend ?_⟩
    · dsimp only
      rw [kmallocCoalesce, kmallocCoalescePrev, if_neg (fun hc => hc.1 rfl), kfreeLink, if_pos rfl,
        hh']
    · exact List.perm_middle.mem_iff.mp hb
    · have hne : free ≠ [] := fun hnil => by
        rw [hnil] at ht
        cases ht
      rw [endsAt_cons_of_ne_nil hne]
      exact ht
  · rw [hplace]
    obtain ⟨hlinked, hlast⟩ := hi.kfreeLink_after hpn
    rw [List.append_cons] at hlinked
    obtain ⟨u', f', h₁, hu', hh₁, hnext, hcover₁, hend₁, hnil⟩ := hlinked.coalesceNext
    rw [← List.append_cons] at hnext
    obtain ⟨free', h₂, hh₂, hprev, hcover₂, hend₂⟩ := hnext.coalescePrev
    rw [hu', ← hh₁] at hh₂
    refine ⟨free', h₂, by dsimp only; rw [kmallocCoalesce, hh₂], hprev, fun x hx => ?_,
      fun hstays ht => hend₂ (fun hmeet hnil' => ?_) ?_⟩
    · apply hcover₂ x
      rw [List.append_cons]
      refine hcover₁ x (hx.mono ?_)
      intro b hb
      simp only [List.mem_append, List.mem_cons, List.not_mem_nil, or_false] at hb ⊢
      rcases hb with (hb | hb | hb) | hb | hb <;> simp [hb]
    · obtain ⟨hne, hmeets⟩ := hstays f₁ p f₂ rfl hpu hbetween (hmeet.trans hu')
      rcases hnil hnil' with hnil | ⟨b, hb, hub⟩
      · exact hne hnil
      · exact hmeets b hb hub
    · have hend := hend₁ (by rw [← List.append_cons]; exact hlast ht)
      rwa [← List.append_cons] at hend

end HeapInv

end Aosis.Memory.Kmalloc
