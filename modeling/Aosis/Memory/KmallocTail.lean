import Aosis.Memory.KmallocFirst

/-!
# The end of the free list

`block_list_tail` is to be the last block of the free list; this is where the heap grows.  `kmalloc`
does not move it when the heap grows, and `kfree` leaves it inside another block when it merges the
last block into the one before it.  A growth at a block that is not the last one loses what comes
after it, or the new page.

* `conserved_of_run`: nothing is lost in a run that grows the heap at its end only.
* `tailLast_of_run`: the tail stays the last block if the heap does not grow and no `kfree` merges
  the end of the list into the block before it.
-/

namespace Aosis.Memory.Kmalloc

open Aosis.Lib Aosis.Lib.Extent

/-- `block_list_tail` is the last block of the list that starts at `block_list_head`. -/
def TailLast (h : Heap) : Prop := OnList h h.tail ∧ h.next h.tail = 0

/-- Every byte of the pages is in a block of the free list or in an allocated block. -/
def Conserved (s : Sys) : Prop :=
  ∀ p ∈ s.pages, ∀ x, p ≤ x → x < p + 4096 →
    (∃ b, OnList s.heap b ∧ (⟨b, s.heap.size b⟩ : Extent).Mem x) ∨ ∃ l ∈ s.live, l.block.Mem x

/-- If the call grows the heap, the tail is the last block of the list. -/
def GrowsAtEnd (s : Sys) : Op → Prop
  | .kmalloc size _ => size ≠ 0 → (∀ b, ¬ FirstFit s.heap (kmallocRound size) b) →
      TailLast s.heap
  | .kfree _ => True
  | .write _ _ => True

/-- The call does not grow the heap, and does not merge the end of the list into the block before
it: if the freed block meets the block before it in the list, the list goes on behind it, and also
behind the next block if the two meet. -/
def KeepsEnd (s : Sys) : Op → Prop
  | .kmalloc size _ => size ≠ 0 → ∃ b, FirstFit s.heap (kmallocRound size) b
  | .kfree ptr => ∀ p, OnList s.heap p → p < (freedBlock s.heap ptr).start →
      (s.heap.next p = 0 ∨ (freedBlock s.heap ptr).start < s.heap.next p) →
      p + s.heap.size p = (freedBlock s.heap ptr).start →
        s.heap.next p ≠ 0 ∧ (s.heap.next p = (freedBlock s.heap ptr).start +
          (freedBlock s.heap ptr).len → s.heap.next (s.heap.next p) ≠ 0)
  | .write _ _ => True

/-! ### The list and its end -/

namespace HeapInv

variable {h : Heap} {free used f₁ f₂ : List Extent} {pages : List Nat} {b : Extent}

theorem next_eq (hi : HeapInv h (f₁ ++ b :: f₂) used pages) :
    OnList h b.start ∧ h.next b.start = firstStart f₂ := by
  refine ⟨hi.linked.onList_of_mem (List.mem_append_right f₁ List.mem_cons_self), ?_⟩
  have hlinks := hi.links
  rw [List.map_append, List.map_cons, Path.append_cons_iff] at hlinks
  rw [firstStart, ← List.head?_map]
  exact hlinks.2.start_eq

theorem onList_of_mem (hi : HeapInv h free used pages) (hb : b ∈ free) : OnList h b.start :=
  hi.linked.onList_of_mem hb

theorem firstStart_eq_zero (hi : HeapInv h (f₁ ++ b :: f₂) used pages) :
    firstStart f₂ = 0 ↔ f₂ = [] := by
  cases f₂ with
  | nil => exact ⟨fun _ => rfl, fun _ => rfl⟩
  | cons c f₂ =>
    have hpos := (hi.tiling.fit c (List.mem_append_left used
      (List.mem_append_right f₁ (List.mem_cons_of_mem b List.mem_cons_self)))).pos
    refine ⟨?_, fun hnil => by cases hnil⟩
    intro h0
    have hc : c.start = 0 := h0
    omega

theorem tailLast_iff (hi : HeapInv h free used pages) : TailLast h ↔ EndsAt free h.tail := by
  refine ⟨?_, ?_⟩
  · rintro ⟨hlist, hnext⟩
    obtain ⟨c, hc, htail⟩ := hi.mem_of_onList hlist
    obtain ⟨f₁, f₂, rfl⟩ := List.append_of_mem hc
    rw [← htail, hi.next_eq.2, hi.firstStart_eq_zero] at hnext
    rw [hnext, endsAt_append_cons, endsAt_singleton]
    exact htail
  · intro hend
    obtain ⟨c, hc, htail⟩ := Option.map_eq_some_iff.mp hend
    obtain ⟨f₁, rfl⟩ := List.getLast?_eq_some_iff.mp hc
    obtain ⟨hlist, hnext⟩ := hi.next_eq
    rw [htail] at hlist hnext
    exact ⟨hlist, hnext⟩

theorem grow_last (hi : HeapInv h free used pages) (hlast : TailLast h) {page : Nat}
    (hf : FreshPage pages page) :
    HeapInv (kmallocGrow page h) (free ++ [⟨page, 4096⟩]) used (page :: pages) := by
  have hend := hi.tailLast_iff.mp hlast
  obtain ⟨c, hc, htail⟩ := Option.map_eq_some_iff.mp hend
  obtain ⟨f₁, rfl⟩ := List.getLast?_eq_some_iff.mp hc
  exact hi.grow_at htail hf

end HeapInv

/-! ### Nothing is lost -/

/-- Every byte of the pages is in a block. -/
structure Kept (s : Sys) (free : List Extent) : Prop where
  inv : Inv s free
  covers : ∀ x, InPages s.pages x → Covers (free ++ s.live.map Live.block) x

theorem Kept.step {s s' : Sys} {free : List Extent} {op : Op} (hk : Kept s free)
    (hs : Within Step (fun s op => Cuts s op ∧ GrowsAtEnd s op) s op s') :
    ∃ free', Kept s' free' := by
  obtain ⟨⟨hcuts, hgrows⟩, hstep⟩ := hs
  rcases hk.inv.step_cases ⟨hcuts, hstep⟩ with ⟨size, page, rfl, h0, hpage, hnone, rfl⟩ |
    ⟨free', hi', hpages, hcover, -⟩
  · -- the heap grows
    refine ⟨free ++ [⟨page, 4096⟩], ⟨hk.inv.heap.grow_last (hgrows h0 hnone) hpage, hk.inv.sizes⟩,
      fun x hx => ?_⟩
    obtain ⟨p, hp, hpx⟩ := hx
    rcases List.mem_cons.mp hp with rfl | hp
    · exact ⟨⟨p, 4096⟩, List.mem_append_left _ (List.mem_append_right free List.mem_cons_self), hpx⟩
    · apply (hk.covers x ⟨p, hp, hpx⟩).mono
      intro b hb
      rcases List.mem_append.mp hb with hb | hb
      · exact List.mem_append_left _ (List.mem_append_left _ hb)
      · exact List.mem_append_right _ hb
  · exact ⟨free', hi', fun x hx => hcover x (hk.covers x (hpages ▸ hx))⟩

theorem Kept.conserved {s : Sys} {free : List Extent} (hk : Kept s free) : Conserved s := by
  intro p hp x hlo hhi
  obtain ⟨b, hb, hx⟩ := hk.covers x ⟨p, hp, hlo, hhi⟩
  have hsize := hk.inv.heap.tiling.sizes b hb
  rcases List.mem_append.mp hb with hb | hb
  · refine Or.inl ⟨b.start, hk.inv.heap.onList_of_mem hb, ?_⟩
    rw [hsize]
    exact hx
  · obtain ⟨l, hl, rfl⟩ := List.mem_map.mp hb
    exact Or.inr ⟨l, hl, hx⟩

/-- **Nothing is lost** in a run in which each `kmalloc` cuts the block that it takes, or grows the
heap at the last block of the list. -/
theorem conserved_of_run {base : Nat} (hb : FreshPage [] base) {mem : Nat → Nat} {ops : List Op}
    {s : Sys}
    (h : Run (Within Step fun s op => Cuts s op ∧ GrowsAtEnd s op) (.init base mem) ops s) :
    Conserved s := by
  have hinit : Kept (.init base mem) [⟨base, 4096⟩] := by
    refine ⟨⟨HeapInv.init hb mem, fun _ hl => absurd hl List.not_mem_nil⟩, ?_⟩
    intro x hx
    obtain ⟨p, hp, hpx⟩ := hx
    rw [List.mem_singleton.mp hp] at hpx
    exact ⟨_, List.mem_cons_self, hpx⟩
  obtain ⟨_, hk⟩ := h.invariant (I := fun s => ∃ free, Kept s free) (fun ⟨_, hk⟩ hs => hk.step hs)
    ⟨_, hinit⟩
  exact hk.conserved

/-! ### The tail -/

theorem HeapInv.staysLast {h : Heap} {free used : List Extent} {pages : List Nat} {ptr : Nat}
    {s : Sys} (hi : HeapInv h free used pages) (hs : s.heap = h) (hk : KeepsEnd s (.kfree ptr)) :
    StaysLast free (freedBlock h ptr) := by
  subst hs
  rintro f₁ p f₂ rfl hlt hplace hmeet
  obtain ⟨hlist, hnext⟩ := hi.next_eq
  have hsize := hi.tiling.sizes p
    (List.mem_append_left used (List.mem_append_right f₁ List.mem_cons_self))
  have hplace' : s.heap.next p.start = 0 ∨ (freedBlock s.heap ptr).start < s.heap.next p.start := by
    rw [hnext]
    exact hplace.imp_left fun hnil => hi.firstStart_eq_zero.mpr hnil
  obtain ⟨hne, hgoes⟩ := hk p.start hlist hlt hplace' (hsize.symm ▸ hmeet)
  rw [hnext] at hne hgoes
  refine ⟨fun hnil => hne (hi.firstStart_eq_zero.mpr hnil), ?_⟩
  rintro b rfl hb
  rw [List.append_cons] at hi
  exact hgoes hb.symm hi.next_eq.2

/-- The list ends at the tail. -/
structure Ends (s : Sys) (free : List Extent) : Prop where
  inv : Inv s free
  ends : EndsAt free s.heap.tail

theorem Ends.step {s s' : Sys} {free : List Extent} {op : Op} (he : Ends s free)
    (hs : Within Step (fun s op => Cuts s op ∧ KeepsEnd s op) s op s') :
    ∃ free', Ends s' free' := by
  obtain ⟨⟨hcuts, hkeeps⟩, hstep⟩ := hs
  rcases he.inv.step_cases ⟨hcuts, hstep⟩ with ⟨size, page, rfl, h0, -, hnone, -⟩ |
    ⟨free', hi', -, -, hend⟩
  · obtain ⟨b, hb⟩ := hkeeps h0
    exact absurd hb (hnone b)
  · refine ⟨free', hi', hend ?_ he.ends⟩
    intro ptr hptr
    subst hptr
    exact he.inv.heap.staysLast rfl hkeeps

/-- **The tail is the last block** in a run in which each `kmalloc` cuts the block that it takes and
no `kfree` merges the end of the list into the block before it. -/
theorem tailLast_of_run {base : Nat} (hb : FreshPage [] base) {mem : Nat → Nat} {ops : List Op}
    {s : Sys} (h : Run (Within Step fun s op => Cuts s op ∧ KeepsEnd s op) (.init base mem) ops s) :
    TailLast s.heap := by
  have hinit : Ends (.init base mem) [⟨base, 4096⟩] :=
    ⟨⟨HeapInv.init hb mem, fun _ hl => absurd hl List.not_mem_nil⟩, rfl⟩
  obtain ⟨_, he⟩ := h.invariant (I := fun s => ∃ free, Ends s free) (fun ⟨_, he⟩ hs => he.step hs)
    ⟨_, hinit⟩
  exact he.inv.heap.tailLast_iff.mpr he.ends

/-! ### Growths -/

theorem HeapInv.kmalloc_grows {h : Heap} {free used : List Extent} {pages : List Nat}
    (hi : HeapInv h free used pages) {size : Nat} (page : Nat) (h0 : size ≠ 0)
    (hnone : ∀ b ∈ free, b.len < kmallocRound size + 8) :
    Kmalloc.kmalloc (pure page) size h = .ok 0 (kmallocGrow page h) := by
  have hfind : free.find? (fun b => kmallocRound size + 8 ≤ b.len) = none := by
    rw [List.find?_eq_none]
    intro b hb
    have := hnone b hb
    simp only [decide_eq_true_eq]
    omega
  rw [Kmalloc.kmalloc, if_neg h0]
  dsimp only
  rw [hi.find_eq, hfind]
  rfl

theorem kmalloc_4096 {h : Heap} {free used : List Extent} {pages : List Nat}
    (hi : HeapInv h free used pages) (page : Nat) (hfree : ∀ b ∈ free, b.len = 4096) :
    kmalloc (pure page) 4096 h = .ok 0 (kmallocGrow page h) := by
  apply hi.kmalloc_grows page (by decide)
  intro b hb
  rw [hfree b hb]
  decide

theorem freshPage_3M : FreshPage [0x200000] 0x300000 :=
  ⟨by decide, by decide, by decide, by decide⟩

/-- The heap after one growth. -/
def grownHeap : Heap := kmallocGrow 0x300000 initHeap

theorem heapInv_grownHeap :
    HeapInv grownHeap [⟨0x200000, 4096⟩, ⟨0x300000, 4096⟩] [] [0x300000, 0x200000] := by
  have hi : HeapInv initHeap ([] ++ [⟨0x200000, 4096⟩]) [] [0x200000] :=
    HeapInv.init freshPage_2M fun _ => 0
  exact hi.grow_at rfl freshPage_3M

theorem step_grownHeap :
    Step (.init 0x200000 fun _ => 0) (.kmalloc 4096 0x300000)
      ⟨grownHeap, [], [0x300000, 0x200000]⟩ := by
  apply Step.null (s := .init 0x200000 fun _ => 0) (by decide) (fun _ => freshPage_3M)
  exact kmalloc_4096 (HeapInv.init freshPage_2M fun _ => 0) 0x300000 fun b hb => by
    rw [List.mem_singleton.mp hb]

/-- No byte is lost by the first growth. -/
theorem conserved_grownHeap : Conserved ⟨grownHeap, [], [0x300000, 0x200000]⟩ := by
  have hi := HeapInv.init freshPage_2M fun _ => 0
  have hcuts : Cuts (.init 0x200000 fun _ => 0) (.kmalloc 4096 0x300000) := by
    intro _
    refine ⟨by decide, ?_⟩
    intro b hb
    obtain ⟨c, hc, rfl⟩ := hi.mem_of_onList hb.onList
    have hroom := hb.2.1
    rw [List.mem_singleton.mp hc, HasRoom] at hroom
    exact absurd hroom (by decide)
  have hgrows : GrowsAtEnd (.init 0x200000 fun _ => 0) (.kmalloc 4096 0x300000) :=
    fun _ _ => hi.tailLast_iff.mpr rfl
  exact conserved_of_run freshPage_2M (Run.single ⟨⟨hcuts, hgrows⟩, step_grownHeap⟩)

/-- The second growth drops the page of the first one. -/
theorem not_conserved_second_growth :
    ∃ s, Run Step (.init 0x200000 fun _ => 0) [.kmalloc 4096 0x300000, .kmalloc 4096 0x301000] s ∧
      ¬ Conserved s := by
  have hi₂ : HeapInv (kmallocGrow 0x301000 grownHeap) [⟨0x200000, 4096⟩, ⟨0x301000, 4096⟩] []
      [0x301000, 0x300000, 0x200000] := by
    have hi₁ : HeapInv grownHeap ([] ++ ⟨0x200000, 4096⟩ :: [⟨0x300000, 4096⟩]) []
      [0x300000, 0x200000] := heapInv_grownHeap
    exact hi₁.grow_at rfl ⟨by decide, by decide, by decide, by decide⟩
  have hstep : Step ⟨grownHeap, [], [0x300000, 0x200000]⟩ (.kmalloc 4096 0x301000)
      ⟨kmallocGrow 0x301000 grownHeap, [], [0x301000, 0x300000, 0x200000]⟩ := by
    refine Step.null (s := ⟨grownHeap, [], [0x300000, 0x200000]⟩) (by decide)
      (fun _ => ⟨by decide, by decide, by decide, by decide⟩) ?_
    apply kmalloc_4096 heapInv_grownHeap 0x301000
    intro b hb
    simp only [List.mem_cons, List.not_mem_nil, or_false] at hb
    rcases hb with rfl | rfl <;> rfl
  refine ⟨_, (Run.single step_grownHeap).snoc hstep, ?_⟩
  intro hc
  rcases hc 0x300000 (by decide) 0x300000 le_rfl (by decide) with ⟨b, hb, hx⟩ | ⟨l, hl, -⟩
  · obtain ⟨c, hc, rfl⟩ := hi₂.mem_of_onList hb
    rw [hi₂.tiling.sizes c (List.mem_append_left _ hc)] at hx
    simp only [List.mem_cons, List.not_mem_nil, or_false] at hc
    rcases hc with rfl | rfl <;> exact absurd hx (by unfold Mem; decide)
  · exact absurd hl List.not_mem_nil

/-- The tail after two blocks were cut and the first one was freed. -/
theorem tailLast_freed : ∃ h, Run Step (.init 0x200000 fun _ => 0)
    [.kmalloc 16 0, .kmalloc 16 0, .kfree 0x200FF0] ⟨h, [⟨0x200FD8, 16⟩], [0x200000]⟩ ∧
      TailLast h := by
  obtain ⟨h₁, h₂, h₃, hs₁, hs₂, hs₃, hf₁, hf₂⟩ := exists_freed
  have hf₀ := FirstBlock.init freshPage_2M fun _ => 0
  have hkeeps : KeepsEnd ⟨h₂, [⟨0x200FD8, 16⟩, ⟨0x200FF0, 16⟩], [0x200000]⟩ (.kfree 0x200FF0) := by
    -- the block before the freed one ends at the other allocated block
    intro p hp _ _ hmeet
    obtain ⟨c, hc, rfl⟩ := hf₂.inv.mem_of_onList hp
    rw [hf₂.inv.tiling.sizes c (List.mem_append_left _ hc), List.mem_singleton.mp hc] at hmeet
    exact absurd (show 0x200000 + 4048 = 0x200FF0 - 8 from hmeet) (by decide)
  have hrun : Run (Within Step fun s op => Cuts s op ∧ KeepsEnd s op) (.init 0x200000 fun _ => 0)
      [.kmalloc 16 0, .kmalloc 16 0, .kfree 0x200FF0] ⟨h₃, [⟨0x200FD8, 16⟩], [0x200000]⟩ :=
    ((Run.single ⟨⟨hf₀.cuts 0 (by decide) (by decide), fun _ => ⟨_, hf₀.firstFit (by decide)⟩⟩,
      hs₁⟩).snoc ⟨⟨hf₁.cuts 0 (by decide) (by decide), fun _ => ⟨_, hf₁.firstFit (by decide)⟩⟩,
        hs₂⟩).snoc ⟨⟨trivial, hkeeps⟩, hs₃⟩
  exact ⟨h₃, hrun.mono And.right, tailLast_of_run freshPage_2M hrun⟩

/-- After a growth the tail is not the last block. -/
theorem not_tailLast_grownHeap :
    Run Step (.init 0x200000 fun _ => 0) [.kmalloc 4096 0x300000]
      ⟨grownHeap, [], [0x300000, 0x200000]⟩ ∧ ¬ TailLast grownHeap := by
  refine ⟨Run.single step_grownHeap, ?_⟩
  intro hlast
  have hend := heapInv_grownHeap.tailLast_iff.mp hlast
  unfold EndsAt at hend
  exact absurd hend (by decide)

end Aosis.Memory.Kmalloc
