import Aosis.Memory.Allocators
import Aosis.Memory.KmallocServes
import Aosis.Memory.VmmPages

/-!
# Runs of the two allocators

The clients of the kernel call `kmalloc`, `kfree` and `vmm_alloc_page` in any order, after a boot, and
store into what they got.  The heap takes its pages from the VMM.

The runs end before a second block of pages is added: the frame allocator then gives a frame that is
behind a page already, for the table of the block, and the call clears it.  Up to there a page is the
frame of its own number, and no call writes to a frame, so that the words of the heap may be kept
(`Kmalloc.Heap.mem`) apart from the frames of the paging structures and of the pages of the clients.

A state stands in relation (`Refines`) to a state of the heap by itself and to the pages that the
VMM has handed out.  What the heap assumes of the VMM holds here: the pages that it gets are fresh.

* `Inv.step`: one step is at most one step of the heap by itself and one of the VMM by itself.
* `refines_of_run`: every run refines a run of the heap and a run of the VMM.
* `safe_of_run`: the payloads and the pages of the clients are apart, and all of them are mapped, to
  frames of their own.
-/

namespace Aosis.Memory.Allocators

open Aosis.Lib Aosis.Lib.Extent Aosis.Memory.Paging
open Aosis.Memory.Vmm (pageAddr Leads kernelWalk)
open Aosis.Memory.Kmalloc (Live)

/-- The allocators, the live pointers of the clients and their pages. -/
structure Sys where
  state : State
  live : List Live
  pages : List Nat

/-- A call of a client, or a store into a payload or into a page. -/
inductive Op where
  | kmalloc (size : Nat)
  | kfree (ptr : Nat)
  | write (a v : Nat)
  | alloc
  | store (page i : Nat) (entry : PageEntry)

/-- No block of pages is added between the two states. -/
def SameBlocks (s s' : State) : Prop := s'.vmm.vmmBlockList.length = s.vmm.vmmBlockList.length

/-- The request is cut from a block, or no block has room for it. -/
def Cuts (h : Kmalloc.Heap) (size : Nat) : Prop := Kmalloc.Cuts ⟨h, [], []⟩ (.kmalloc size 0)

/-- The steps of the system: calls that return and add no block of pages, `kfree` on live pointers and
null, stores into payloads, and stores into pages, through the loaded page directory. -/
inductive Step : Sys → Op → Sys → Prop
  | null {s : Sys} {size : Nat} {s' : State} (hsize : size < 2 ^ 32)
      (h : kmalloc size s.state = .ok 0 s') (hcuts : Cuts s.state.heap size)
      (hsame : SameBlocks s.state s') : Step s (.kmalloc size) ⟨s', s.live, s.pages⟩
  | kmalloc {s : Sys} {size p : Nat} {s' : State} (hsize : size < 2 ^ 32)
      (h : kmalloc size s.state = .ok p s') (hp : p ≠ 0) (hcuts : Cuts s.state.heap size) :
      Step s (.kmalloc size) ⟨s', ⟨p, size⟩ :: s.live, s.pages⟩
  | kfreeNull {s : Sys} {s' : State} (h : kfree 0 s.state = .ok () s') :
      Step s (.kfree 0) ⟨s', s.live, s.pages⟩
  | kfree {s : Sys} {l : Live} {s' : State} (hl : l ∈ s.live)
      (h : kfree l.ptr s.state = .ok () s') : Step s (.kfree l.ptr) ⟨s', s.live.erase l, s.pages⟩
  | write {s : Sys} {l : Live} {a v : Nat} (hl : l ∈ s.live) (hal : a % 4 = 0)
      (ha : l.payload.Mem a) :
      Step s (.write a v) ⟨{ s.state with heap := s.state.heap.store a v }, s.live, s.pages⟩
  | alloc {s : Sys} {p : Nat} {s' : State} (h : vmmAllocPage s.state = .ok p s')
      (hsame : SameBlocks s.state s') : Step s .alloc ⟨s', s.live, s.pages ++ [p]⟩
  | store {s : Sys} {page i : Nat} {entry : PageEntry} {vmm : Vmm.State} (hpage : page ∈ s.pages)
      (hi : i < 1024) (h : Vmm.onPaging (storeEntry page i entry) s.state.vmm = .ok () vmm) :
      Step s (.store page i entry) ⟨{ s.state with vmm := vmm }, s.live, s.pages⟩

/-- A call of the VMM, or a store into a page. -/
inductive VmmOp where
  | alloc
  | store (page i : Nat) (entry : PageEntry)

/-- The VMM by itself: its calls, for some `kmalloc` that returns a block, and stores into the pages that
it has handed out. -/
inductive VmmStep : Vmm.WalkSys → VmmOp → Vmm.WalkSys → Prop
  | alloc {s s' : Vmm.WalkSys} {kmalloc : Nat → Kern Vmm.State Nat} (hk : Vmm.Succeeds kmalloc)
      (h : Vmm.WalkStep kmalloc s () s') : VmmStep s .alloc s'
  | store {s : Vmm.WalkSys} {page i : Nat} {entry : PageEntry} {vmm : Vmm.State}
      (hpage : page ∈ s.pages.map Prod.fst) (hi : i < 1024)
      (h : Vmm.onPaging (storeEntry page i entry) s.state = .ok () vmm) :
      VmmStep s (.store page i entry) ⟨vmm, s.pages⟩

/-- A state of the heap by itself, with all its pointers and its pages, and of the VMM by itself, with
the pages it has handed out: each of these belongs to the heap, like its first page `base`, or to a
client. -/
structure Refines (base : Nat) (s : Sys) (hs : Kmalloc.Sys) (vs : Vmm.WalkSys) : Prop where
  heap : hs.heap = s.state.heap
  live : ∃ descs, hs.live.Perm (s.live ++ descs)
  vmm : vs.state = s.state.vmm
  first : base ∈ hs.pages
  pages : (hs.pages ++ s.pages).Perm (base :: vs.pages.map Prod.fst)

/-! ### The VMM -/

/-- The pages that the VMM has handed out, and the first page `base` of the heap, are different pages of
the first block, and no frames of the paging structures: these are `d` and `t`. -/
structure VmmInv (d t base : Nat) (vs : Vmm.WalkSys) : Prop where
  mapped : ∃ N ≤ 1024, Vmm.Mapped vs.state d (t + 1) N (fun _ => t) ∧
    ∀ p ∈ base :: vs.pages.map Prod.fst, ∃ n < N, n ≠ d ∧ n ≠ t ∧ p = pageAddr n
  one : vs.state.vmmBlockList.length = 1
  nodup : (base :: vs.pages.map Prod.fst).Nodup

section Vmm

variable {d t base p page i : Nat} {s s' : State} {vs : Vmm.WalkSys} {entry : PageEntry}
  {vmm : Vmm.State}

theorem VmmInv.tables (hi : VmmInv d t base vs) :
    Vmm.Tables vs.state.paging d (fun _ => t) 1 1024 := by
  obtain ⟨N, -, hm, -⟩ := hi.mapped
  have htables := hm.tables
  rw [hi.one] at htables
  exact htables.tables

/-- A page is the frame of its own number. -/
theorem VmmInv.exists_frame (hi : VmmInv d t base vs) (hp : p ∈ base :: vs.pages.map Prod.fst) :
    ∃ n < 1024, n ≠ d ∧ n ≠ t ∧ p = pageAddr n ∧ Leads (vs.state.paging.ram t n) n ∧
      vs.state.paging.frame p = some n := by
  obtain ⟨N, hN, -, hpages⟩ := hi.mapped
  obtain ⟨n, hn, hd, ht, rfl⟩ := hpages p hp
  have hlt : n < 1024 := by omega
  exact ⟨n, hlt, hd, ht, rfl, hi.tables.window n hlt (by omega),
    hi.tables.frame_window hlt (by omega)⟩

/-- **A call of `vmm_alloc_page`** gives a fresh page and writes to no frame. -/
theorem VmmInv.alloc (hi : VmmInv d t base vs) (hvs : vs.state = s.vmm)
    (h : vmmAllocPage s = .ok p s') (hsame : SameBlocks s s') :
    ∃ vs', VmmStep vs .alloc vs' ∧ VmmInv d t base vs' ∧ vs'.state = s'.vmm ∧
      vs'.pages.map Prod.fst = vs.pages.map Prod.fst ++ [p] ∧
      Kmalloc.FreshPage (base :: vs.pages.map Prod.fst) p ∧
      s'.heap = s.heap ∧ s'.vmm.paging = s.vmm.paging := by
  obtain ⟨q, hq, hcall, hheap⟩ := vmmAllocPage_cases h
  have hk := Vmm.succeeds_pure hq
  obtain ⟨N, -, hm, hpages⟩ := hi.mapped
  have hone := hi.one
  rw [hvs] at hm hone
  have hone' : s'.vmm.vmmBlockList.length = 1 := hsame.trans hone
  -- page 1021 would add a block
  obtain ⟨-, -, hlt, -, M, hlayout, hM⟩ := hm.layout.alloc (hk.serves 2) hm.le hm.flag hcall
  have hlen := hlayout.length
  have hle := hm.le
  have hN : N < 1024 ∧ N ≠ 1021 := by
    split_ifs at hlen <;> omega
  obtain ⟨v, hcall', hpaging, hm'⟩ := hm.alloc_first (fun _ => pure q) hN.1 hN.2
  rw [hcall'] at hcall
  cases hcall
  have hstep : Vmm.WalkStep (fun _ => pure q) vs () _ :=
    .alloc (hvs ▸ hcall') (by omega) fun hadds => by rw [hvs] at hadds; omega
  have haddr := Vmm.pageAddr_eq (by omega : N < 262144)
  have hfresh : pageAddr N ∉ base :: vs.pages.map Prod.fst := by
    intro hmem
    obtain ⟨n, hn, -, -, heq⟩ := hpages _ hmem
    rw [Vmm.pageAddr_inj (by omega) (by omega)] at heq
    omega
  have hmap : (vs.pages ++ [(pageAddr N,
      (kernelWalk s'.vmm.paging (pageAddr N)).map fun walk => walk.2.physAddr)]).map Prod.fst =
      vs.pages.map Prod.fst ++ [pageAddr N] := by
    rw [List.map_append, List.map_singleton]
  have hdt := hm.tables.lt
  refine ⟨_, .alloc hk hstep, ⟨⟨N + 1, hN.1, hm', fun p hp => ?_⟩, hone', ?_⟩, rfl, hmap,
    ⟨by omega, by omega, by omega, hfresh⟩, ?_, hpaging⟩
  · dsimp only at hp
    rw [hmap, ← List.cons_append] at hp
    rcases List.mem_append.mp hp with hp | hp
    · obtain ⟨n, hn, hd, ht, heq⟩ := hpages p hp
      exact ⟨n, by omega, hd, ht, heq⟩
    · exact ⟨N, Nat.lt_succ_self N, by omega, by omega, List.mem_singleton.mp hp⟩
  · dsimp only
    rw [hmap, ← List.cons_append, List.nodup_append]
    refine ⟨hi.nodup, List.nodup_singleton _, ?_⟩
    intro a ha b hb
    rw [List.mem_singleton.mp hb]
    exact fun heq => hfresh (heq ▸ ha)
  · rcases hheap with ⟨hheap, -⟩ | ⟨hadds, -⟩
    · exact hheap
    · omega

/-- **A store into a page** changes its own frame only, which is none of the paging structures. -/
theorem VmmInv.store (hi : VmmInv d t base vs) (hpage : page ∈ vs.pages.map Prod.fst) (hlt : i < 1024)
    (h : Vmm.onPaging (storeEntry page i entry) vs.state = .ok () vmm) :
    VmmStep vs (.store page i entry) ⟨vmm, vs.pages⟩ ∧ VmmInv d t base ⟨vmm, vs.pages⟩ ∧
      ∀ g, vs.state.paging.frame page ≠ some g → vmm.paging.ram g = vs.state.paging.ram g := by
  obtain ⟨n, -, hd, ht, -, -, hframe⟩ := hi.exists_frame (List.mem_cons_of_mem base hpage)
  have hstep : VmmStep vs (.store page i entry) ⟨vmm, vs.pages⟩ := .store hpage hlt h
  rw [Vmm.onPaging_ok (storeEntry_eq hframe)] at h
  cases h
  obtain ⟨N, hN, hm, hpages⟩ := hi.mapped
  refine ⟨hstep, ⟨⟨N, hN, hm.setFrame hd fun _ _ => ht, hpages⟩, hi.one, hi.nodup⟩, fun g hg => ?_⟩
  rw [hframe] at hg
  exact setFrame_ram_ne fun heq => hg (congrArg some heq.symm)

end Vmm

/-! ### A call of the heap -/

section Heap

open Kmalloc

variable {h : Heap} {free used : List Extent} {pages : List Nat} {size : Nat}

/-- No block of the free list has room for `m` bytes. -/
def NoRoom (h : Heap) (m : Nat) : Prop := ∀ x, OnList h x → ¬ HasRoom h m x

theorem kmalloc_of_cuts (hi : HeapInv h free used pages) (hcuts : Cuts h size) (h0 : size ≠ 0) :
    NoRoom h (kmallocRound size) ∨ ∃ f₁ b f₂ h₁ p, free = f₁ ++ b :: f₂ ∧ p ≠ 0 ∧
      (∀ w, Kmalloc.kmalloc w size h = .ok p h₁) ∧ ∃ used', HeapInv h₁
        (f₁ ++ ⟨b.start, b.len - (kmallocRound size + 8)⟩ :: f₂) used' pages := by
  have hround := kmallocRound_eq (hcuts h0).1
  rcases hi.firstFit_cases (kmallocRound size) with
    ⟨-, hno⟩ | ⟨f₁, b, f₂, rfl, hfind, hb8, hfirst⟩
  · exact Or.inl hno
  right
  have hbf : b ∈ f₁ ++ b :: f₂ := List.mem_append_right f₁ List.mem_cons_self
  have hmargin := (hcuts h0).2 b.start hfirst
  rw [hi.tiling.sizes b (List.mem_append_left used hbf), blockHeaderSize, smallestBlockSize] at hmargin
  obtain ⟨h₁, hsplit, hinv, -⟩ := hi.splitBlock (s := kmallocRound size)
    (n := b.start + b.len - (kmallocRound size + 8)) (by omega) (by omega) (by omega) (by omega)
  have hleft : smallestBlockSize ≤ sub32 (sub32 (h.size b.start) blockHeaderSize)
      (kmallocRound size) := by
    rw [hi.left_over hbf hb8, smallestBlockSize]
    omega
  exact ⟨f₁, b, f₂, h₁, b.start + b.len - (kmallocRound size + 8) + 8, rfl, Nat.succ_ne_zero _,
    fun w => kmalloc_of_take h0 rfl hfind (by rw [kmallocTake, if_pos hleft, hsplit])
      (Nat.succ_ne_zero _), _, hinv⟩

theorem cuts_of_noRoom (hle : size ≤ 2 ^ 32 - 8) (hnone : NoRoom h (kmallocRound size)) :
    Cuts h size := fun _ => ⟨hle, fun b hb => absurd hb.2.1 (hnone b hb.onList)⟩

end Heap

/-! ### One step -/

/-- The invariant: the heap by itself and the VMM by itself keep theirs, and the two states belong
together. -/
structure Inv (d t base : Nat) (s : Sys) (hs : Kmalloc.Sys) (vs : Vmm.WalkSys) : Prop where
  refines : Refines base s hs vs
  heap : ∃ free, Kmalloc.Inv hs free
  vmm : VmmInv d t base vs

/-- The heap by itself, as far as it is known to be safe. -/
abbrev HeapStep : Kmalloc.Sys → Kmalloc.Op → Kmalloc.Sys → Prop := Within Kmalloc.Step Kmalloc.Cuts

/-- What a step does on the two sides: the heap by itself and the VMM by itself make at most one, and the
invariant holds again. -/
def Stepped (d t base : Nat) (s' : Sys) (hs : Kmalloc.Sys) (vs : Vmm.WalkSys) : Prop :=
  ∃ hops hs' vops vs', Run HeapStep hs hops hs' ∧ hops.length ≤ 1 ∧ Run VmmStep vs vops vs' ∧
    vops.length ≤ 1 ∧ Inv d t base s' hs' vs'

/-- Only the frame behind the page that is stored into is written. -/
def KeepsFrames (s : State) (op : Op) (s' : State) : Prop :=
  ∀ g, (∀ page i entry, op = .store page i entry → s.vmm.paging.frame page ≠ some g) →
    s'.vmm.paging.ram g = s.vmm.paging.ram g

section Step

variable {d t base : Nat} {s s' : Sys} {hs : Kmalloc.Sys} {vs : Vmm.WalkSys} {op : Op}

theorem heapInv_of_step {hop : Kmalloc.Op} {hs' : Kmalloc.Sys} (hstep : HeapStep hs hop hs')
    (hi : ∃ free, Kmalloc.Inv hs free) : ∃ free, Kmalloc.Inv hs' free := by
  obtain ⟨free, hinv⟩ := hi
  exact hinv.step hstep

theorem Inv.heapInv (hi : Inv d t base s hs vs) :
    ∃ free, Kmalloc.HeapInv s.state.heap free (hs.live.map Live.block) hs.pages := by
  obtain ⟨free, hinv⟩ := hi.heap
  exact ⟨free, hi.refines.heap ▸ hinv.heap⟩

/-- No page belongs to the heap and to a client, or to two clients. -/
theorem Inv.nodup (hi : Inv d t base s hs vs) : (hs.pages ++ s.pages).Nodup :=
  hi.refines.pages.nodup_iff.mpr hi.vmm.nodup

theorem Inv.handed (hi : Inv d t base s hs vs) {page : Nat} (hpage : page ∈ s.pages) :
    page ∈ vs.pages.map Prod.fst := by
  have hmem := hi.refines.pages.subset (List.mem_append_right hs.pages hpage)
  rcases List.mem_cons.mp hmem with rfl | hmem
  · exact absurd rfl ((List.nodup_append.mp hi.nodup).2.2 _ hi.refines.first _ hpage)
  · exact hmem

theorem Inv.noRoom (hi : Inv d t base s hs vs) {size : Nat} {found : Option Nat} (h0 : size ≠ 0)
    (hcuts : Cuts s.state.heap size)
    (hfind : Kmalloc.kmallocFind s.state.heap (Kmalloc.kmallocRound size) Kmalloc.loopFuel
      s.state.heap.head = .ok found)
    (hr : (kmallocPick (Kmalloc.kmallocRound size) s.state.heap found).1 = 0) :
    found = none ∧ NoRoom s.state.heap (Kmalloc.kmallocRound size) := by
  obtain ⟨free, hheap⟩ := hi.heapInv
  have hk : Kmalloc.kmalloc (pure 0) size s.state.heap = .ok 0 (Kmalloc.kmallocGrow 0
      (kmallocPick (Kmalloc.kmallocRound size) s.state.heap found).2) := by
    rw [kmalloc_found h0 hfind]
    dsimp only
    rw [if_pos hr]
    rfl
  rcases hheap.kmalloc_cases (hcuts h0).1 (hcuts h0).2 h0 hk with ⟨-, -, hnofit⟩ | ⟨hne, -⟩
  · rcases hheap.firstFit_cases (Kmalloc.kmallocRound size) with
      ⟨hnone, hnoroom⟩ | ⟨f₁, b, f₂, -, -, -, hfirst⟩
    · rw [hnone] at hfind
      cases hfind
      exact ⟨rfl, hnoroom⟩
    · exact absurd hfirst (hnofit b.start)
  · exact absurd rfl hne

/-- **Growing the heap**: the page is fresh. -/
theorem Inv.grow (hi : Inv d t base s hs vs) {size page : Nat} {u : State} (hsize : size < 2 ^ 32)
    (h0 : size ≠ 0) (hle : size ≤ 2 ^ 32 - 8)
    (hnone : NoRoom s.state.heap (Kmalloc.kmallocRound size))
    (h : vmmAllocPage s.state = .ok page u) (hsame : SameBlocks s.state u) :
    Stepped d t base ⟨⟨u.vmm, Kmalloc.kmallocGrow page u.heap⟩, s.live, s.pages⟩ hs vs := by
  obtain ⟨vs', hvstep, hv, hvs, hmap, hfresh, hheap, -⟩ := hi.vmm.alloc hi.refines.vmm h hsame
  obtain ⟨free, hinv⟩ := hi.heap
  have hperm := hi.refines.pages
  rw [← hi.refines.heap] at hnone hheap
  have hpage : Kmalloc.FreshPage hs.pages page := ⟨hfresh.aligned, hfresh.pos, hfresh.le, fun hmem =>
    hfresh.not_mem (hperm.subset (List.mem_append_left _ hmem))⟩
  have hgrow : HeapStep hs (.kmalloc size page)
      ⟨Kmalloc.kmallocGrow page hs.heap, hs.live, if size = 0 then hs.pages else page :: hs.pages⟩ :=
    ⟨cuts_of_noRoom hle hnone, .null hsize (fun _ => hpage)
      (hinv.heap.kmalloc_of_no_room page h0 hnone)⟩
  rw [if_neg h0] at hgrow
  refine ⟨_, _, _, vs', .single hgrow, le_rfl, .single hvstep, le_rfl,
    ⟨congrArg (Kmalloc.kmallocGrow page) hheap.symm, hi.refines.live, hvs,
      List.mem_cons_of_mem page hi.refines.first, ?_⟩, heapInv_of_step hgrow hi.heap, hv⟩
  dsimp only
  rw [hmap]
  exact (hperm.cons page).trans (List.perm_append_singleton page _).symm

/-- **One step** is at most one step of the heap by itself and one of the VMM by itself. -/
theorem Inv.step (hi : Inv d t base s hs vs) (h : Step s op s') : Stepped d t base s' hs vs := by
  obtain ⟨hheap, ⟨descs, hlive⟩, hvmm, hfirst, hpages⟩ := hi.refines
  -- the steps that the heap makes by itself
  have hself : ∀ (hop : Kmalloc.Op) {hs'}, HeapStep hs hop hs' → Refines base s' hs' vs →
      Stepped d t base s' hs vs := fun _ _ hstep hr =>
    ⟨_, _, [], vs, .single hstep, le_rfl, .nil, Nat.zero_le 1, hr, heapInv_of_step hstep hi.heap, hi.vmm⟩
  cases h with
  | @null size u hsize h hcuts hsame =>
    rcases kmalloc_cases h with ⟨-, -, rfl⟩ | ⟨-, hne, -⟩ | ⟨h0, -, found, page, v, hfind, hr, hv, rfl⟩
    · exact ⟨[], hs, [], vs, .nil, Nat.zero_le 1, .nil, Nat.zero_le 1,
        ⟨hheap, ⟨descs, hlive⟩, hvmm, hfirst, hpages⟩, hi.heap, hi.vmm⟩
    · exact absurd rfl hne
    · obtain ⟨rfl, hnone⟩ := hi.noRoom h0 hcuts hfind hr
      exact hi.grow hsize h0 (hcuts h0).1 hnone hv hsame
  | @kmalloc size p u hsize h hp hcuts =>
    rcases kmalloc_cases h with ⟨-, h0, -⟩ | ⟨-, -, hsame, hkmalloc⟩ | ⟨-, h0, -⟩
    · exact absurd h0 hp
    · rw [← hheap] at hcuts hkmalloc
      exact hself (.kmalloc size 0) ⟨hcuts, .kmalloc hsize (hkmalloc _) hp⟩
        ⟨rfl, ⟨descs, hlive.cons _⟩, hvmm.trans hsame.symm, hfirst, hpages⟩
    · exact absurd h0 hp
  | @kfreeNull u h =>
    obtain ⟨heap, hfree, rfl⟩ := Kern.of_zoom_eq_ok h
    rw [← hheap] at hfree
    exact hself (.kfree 0) ⟨trivial, .kfreeNull hfree⟩ ⟨rfl, ⟨descs, hlive⟩, hvmm, hfirst, hpages⟩
  | @kfree l u hl h =>
    obtain ⟨heap, hfree, rfl⟩ := Kern.of_zoom_eq_ok h
    rw [← hheap] at hfree
    have hmem : l ∈ hs.live := hlive.mem_iff.mpr (List.mem_append_left _ hl)
    refine hself (.kfree l.ptr) ⟨trivial, .kfree hmem hfree⟩
      ⟨rfl, ⟨descs, ?_⟩, hvmm, hfirst, hpages⟩
    have herase := hlive.erase l
    rwa [List.erase_append_left _ hl] at herase
  | @write l a v hl hal ha =>
    have hmem : l ∈ hs.live := hlive.mem_iff.mpr (List.mem_append_left _ hl)
    exact hself (.write a v) ⟨trivial, .write hmem hal ha⟩
      ⟨congrArg (fun heap : Kmalloc.Heap => heap.store a v) hheap, ⟨descs, hlive⟩, hvmm, hfirst, hpages⟩
  | @alloc p u h hsame =>
    obtain ⟨vs', hvstep, hv, hvs, hmap, -, hheap', -⟩ := hi.vmm.alloc hvmm h hsame
    refine ⟨[], hs, _, vs', .nil, Nat.zero_le 1, .single hvstep, le_rfl,
      ⟨hheap.trans hheap'.symm, ⟨descs, hlive⟩, hvs, hfirst, ?_⟩, hi.heap, hv⟩
    dsimp only
    rw [hmap, ← List.append_assoc, ← List.cons_append]
    exact hpages.append_right [p]
  | @store page i entry vmm hpage hlt h =>
    rw [← hvmm] at h
    obtain ⟨hvstep, hv, -⟩ := hi.vmm.store (hi.handed hpage) hlt h
    exact ⟨[], hs, _, _, .nil, Nat.zero_le 1, .single hvstep, le_rfl,
      ⟨hheap, ⟨descs, hlive⟩, rfl, hfirst, hpages⟩, hi.heap, hv⟩

/-- **No call writes to a frame**, and a store to the frame of its own page only. -/
theorem Inv.keepsFrames (hi : Inv d t base s hs vs) (h : Step s op s') :
    KeepsFrames s.state op s'.state := by
  have hvmm := hi.refines.vmm
  intro g hg
  cases h with
  | @null size u hsize h hcuts hsame =>
    rcases kmalloc_cases h with ⟨-, -, rfl⟩ | ⟨-, hne, -⟩ | ⟨h0, -, found, page, v, hfind, hr, hv, rfl⟩
    · rfl
    · exact absurd rfl hne
    · obtain ⟨rfl, -⟩ := hi.noRoom h0 hcuts hfind hr
      obtain ⟨-, -, -, -, -, -, -, hpaging⟩ := hi.vmm.alloc hvmm hv hsame
      exact congrArg (fun m : Paging.Mem => m.ram g) hpaging
  | @kmalloc size p u hsize h hp hcuts =>
    rcases kmalloc_cases h with ⟨-, h0, -⟩ | ⟨-, -, hsame, -⟩ | ⟨-, h0, -⟩
    · exact absurd h0 hp
    · exact congrArg (fun vmm : Vmm.State => vmm.paging.ram g) hsame
    · exact absurd h0 hp
  | kfreeNull h =>
    obtain ⟨heap, -, rfl⟩ := Kern.of_zoom_eq_ok h
    rfl
  | kfree hl h =>
    obtain ⟨heap, -, rfl⟩ := Kern.of_zoom_eq_ok h
    rfl
  | write => rfl
  | alloc h hsame =>
    obtain ⟨-, -, -, -, -, -, -, hpaging⟩ := hi.vmm.alloc hvmm h hsame
    exact congrArg (fun m : Paging.Mem => m.ram g) hpaging
  | store hpage hlt h =>
    have hframe := hg _ _ _ rfl
    rw [← hvmm] at h hframe ⊢
    obtain ⟨-, -, hram⟩ := hi.vmm.store (hi.handed hpage) hlt h
    exact hram g hframe

end Step

/-! ### Runs -/

/-- A boot, after which the heap has given out the descriptor of the first block.  There was no block
of pages yet, so the heap could not grow. -/
structure Boots (image : KernelImage) (mbt : Pmm.MultibootInfo) (junk : Nat)
    (ram : Nat → Nat → PageEntry) (d t : Nat) (s : State) : Prop where
  vmm : Vmm.Boots image mbt junk ram d t s.vmm
  heap : ∃ p, Kmalloc.kmalloc (fun h => .error (.panic "out of memory\n") h) Vmm.sizeofVmmBlockDesc
    (Kmalloc.kmallocInit image.kmallocInitBlock fun _ => 0) = .ok p s.heap

section Runs

variable {image : KernelImage} {mbt : Pmm.MultibootInfo} {junk d t : Nat}
  {ram : Nat → Nat → PageEntry} {s₀ : State} {s : Sys} {ops : List Op}

theorem Boots.firstBlock (h : Boots image mbt junk ram d t s₀) :
    ∃ p used, p ≠ 0 ∧ (∀ w, Kmalloc.kmalloc w Vmm.sizeofVmmBlockDesc
      (Kmalloc.kmallocInit image.kmallocInitBlock fun _ => 0) = .ok p s₀.heap) ∧
      Kmalloc.FirstBlock s₀.heap image.kmallocInitBlock 3936 used := by
  have hfirst := Kmalloc.FirstBlock.init (Vmm.freshPage_kmallocInitBlock image) fun _ => 0
  have hround : Kmalloc.kmallocRound Vmm.sizeofVmmBlockDesc = 152 := rfl
  obtain ⟨p, hp⟩ := h.heap
  obtain ⟨h₁, hk, hf⟩ := hfirst.cut (fun h => .error (.panic "out of memory\n") h) (by decide) hround
    (by decide) (by decide) (by decide)
  rw [hk] at hp
  cases hp
  have hne : image.kmallocInitBlock + (4096 - 152) ≠ 0 := by omega
  exact ⟨_, _, hne, kmalloc_congr hk hne, hf⟩

theorem Boots.base (h : Boots image mbt junk ram d t s₀) :
    ∃ n < d, image.kmallocInitBlock = pageAddr n := by
  have hge := image.block_ge
  have hle := image.block_le
  have hmod := image.block_mod
  have hstart := image.start_ge
  have hkernel := h.vmm.kernel_le
  obtain ⟨hb, g, pmm₁, hinit, hd, ht⟩ := h.vmm.booted_pmm
  obtain ⟨habove, hdt⟩ := Vmm.frames_above (Vmm.pmmInit_startingAddr hinit) hkernel
    h.vmm.directory_pos h.vmm.table_pos hd ht
  rw [kernelBaseAddrVirt] at *
  refine ⟨(image.kmallocInitBlock - 0xC0000000) / 4096, by omega, ?_⟩
  rw [Vmm.pageAddr_eq (by omega)]
  omega

theorem Boots.inv (h : Boots image mbt junk ram d t s₀) : ∃ hops hs,
    Run HeapStep (.init image.kmallocInitBlock fun _ => 0) hops hs ∧
      Inv d t image.kmallocInitBlock ⟨s₀, [], []⟩ hs ⟨s₀.vmm, []⟩ := by
  obtain ⟨p, used, hp, hk, hf⟩ := h.firstBlock
  obtain ⟨n, hn, hbase⟩ := h.base
  have hfresh := Vmm.freshPage_kmallocInitBlock image
  have hcuts : Cuts (Kmalloc.kmallocInit image.kmallocInitBlock fun _ => 0) Vmm.sizeofVmmBlockDesc :=
    (Kmalloc.FirstBlock.init hfresh fun _ => 0).cuts 0 (by decide) (by decide)
  have hstep : HeapStep (.init image.kmallocInitBlock fun _ => 0) (.kmalloc Vmm.sizeofVmmBlockDesc 0)
      ⟨s₀.heap, [⟨p, Vmm.sizeofVmmBlockDesc⟩], [image.kmallocInitBlock]⟩ :=
    ⟨hcuts, .kmalloc (by decide) (hk _) hp⟩
  have hm := h.vmm.mapped
  have hdt := hm.tables.lt
  have htl := h.vmm.booted.table_lt
  refine ⟨_, _, .single hstep,
    ⟨rfl, ⟨[_], List.Perm.refl _⟩, rfl, List.mem_cons_self, List.Perm.refl _⟩,
    heapInv_of_step hstep ⟨_, Kmalloc.HeapInv.init hfresh fun _ => 0, fun l hl =>
      absurd hl List.not_mem_nil⟩, ⟨⟨t + 1, by omega, hm, fun p hp => ?_⟩, ?_, List.nodup_singleton _⟩⟩
  · rw [List.mem_singleton.mp hp]
    exact ⟨n, by omega, by omega, by omega, hbase⟩
  · rw [hm.layout.length]
    split_ifs <;> omega

theorem inv_of_run (h : Boots image mbt junk ram d t s₀) (hrun : Run Step ⟨s₀, [], []⟩ ops s) :
    ∃ hops hs vops vs, Run HeapStep (.init image.kmallocInitBlock fun _ => 0) hops hs ∧
      Run VmmStep ⟨s₀.vmm, []⟩ vops vs ∧ Inv d t image.kmallocInitBlock s hs vs := by
  refine hrun.invariant (I := fun s => ∃ hops hs vops vs, Run HeapStep _ hops hs ∧
    Run VmmStep _ vops vs ∧ Inv d t image.kmallocInitBlock s hs vs) ?_ ?_
  · rintro s op s' ⟨hops, hs, vops, vs, hheap, hvmm, hi⟩ hstep
    obtain ⟨hops', hs', vops', vs', hheap', -, hvmm', -, hi'⟩ := hi.step hstep
    exact ⟨_, hs', _, vs', hheap.trans hheap', hvmm.trans hvmm', hi'⟩
  · obtain ⟨hops, hs, hheap, hi⟩ := h.inv
    exact ⟨hops, hs, [], _, hheap, .nil, hi⟩

/-- **The two allocators refine the two models.**  Every run after a boot is, on the heap's side, a run
of the heap by itself from `kmalloc_init` on, in which the pages it gets are fresh; on the VMM's side, a
run of the VMM by itself; and each page that the VMM has handed out belongs to the heap or to a
client. -/
theorem refines_of_run (h : Boots image mbt junk ram d t s₀) (hrun : Run Step ⟨s₀, [], []⟩ ops s) :
    ∃ hops hs vops vs, Run HeapStep (.init image.kmallocInitBlock fun _ => 0) hops hs ∧
      Run VmmStep ⟨s₀.vmm, []⟩ vops vs ∧ Refines image.kmallocInitBlock s hs vs := by
  obtain ⟨hops, hs, vops, vs, hheap, hvmm, hi⟩ := inv_of_run h hrun
  exact ⟨hops, hs, vops, vs, hheap, hvmm, hi.refines⟩

end Runs

/-! ### Safety -/

/-- The address is mapped for writing, to the frame of the same number, which is not a frame of the
paging structures. -/
def Backed (m : Paging.Mem) (a : Nat) : Prop :=
  ∃ pde pte, kernelWalk m a = some (pde, pte) ∧ pde.rW = true ∧ pte.rW = true ∧
    a / 4096 = 0xC0000 + pte.physAddr ∧ pte.physAddr ≠ pde.physAddr ∧
    pte.physAddr ≠ v2pAddr m.kernelPageDirectory >>> 12

/-- The bytes of a page. -/
def pageExtent (p : Nat) : Extent := ⟨p, 4096⟩

/-- **Safety of the two allocators.**  The heap is safe; the pages of the clients are apart from each
other, from the blocks around the payloads and from the free blocks; and all of these are mapped for
writing, each page to the frame of its own number, so that the frames are apart as well. -/
structure Safe (s : Sys) : Prop where
  heap : Kmalloc.HeapSafe ⟨s.state.heap, s.live, []⟩
  separate : Separate (s.pages.map pageExtent)
  apart : ∀ l ∈ s.live, ∀ p ∈ s.pages, Apart l.block (pageExtent p)
  free : ∀ b, Kmalloc.OnList s.state.heap b → ∀ p ∈ s.pages,
    Apart ⟨b, s.state.heap.size b⟩ (pageExtent p)
  block : ∀ l ∈ s.live, ∀ a, l.block.Mem a → Backed s.state.vmm.paging a
  freeBlock : ∀ b, Kmalloc.OnList s.state.heap b → ∀ a, (⟨b, s.state.heap.size b⟩ : Extent).Mem a →
    Backed s.state.vmm.paging a
  page : ∀ p ∈ s.pages, ∀ a, (pageExtent p).Mem a → Backed s.state.vmm.paging a

theorem kernelWalk_page (m : Paging.Mem) {n a : Nat} (hn : n < 262144)
    (ha : (pageExtent (pageAddr n)).Mem a) : kernelWalk m a = kernelWalk m (pageAddr n) := by
  have haddr := Vmm.pageAddr_eq hn
  obtain ⟨hlo, hhi⟩ := ha
  unfold pageExtent at hlo hhi
  dsimp only at hlo hhi
  have hdir : pageDirectoryIndex a = pageDirectoryIndex (pageAddr n) := by
    rw [pageDirectoryIndex_eq, pageDirectoryIndex_eq]
    omega
  have htab : pageTableIndex a = pageTableIndex (pageAddr n) := by
    rw [pageTableIndex_eq, pageTableIndex_eq]
    omega
  rw [kernelWalk, kernelWalk, hdir, htab]

/-- **The pages that were handed out**, and the first page of the heap, are mapped. -/
theorem VmmInv.backed {d t base p : Nat} {vs : Vmm.WalkSys} (hi : VmmInv d t base vs)
    (hp : p ∈ base :: vs.pages.map Prod.fst) :
    p % 4096 = 0 ∧ 0 < p ∧ p + 4096 ≤ 2 ^ 32 ∧
      ∀ a, (pageExtent p).Mem a → Backed vs.state.paging a := by
  obtain ⟨n, hn, hd, ht, rfl, hleads, -⟩ := hi.exists_frame hp
  have haddr := Vmm.pageAddr_eq (by omega : n < 262144)
  refine ⟨by omega, by omega, by omega, fun a ha => ?_⟩
  have htables := hi.tables
  have hdiv : n / 1024 = 0 := Nat.div_eq_of_lt hn
  have hwalk := htables.kernelWalk_eq (n := n) (g := n) (by omega)
    (by rw [Nat.mod_eq_of_lt hn]; exact hleads)
  rw [hdiv, Nat.mod_eq_of_lt hn] at hwalk
  have hpde := htables.directory 0 Nat.one_pos
  obtain ⟨hlo, hhi⟩ := ha
  unfold pageExtent at hlo hhi
  dsimp only at hlo hhi
  refine ⟨_, _, (kernelWalk_page _ (by omega) ⟨hlo, hhi⟩).trans hwalk, hpde.rW, hleads.rW, ?_, ?_, ?_⟩
  · rw [hleads.physAddr]
    omega
  · rw [hleads.physAddr, hpde.physAddr]
    exact ht
  · rw [hleads.physAddr, htables.kernel_frame]
    exact hd

theorem Inv.backed {d t base : Nat} {s : Sys} {hs : Kmalloc.Sys} {vs : Vmm.WalkSys} {b : Extent}
    (hi : Inv d t base s hs vs) (hb : Kmalloc.Fit hs.pages b) {a : Nat} (ha : b.Mem a) :
    Backed s.state.vmm.paging a := by
  obtain ⟨q, hq, hlo, hhi⟩ := hb.within a ha
  have hmem := hi.refines.pages.subset (List.mem_append_left s.pages hq)
  rw [← hi.refines.vmm]
  exact (hi.vmm.backed hmem).2.2.2 a ⟨hlo, hhi⟩

/-- **The invariant implies safety.** -/
theorem Inv.safe {d t base : Nat} {s : Sys} {hs : Kmalloc.Sys} {vs : Vmm.WalkSys}
    (hi : Inv d t base s hs vs) : Safe s := by
  obtain ⟨free, hinv⟩ := hi.heap
  obtain ⟨descs, hlive⟩ := hi.refines.live
  have hheap := hi.refines.heap
  have hsafe := hinv.heapSafe
  have hmem : ∀ l ∈ s.live, l ∈ hs.live := fun l hl =>
    hlive.mem_iff.mpr (List.mem_append_left _ hl)
  have hpage : ∀ p ∈ s.pages, _ := fun p hp =>
    hi.vmm.backed (List.mem_cons_of_mem base (hi.handed hp))
  rw [hi.refines.vmm] at hpage
  -- a page of a client is no page of the heap
  have hfresh : ∀ p ∈ s.pages, Kmalloc.FreshPage hs.pages p := by
    intro p hp
    obtain ⟨hmod, hpos, hle, -⟩ := hpage p hp
    exact ⟨hmod, hpos, hle, fun hin => (List.nodup_append.mp hi.nodup).2.2 p hin p hp rfl⟩
  have hfit : ∀ l ∈ s.live, Kmalloc.Fit hs.pages l.block := fun l hl =>
    hinv.heap.tiling.fit _ (List.mem_append_right free (List.mem_map_of_mem (hmem l hl)))
  -- the blocks of the list
  have hlist : ∀ b, Kmalloc.OnList s.state.heap b →
      Kmalloc.Fit hs.pages ⟨b, s.state.heap.size b⟩ := by
    intro b hb
    rw [← hheap] at hb ⊢
    obtain ⟨c, hc, rfl⟩ := hinv.heap.mem_of_onList hb
    rw [hinv.heap.tiling.sizes c (List.mem_append_left _ hc)]
    exact hinv.heap.tiling.fit c (List.mem_append_left _ hc)
  refine ⟨⟨?_, fun l hl => hsafe.aligned l (hmem l hl), fun l hl b hb => ?_⟩, ?_, ?_, ?_, ?_, ?_, ?_⟩
  · have hsep := hsafe.disjoint.perm (hlive.map Live.payload)
    rw [List.map_append] at hsep
    exact hsep.sublist (List.sublist_append_left _ _)
  · rw [← hheap] at hb ⊢
    exact hsafe.free l (hmem l hl) b hb
  · rw [Separate, List.pairwise_map]
    have hclient := (List.nodup_append.mp hi.nodup).2.1
    refine List.Pairwise.imp_of_mem ?_ hclient
    intro p q hp hq hne
    have hpm := (hfresh p hp).aligned
    have hqm := (hfresh q hq).aligned
    unfold Apart pageExtent
    dsimp only
    omega
  · exact fun l hl p hp => Kmalloc.Tiling.apart_fresh (hfit l hl) (hfresh p hp) hinv.heap.aligned
  · exact fun b hb p hp => Kmalloc.Tiling.apart_fresh (hlist b hb) (hfresh p hp) hinv.heap.aligned
  · exact fun l hl a ha => hi.backed (hfit l hl) ha
  · exact fun b hb a ha => hi.backed (hlist b hb) ha
  · exact fun p hp a ha => (hpage p hp).2.2.2 a ha

section Runs

variable {image : KernelImage} {mbt : Pmm.MultibootInfo} {junk d t : Nat}
  {ram : Nat → Nat → PageEntry} {s₀ : State} {s : Sys} {ops : List Op}

/-- **The two allocators are safe together**, in every state of a run after a boot: what the clients got
from them is apart, and mapped for writing, and the next step writes to no frame behind it unless it is
a store into it. -/
theorem safe_of_run (h : Boots image mbt junk ram d t s₀) (hrun : Run Step ⟨s₀, [], []⟩ ops s) :
    Safe s ∧ ∀ op s', Step s op s' → KeepsFrames s.state op s'.state := by
  obtain ⟨_, _, _, _, -, -, hi⟩ := inv_of_run h hrun
  exact ⟨hi.safe, fun _ _ hstep => hi.keepsFrames hstep⟩

end Runs

/-! ### A run -/

theorem exists_boots {image : KernelImage} {mbt : Pmm.MultibootInfo} {junk d t : Nat}
    {ram : Nat → Nat → PageEntry} {vmm : Vmm.State} (h : Vmm.Boots image mbt junk ram d t vmm) :
    ∃ heap, Boots image mbt junk ram d t ⟨vmm, heap⟩ := by
  have hround : Kmalloc.kmallocRound Vmm.sizeofVmmBlockDesc = 152 := rfl
  obtain ⟨heap, hk, -⟩ := (Kmalloc.FirstBlock.init (Vmm.freshPage_kmallocInitBlock image)
    fun _ => 0).cut _ (by decide) hround (by decide) (by decide) (by decide)
  exact ⟨heap, h, _, hk⟩

theorem Boots.step_kmalloc {image : KernelImage} {mbt : Pmm.MultibootInfo} {junk d t size r : Nat}
    {ram : Nat → Nat → PageEntry} {s₀ : State} (h : Boots image mbt junk ram d t s₀)
    (h0 : size ≠ 0) (hle : size ≤ 2 ^ 32 - 8) (hround : Kmalloc.kmallocRound size = r) (hmod : r % 8 = 0)
    (h8 : 8 ≤ r) (hr : r + 8 + 32 ≤ 3936) : ∃ p heap used,
      Step ⟨s₀, [], []⟩ (.kmalloc size) ⟨⟨s₀.vmm, heap⟩, [⟨p, size⟩], []⟩ ∧
        Kmalloc.FirstBlock heap image.kmallocInitBlock (3936 - (r + 8)) used := by
  obtain ⟨-, used, -, -, hf⟩ := h.firstBlock
  obtain ⟨heap, hk, hf'⟩ := hf.cut (pure 0) h0 hround hmod h8 hr
  have hcuts : Cuts s₀.heap size := hf.cuts 0 hle (hround.symm ▸ hr)
  have hp : image.kmallocInitBlock + (3936 - r) ≠ 0 := by omega
  exact ⟨_, heap, _, .kmalloc (by omega) (kmalloc_ok hk hp) hp hcuts, hf'⟩

/-- After the boot of the small kernel: 16 bytes, a page, and a store into the page. -/
theorem run_smallImage : ∃ s₀ s, Boots Pmm.smallImage Pmm.solidMap 0 (fun _ _ => {}) 385 386 s₀ ∧
    Run Step ⟨s₀, [], []⟩ [.kmalloc 16, .alloc, .store 0xC0183000 0 { present := true }] s ∧
      s.live.map Live.size = [16] ∧ s.pages = [0xC0183000] ∧
      s.state.vmm.paging.ram 387 0 = { present := true } := by
  obtain ⟨vmm, hvmm⟩ := Vmm.exists_boots_smallImage
  obtain ⟨heap, hb⟩ := exists_boots hvmm
  have hround : Kmalloc.kmallocRound 16 = 16 := rfl
  obtain ⟨p, heap₁, -, hstep, -⟩ := hb.step_kmalloc (by decide) (by decide) hround (by decide)
    (by decide) (by decide)
  obtain ⟨vmm', hcall, -, hm⟩ := hvmm.mapped.alloc_first
    (fun size => vmmPart heap₁ (kmalloc size)) (by decide) (by decide)
  rw [← vmmAllocPage_vmm] at hcall
  obtain ⟨heap₂, hcall⟩ := of_vmmPart_eq_ok (s := ⟨vmm, heap₁⟩) hcall
  have hlen' : vmm'.vmmBlockList.length = 1 := hm.layout.length
  have hsame : SameBlocks ⟨vmm, heap₁⟩ ⟨vmm', heap₂⟩ := hlen'.trans hvmm.mapped.layout.length.symm
  have htables := hm.tables.tables
  rw [hlen'] at htables
  have hframe : vmm'.paging.frame 0xC0183000 = some 387 :=
    htables.frame_window (i := 387) (by decide) (by decide)
  refine ⟨_, _, hb, .cons hstep (.cons (.alloc hcall hsame) (.single (.store List.mem_cons_self
    (by decide) (Vmm.onPaging_ok (storeEntry_eq hframe))))), rfl, rfl, ?_⟩
  dsimp only
  rw [setFrame_ram_self, Function.update_self]

theorem refines_smallImage : ∃ (s : Sys) (hs : Kmalloc.Sys) (vs : Vmm.WalkSys), s.pages = [0xC0183000] ∧
    Refines Pmm.smallImage.kmallocInitBlock s hs vs := by
  obtain ⟨s₀, s, hb, hrun, -, hpages, -⟩ := run_smallImage
  obtain ⟨-, hs, -, vs, -, -, hr⟩ := refines_of_run hb hrun
  exact ⟨s, hs, vs, hpages, hr⟩

theorem safe_smallImage : ∃ s : Sys, s.live.map Live.size = [16] ∧ s.pages = [0xC0183000] ∧
    s.state.vmm.paging.ram 387 0 = { present := true } ∧
    Safe s ∧ ∀ op s', Step s op s' → KeepsFrames s.state op s'.state := by
  obtain ⟨s₀, s, hb, hrun, hlive, hpages, hword⟩ := run_smallImage
  exact ⟨s, hlive, hpages, hword, safe_of_run hb hrun⟩

end Aosis.Memory.Allocators
