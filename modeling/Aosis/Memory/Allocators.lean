import Aosis.Memory.VmmLayout

/-!
# The two allocators together

`kmalloc` calls `vmm_alloc_page` when the heap has to grow, and `vmm_alloc_page` calls `kmalloc`
when it needs a descriptor for a new block.  The static variable `allocating_new_block` keeps the two
from calling each other without end: the page that the inner `kmalloc` asks for comes without a new
block.

The heap and the VMM are taken from their own modules, with each the other's parameter.

* `recursion_iff`: the equations of the two functions have exactly one solution.
* `kmalloc_cases`, `vmmAllocPage_cases`: what a call that returns has done to the heap and to the VMM, in
  terms of the two modules.
-/

namespace Aosis.Memory.Allocators

open Aosis.Memory.Vmm (VmmBlockDesc)

/-- The VMM, with the paging structures, and the heap. -/
structure State where
  vmm : Vmm.State
  heap : Kmalloc.Heap

/-! ### The source -/

/-- A part of the VMM that does not call `kmalloc`. -/
def onVmm {α : Type} (x : Kern Vmm.State α) : Kern State α :=
  x.zoom State.vmm fun vmm s => { s with vmm := vmm }

/-- `kmalloc`. -/
def kmallocWith (vmm_alloc_page : Kern State Nat) (size : Nat) : Kern State Nat := fun s =>
  if size = 0 then .ok 0 s
  else
    let alloc_size := Kmalloc.kmallocRound size
    match Kmalloc.kmallocFind s.heap alloc_size Kmalloc.loopFuel s.heap.head with
    | .error e => .error e s
    | .ok found =>
      let (alloc_ptr, heap) := match found with
        | some block => Kmalloc.kmallocTake block alloc_size s.heap
        | none => (0, s.heap)
      if alloc_ptr = 0 then
        match vmm_alloc_page { s with heap := heap } with
        | .error e s => .error e s
        | .ok page s => .ok 0 { s with heap := Kmalloc.kmallocGrow page s.heap }
      else .ok alloc_ptr { s with heap := heap }

/-- `vmm_add_vmm_block`: the call of `kmalloc`, and what follows it. -/
def vmmAddVmmBlock (kmalloc : Nat → Kern State Nat) (vmm_block : VmmBlockDesc) : Kern State Unit := do
  let new_vmm_block ← kmalloc Vmm.sizeofVmmBlockDesc
  onVmm (Vmm.vmmAddVmmBlock (fun _ => pure new_vmm_block) vmm_block)

/-- `allocating_new_block = v`. -/
def setAllocatingNewBlock (v : Bool) : Kern State Unit :=
  onVmm (modify fun vmm => { vmm with allocatingNewBlock := v })

/-- The part of `vmm_alloc_page` that adds a block when the last one, at place `k`, is nearly
full. -/
def vmmReserveBlock (kmalloc : Nat → Kern State Nat) (k : Nat) (vmm_block : VmmBlockDesc) :
    Kern State Unit := fun s =>
  if vmm_block.highWaterMark = Vmm.highWaterThreshold ∧ k + 1 = s.vmm.vmmBlockList.length ∧
      s.vmm.allocatingNewBlock = false then
    (do
      setAllocatingNewBlock true
      vmmAddVmmBlock kmalloc vmm_block
      setAllocatingNewBlock false : Kern State Unit) s
  else .ok () s

/-- `vmm_alloc_page`. -/
def vmmAllocPageWith (kmalloc : Nat → Kern State Nat) : Kern State Nat := fun s =>
  match Vmm.vmmFindPage s.vmm.vmmBlockList with
  | none => .error (.panic "out of memory\n") s
  | some (k, vmm_page, vmm_block) =>
    let s := { s with vmm := { s.vmm with vmmBlockList := s.vmm.vmmBlockList.set k vmm_block } }
    if vmm_page = 0 then .error (.panic "out of memory\n") s
    else
      (do
        vmmReserveBlock kmalloc k vmm_block
        onVmm (Vmm.vmmMapPage vmm_page vmm_block) : Kern State Nat) s

mutual

/-- `kmalloc`, with at most `depth` calls inside each other. -/
def kmallocDepth : Nat → Nat → Kern State Nat
  | 0, _ => throw .diverge
  | depth + 1, size => kmallocWith (vmmAllocPageDepth depth) size

/-- `vmm_alloc_page`, with at most `depth` calls inside each other. -/
def vmmAllocPageDepth : Nat → Kern State Nat
  | 0 => throw .diverge
  | depth + 1 => vmmAllocPageWith (kmallocDepth depth)

end

/-- `kmalloc`. -/
def kmalloc (size : Nat) : Kern State Nat := kmallocDepth 4 size

/-- `vmm_alloc_page`. -/
def vmmAllocPage : Kern State Nat := vmmAllocPageDepth 4

/-- `kfree`. -/
def kfree (ptr : Nat) : Kern State Unit :=
  (Kmalloc.kfree ptr).zoom State.heap fun heap s => { s with heap := heap }

/-! ### The recursion ends -/

/-- The two functions agree while a block is being added. -/
def AgreeNested {α : Type} (x y : Kern State α) : Prop :=
  ∀ s, s.vmm.allocatingNewBlock = true → x s = y s

section Recursion

variable {k k' : Nat → Kern State Nat} {v v' : Kern State Nat}

/-- While a block is being added, `vmm_alloc_page` does not call `kmalloc`. -/
theorem vmmAllocPageWith_nested (k k' : Nat → Kern State Nat) :
    AgreeNested (vmmAllocPageWith k) (vmmAllocPageWith k') := by
  intro s hflag
  have hstay : ∀ (k : Nat → Kern State Nat) (j : Nat) (d : VmmBlockDesc) (t : State),
      t.vmm.allocatingNewBlock = true → vmmReserveBlock k j d t = .ok () t := by
    intro k j d t ht
    rw [vmmReserveBlock, if_neg]
    rintro ⟨-, -, hclear⟩
    exact absurd (ht.symm.trans hclear) (by decide)
  rw [vmmAllocPageWith, vmmAllocPageWith]
  split
  · rfl
  · dsimp only
    split
    · rfl
    · next j page d _ _ =>
      have ht : ({ s with vmm := { s.vmm with
        vmmBlockList := s.vmm.vmmBlockList.set j d } } : State).vmm.allocatingNewBlock = true := hflag
      rw [Kern.bind_ok (hstay k j d _ ht), Kern.bind_ok (hstay k' j d _ ht)]

/-- `kmalloc` calls `vmm_alloc_page` before anything else can change the variable. -/
theorem kmallocWith_nested (h : AgreeNested v v') (size : Nat) :
    AgreeNested (kmallocWith v size) (kmallocWith v' size) := by
  intro s hflag
  rw [kmallocWith, kmallocWith]
  split
  · rfl
  · dsimp only
    split
    · rfl
    · next found _ =>
      have ht : ∀ heap, v { s with heap := heap } = v' { s with heap := heap } := fun _ => h _ hflag
      rw [ht]

/-- `vmm_alloc_page` calls `kmalloc` only while it is adding a block. -/
theorem vmmAllocPageWith_congr (h : ∀ size, AgreeNested (k size) (k' size)) :
    vmmAllocPageWith k = vmmAllocPageWith k' := by
  have hreserve : vmmReserveBlock k = vmmReserveBlock k' := by
    funext j d s
    have hadd : vmmAddVmmBlock k d { s with vmm := { s.vmm with allocatingNewBlock := true } } =
        vmmAddVmmBlock k' d { s with vmm := { s.vmm with allocatingNewBlock := true } } := by
      show EStateM.bind _ _ _ = EStateM.bind _ _ _
      rw [EStateM.bind, EStateM.bind, h _ _ rfl]
    have hset : setAllocatingNewBlock true s =
        .ok () { s with vmm := { s.vmm with allocatingNewBlock := true } } := rfl
    rw [vmmReserveBlock, vmmReserveBlock]
    split
    · rw [Kern.bind_ok hset, Kern.bind_ok hset]
      show EStateM.bind _ _ _ = EStateM.bind _ _ _
      rw [EStateM.bind, EStateM.bind, hadd]
    · rfl
  funext s
  rw [vmmAllocPageWith, vmmAllocPageWith, hreserve]

/-- The equations of the two functions. -/
def Solves (k : Nat → Kern State Nat) (v : Kern State Nat) : Prop :=
  (∀ size, k size = kmallocWith v size) ∧ v = vmmAllocPageWith k

theorem Solves.unique (h : Solves k v) (h' : Solves k' v') : k = k' ∧ v = v' := by
  have hv : AgreeNested v v' := by
    rw [h.2, h'.2]
    exact vmmAllocPageWith_nested k k'
  have hk : ∀ size, AgreeNested (k size) (k' size) := by
    intro size
    rw [h.1, h'.1]
    exact kmallocWith_nested hv size
  have hveq : v = v' := by
    rw [h.2, h'.2]
    exact vmmAllocPageWith_congr hk
  refine ⟨?_, hveq⟩
  funext size
  rw [h.1, h'.1, hveq]

/-- Two calls inside each other are enough for `vmm_alloc_page`. -/
theorem vmmAllocPageDepth_eq (m n : Nat) : vmmAllocPageDepth (m + 3) = vmmAllocPageDepth (n + 3) := by
  have hv : AgreeNested (vmmAllocPageDepth (m + 1)) (vmmAllocPageDepth (n + 1)) := by
    rw [vmmAllocPageDepth, vmmAllocPageDepth]
    exact vmmAllocPageWith_nested _ _
  rw [vmmAllocPageDepth, vmmAllocPageDepth]
  refine vmmAllocPageWith_congr fun size => ?_
  rw [kmallocDepth, kmallocDepth]
  exact kmallocWith_nested hv size

theorem solves : Solves kmalloc vmmAllocPage := by
  refine ⟨fun size => ?_, vmmAllocPageDepth_eq 1 2⟩
  rw [kmalloc, kmallocDepth, vmmAllocPage, vmmAllocPageDepth_eq 1 0]

/-- **The recursion ends.**  The equations of `kmalloc` and `vmm_alloc_page`, which call each other,
have one solution: in every state and for every size, no more than two calls of each are inside each
other. -/
theorem recursion_iff : Solves k v ↔ k = kmalloc ∧ v = vmmAllocPage := by
  refine ⟨fun h => h.unique solves, ?_⟩
  rintro ⟨rfl, rfl⟩
  exact solves

end Recursion

/-! ### The VMM's side of a call -/

/-- What a call does to the VMM, for the heap as it is. -/
def vmmPart {α : Type} (heap : Kmalloc.Heap) (x : Kern State α) : Kern Vmm.State α := fun vmm =>
  match x ⟨vmm, heap⟩ with
  | .ok a s => .ok a s.vmm
  | .error e s => .error e s.vmm

section Parts

variable {α β : Type} {heap : Kmalloc.Heap} {v : Kern State Nat}

theorem vmmPart_bind (x : Kern State α) (f : α → Kern Vmm.State β) :
    vmmPart heap (x >>= fun a => onVmm (f a)) = vmmPart heap x >>= f := by
  funext vmm
  show vmmPart heap (EStateM.bind _ _) vmm = EStateM.bind _ _ vmm
  rw [vmmPart, EStateM.bind, EStateM.bind, vmmPart]
  cases x ⟨vmm, heap⟩ with
  | error e s => rfl
  | ok a s =>
    dsimp only
    rw [onVmm, Kern.zoom]
    cases f a s.vmm <;> rfl

/-- What `kmalloc` does with the block that its search has found, or with none. -/
def kmallocPick (alloc_size : Nat) (heap : Kmalloc.Heap) : Option Nat → Nat × Kmalloc.Heap
  | some block => Kmalloc.kmallocTake block alloc_size heap
  | none => (0, heap)

theorem kmallocWith_found {s : State} {size : Nat} {found : Option Nat} (h0 : size ≠ 0)
    (hfind : Kmalloc.kmallocFind s.heap (Kmalloc.kmallocRound size) Kmalloc.loopFuel s.heap.head =
      .ok found) : kmallocWith v size s =
      let r := kmallocPick (Kmalloc.kmallocRound size) s.heap found
      if r.1 = 0 then
        match v { s with heap := r.2 } with
        | .error e s => .error e s
        | .ok page s => .ok 0 { s with heap := Kmalloc.kmallocGrow page s.heap }
      else .ok r.1 { s with heap := r.2 } := by
  rw [kmallocWith, if_neg h0]
  dsimp only
  rw [hfind]
  cases found <;> rfl

theorem kmalloc_found {w : Kern Kmalloc.Heap Nat} {size : Nat} {found : Option Nat} (h0 : size ≠ 0)
    (hfind : Kmalloc.kmallocFind heap (Kmalloc.kmallocRound size) Kmalloc.loopFuel heap.head =
      .ok found) : Kmalloc.kmalloc w size heap =
      let r := kmallocPick (Kmalloc.kmallocRound size) heap found
      if r.1 = 0 then
        match w r.2 with
        | .error e h => .error e h
        | .ok page h => .ok 0 (Kmalloc.kmallocGrow page h)
      else .ok r.1 r.2 := by
  rw [Kmalloc.kmalloc, if_neg h0]
  dsimp only
  rw [hfind]
  cases found <;> rfl

/-- A call that returns a pointer has not called `vmm_alloc_page`. -/
theorem kmalloc_congr {w : Kern Kmalloc.Heap Nat} {size p : Nat} {h' : Kmalloc.Heap}
    (hk : Kmalloc.kmalloc w size heap = .ok p h') (hp : p ≠ 0) (w' : Kern Kmalloc.Heap Nat) :
    Kmalloc.kmalloc w' size heap = .ok p h' := by
  by_cases h0 : size = 0
  · rw [Kmalloc.kmalloc, if_pos h0] at hk ⊢
    exact hk
  cases hfind : Kmalloc.kmallocFind heap (Kmalloc.kmallocRound size) Kmalloc.loopFuel heap.head with
  | error e =>
    rw [Kmalloc.kmalloc, if_neg h0] at hk
    dsimp only at hk
    rw [hfind] at hk
    cases hk
  | ok found =>
    rw [kmalloc_found h0 hfind] at hk ⊢
    dsimp only at hk ⊢
    by_cases hr : (kmallocPick (Kmalloc.kmallocRound size) heap found).1 = 0
    · rw [if_pos hr] at hk
      split at hk
      · cases hk
      · cases hk
        exact absurd rfl hp
    · rw [if_neg hr] at hk ⊢
      exact hk

theorem vmmAddVmmBlock_vmm (k : Nat → Kern State Nat) (heap : Kmalloc.Heap) (d : VmmBlockDesc) :
    vmmPart heap (vmmAddVmmBlock k d) = Vmm.vmmAddVmmBlock (fun size => vmmPart heap (k size)) d := by
  rw [vmmAddVmmBlock, vmmPart_bind]
  funext vmm
  show EStateM.bind _ _ vmm = EStateM.bind _ _ vmm
  rw [EStateM.bind, EStateM.bind]
  cases vmmPart heap (k Vmm.sizeofVmmBlockDesc) vmm <;> rfl

theorem vmmReserveBlock_vmm (k : Nat → Kern State Nat) (heap : Kmalloc.Heap) (j : Nat)
    (d : VmmBlockDesc) : vmmPart heap (vmmReserveBlock k j d) =
      Vmm.vmmReserveBlock (fun size => vmmPart heap (k size)) j d := by
  funext vmm
  have hadd := congrFun (vmmAddVmmBlock_vmm k heap d) { vmm with allocatingNewBlock := true }
  rw [vmmPart] at hadd
  by_cases hc : d.highWaterMark = Vmm.highWaterThreshold ∧ j + 1 = vmm.vmmBlockList.length ∧
      vmm.allocatingNewBlock = false
  · have hset : setAllocatingNewBlock true ⟨vmm, heap⟩ =
        .ok () ⟨{ vmm with allocatingNewBlock := true }, heap⟩ := rfl
    rw [vmmPart, vmmReserveBlock, Vmm.vmmReserveBlock, if_pos hc, if_pos hc, Kern.bind_ok hset,
      Kern.bind_ok (Kern.modify_ok _ _)]
    cases hcall : vmmAddVmmBlock k d ⟨{ vmm with allocatingNewBlock := true }, heap⟩ with
    | ok a t =>
      rw [hcall] at hadd
      rw [Kern.bind_ok hcall, Kern.bind_ok hadd.symm]
      rfl
    | error e t =>
      rw [hcall] at hadd
      rw [Kern.bind_error hcall, Kern.bind_error hadd.symm]
  · rw [vmmPart, vmmReserveBlock, Vmm.vmmReserveBlock, if_neg hc, if_neg hc]

/-- **The VMM's side**: `vmm_alloc_page` on the two allocators is the `vmm_alloc_page` of the VMM. -/
theorem vmmAllocPageWith_vmm (k : Nat → Kern State Nat) (heap : Kmalloc.Heap) :
    vmmPart heap (vmmAllocPageWith k) = Vmm.vmmAllocPage fun size => vmmPart heap (k size) := by
  funext vmm
  rw [vmmPart, vmmAllocPageWith, Vmm.vmmAllocPage]
  dsimp only
  cases Vmm.vmmFindPage vmm.vmmBlockList with
  | none => rfl
  | some found =>
    obtain ⟨j, page, d⟩ := found
    dsimp only
    by_cases hp : page = 0
    · rw [if_pos hp, if_pos hp]
    · rw [if_neg hp, if_neg hp, ← vmmReserveBlock_vmm, ← vmmPart_bind]
      rfl

end Parts

/-! ### What a call that returns has done -/

section Calls

variable {s s' : State} {size p : Nat}

theorem kmalloc_ok {w : Kern Kmalloc.Heap Nat} {h' : Kmalloc.Heap}
    (hk : Kmalloc.kmalloc w size s.heap = .ok p h') (hp : p ≠ 0) :
    kmalloc size s = .ok p ⟨s.vmm, h'⟩ := by
  rw [solves.1]
  by_cases h0 : size = 0
  · rw [Kmalloc.kmalloc, if_pos h0] at hk
    cases hk
    exact absurd rfl hp
  cases hfind : Kmalloc.kmallocFind s.heap (Kmalloc.kmallocRound size) Kmalloc.loopFuel
      s.heap.head with
  | error e =>
    rw [Kmalloc.kmalloc, if_neg h0] at hk
    dsimp only at hk
    rw [hfind] at hk
    cases hk
  | ok found =>
    rw [kmalloc_found h0 hfind] at hk
    rw [kmallocWith_found h0 hfind]
    dsimp only at hk ⊢
    by_cases hr : (kmallocPick (Kmalloc.kmallocRound size) s.heap found).1 = 0
    · rw [if_pos hr] at hk
      split at hk
      · cases hk
      · cases hk
        exact absurd rfl hp
    · rw [if_neg hr] at hk ⊢
      cases hk
      rfl

theorem vmmAllocPage_vmm (heap : Kmalloc.Heap) :
    vmmPart heap vmmAllocPage = Vmm.vmmAllocPage fun size => vmmPart heap (kmalloc size) := by
  rw [← vmmAllocPageWith_vmm, ← solves.2]

theorem of_vmmPart_eq_ok {α : Type} {x : Kern State α} {a : α} {vmm' : Vmm.State}
    (h : vmmPart s.heap x s.vmm = .ok a vmm') : ∃ heap', x s = .ok a ⟨vmm', heap'⟩ := by
  have h' : (match x s with
    | .ok a t => .ok a t.vmm
    | .error e t => .error e t.vmm : EStateM.Result Fault Vmm.State α) = .ok a vmm' := h
  cases hx : x s with
  | ok b t =>
    rw [hx] at h'
    cases h'
    exact ⟨t.heap, rfl⟩
  | error e t =>
    rw [hx] at h'
    cases h'

/-- `kmalloc` returns at once, takes a block that it has found, or grows the heap. -/
theorem kmalloc_cases (h : kmalloc size s = .ok p s') :
    (size = 0 ∧ p = 0 ∧ s' = s) ∨
    (size ≠ 0 ∧ p ≠ 0 ∧ s'.vmm = s.vmm ∧ ∀ w, Kmalloc.kmalloc w size s.heap = .ok p s'.heap) ∨
    (size ≠ 0 ∧ p = 0 ∧ ∃ found page t,
      Kmalloc.kmallocFind s.heap (Kmalloc.kmallocRound size) Kmalloc.loopFuel s.heap.head =
        .ok found ∧ (kmallocPick (Kmalloc.kmallocRound size) s.heap found).1 = 0 ∧
      vmmAllocPage ⟨s.vmm, (kmallocPick (Kmalloc.kmallocRound size) s.heap found).2⟩ = .ok page t ∧
      s' = ⟨t.vmm, Kmalloc.kmallocGrow page t.heap⟩) := by
  rw [solves.1] at h
  by_cases h0 : size = 0
  · rw [kmallocWith, if_pos h0] at h
    cases h
    exact Or.inl ⟨h0, rfl, rfl⟩
  right
  cases hfind : Kmalloc.kmallocFind s.heap (Kmalloc.kmallocRound size) Kmalloc.loopFuel
      s.heap.head with
  | error e =>
    rw [kmallocWith, if_neg h0] at h
    dsimp only at h
    rw [hfind] at h
    cases h
  | ok found =>
    have hheap : ∀ w, Kmalloc.kmalloc w size s.heap = _ := fun w => kmalloc_found h0 hfind
    rw [kmallocWith_found h0 hfind] at h
    dsimp only at h hheap
    by_cases hr : (kmallocPick (Kmalloc.kmallocRound size) s.heap found).1 = 0
    · rw [if_pos hr] at h
      cases hv : vmmAllocPage ⟨s.vmm, (kmallocPick (Kmalloc.kmallocRound size) s.heap found).2⟩ with
      | error e t =>
        rw [hv] at h
        cases h
      | ok page t =>
        rw [hv] at h
        cases h
        exact Or.inr ⟨h0, rfl, found, page, t, rfl, hr, hv, rfl⟩
    · rw [if_neg hr] at h
      cases h
      refine Or.inl ⟨h0, hr, rfl, fun w => ?_⟩
      rw [hheap, if_neg hr]

/-- **`vmm_alloc_page` is a call of the VMM alone**, with the descriptor that `kmalloc` has returned if
it added a block. -/
theorem vmmAllocPage_cases (h : vmmAllocPage s = .ok p s') :
    ∃ q, q ≠ 0 ∧ Vmm.vmmAllocPage (fun _ => pure q) s.vmm = .ok p s'.vmm ∧
      (s'.heap = s.heap ∧ s'.vmm.vmmBlockList.length = s.vmm.vmmBlockList.length ∨
        s.vmm.vmmBlockList.length < s'.vmm.vmmBlockList.length ∧
          ∀ w, Kmalloc.kmalloc w Vmm.sizeofVmmBlockDesc s.heap = .ok q s'.heap) := by
  rw [solves.2, vmmAllocPageWith] at h
  split at h
  · cases h
  next j page d hfind =>
  dsimp only at h
  split at h
  · cases h
  next hpage =>
  obtain ⟨_, s₁, hreserve, hrest⟩ := Kern.of_bind_eq_ok h
  obtain ⟨vmm₁, hmap, rfl⟩ := Kern.of_zoom_eq_ok hrest
  have hlist := (Vmm.vmmMapPage_list hmap).2.1
  -- the call of the VMM, up to the part that adds a block
  have hcall : ∀ q, Vmm.vmmReserveBlock (fun _ => pure q) j d
      { s.vmm with vmmBlockList := s.vmm.vmmBlockList.set j d } = .ok () s₁.vmm →
      Vmm.vmmAllocPage (fun _ => pure q) s.vmm = .ok p vmm₁ := by
    intro q hq
    rw [Vmm.vmmAllocPage, hfind]
    dsimp only
    rw [if_neg hpage]
    exact (Kern.bind_ok hq).trans hmap
  rw [vmmReserveBlock] at hreserve
  split at hreserve
  · next hc =>
    obtain ⟨_, s₂, hset, hreserve⟩ := Kern.of_bind_eq_ok hreserve
    cases hset
    obtain ⟨_, s₃, hadd, hclear⟩ := Kern.of_bind_eq_ok hreserve
    cases hclear
    obtain ⟨q, s₄, hk, hadd'⟩ := Kern.of_bind_eq_ok hadd
    obtain ⟨vmm₄, hblock, rfl⟩ := Kern.of_zoom_eq_ok hadd'
    have hq : q ≠ 0 := by
      rintro rfl
      cases hblock
    rcases kmalloc_cases hk with ⟨h0, -⟩ | ⟨-, -, hvmm, hheap⟩ | ⟨-, h0, -⟩
    · cases h0
    · rw [hvmm] at hblock
      refine ⟨q, hq, hcall q ?_, Or.inr ⟨?_, hheap⟩⟩
      · rw [Vmm.vmmReserveBlock, if_pos hc]
        apply (Kern.bind_ok (Kern.modify_ok _ _)).trans
        exact (Kern.bind_ok hblock).trans rfl
      · obtain ⟨_, u, hu, hnew⟩ := Vmm.vmmAddVmmBlock_list hblock
        cases hu
        dsimp only at hlist hnew
        show _ < vmm₁.vmmBlockList.length
        rw [hlist, hnew, List.length_append, List.length_set]
        exact Nat.lt_succ_self _
    · exact absurd h0 hq
  · next hc =>
    cases hreserve
    refine ⟨1, Nat.one_ne_zero, hcall 1 ?_, Or.inl ⟨rfl, ?_⟩⟩
    · rw [Vmm.vmmReserveBlock, if_neg hc]
    · show vmm₁.vmmBlockList.length = _
      rw [hlist, List.length_set]

end Calls

end Aosis.Memory.Allocators
