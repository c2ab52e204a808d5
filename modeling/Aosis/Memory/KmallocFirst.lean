import Aosis.Memory.KmallocSafe

/-!
# The heap before it grows

As long as nothing is freed and the heap has not grown, the free list is one block, which shrinks
from its end.  When less than `SMALLEST_BLOCK_SIZE` would be left of it, `kmalloc` returns the
block without taking it off the list, and returns the same pointer the next time.

* `FirstBlock.cut`, `FirstBlock.whole`: the two ways in which `kmalloc` takes from the block.
-/

namespace Aosis.Memory.Kmalloc

open Aosis.Lib Aosis.Lib.Extent

/-- The free list is one block, of `len` bytes from `base` on. -/
structure FirstBlock (h : Heap) (base len : Nat) (used : List Extent) : Prop where
  inv : HeapInv h [⟨base, len⟩] used [base]
  free : h.freeMemory base = base + 8

theorem FirstBlock.init {base : Nat} (hb : FreshPage [] base) (mem : Nat → Nat) :
    FirstBlock (kmallocInit base mem) base 4096 [] := by
  have hle := hb.le
  have hmod := hb.aligned
  refine ⟨HeapInv.init hb mem, ?_⟩
  rw [kmallocInit, Heap.freeMemory_setFreeMemory, blockHeaderSize, u32_of_lt (by omega),
    Nat.add_comm]

namespace FirstBlock

variable {h : Heap} {base len size s : Nat} {used : List Extent} {vmm_alloc_page : Kern Heap Nat}

theorem find (hf : FirstBlock h base len used) (hs : s + 8 ≤ len) :
    kmallocFind h s loopFuel h.head = .ok (some base) := by
  rw [hf.inv.find_eq, List.find?_cons_of_pos (by simpa using hs)]
  rfl

theorem left (hf : FirstBlock h base len used) (hs : s + 8 ≤ len) :
    sub32 (sub32 (h.size base) blockHeaderSize) s = len - 8 - s :=
  hf.inv.left_over (b := ⟨base, len⟩) List.mem_cons_self hs

/-- **The end of the block is cut off.** -/
theorem cut (vmm_alloc_page : Kern Heap Nat) (hf : FirstBlock h base len used) (h0 : size ≠ 0)
    (hround : kmallocRound size = s) (hmod : s % 8 = 0) (h8 : 8 ≤ s) (hs : s + 8 + 32 ≤ len) :
    ∃ h', kmalloc vmm_alloc_page size h = .ok (base + (len - s)) h' ∧
      FirstBlock h' base (len - (s + 8)) (⟨base + (len - (s + 8)), s + 8⟩ :: used) := by
  have hleft := hf.left (s := s) (by omega)
  have hinv₀ : HeapInv h ([] ++ ⟨base, len⟩ :: []) used [base] := hf.inv
  obtain ⟨h', hsplit', hinv, -⟩ := hinv₀.splitBlock hmod h8
    (n := base + (len - (s + 8))) (by dsimp only; omega) (by dsimp only; omega)
  obtain ⟨-, hothers⟩ := hinv₀.freeMemory_splitBlock h8
    (n := base + (len - (s + 8))) (by dsimp only; omega) (by dsimp only; omega) hsplit'
  have hptr : base + (len - (s + 8)) + 8 = base + (len - s) := by omega
  rw [hptr] at hsplit'
  refine ⟨h', kmalloc_of_take h0 hround (hf.find (by omega)) ?_ (by omega), hinv, ?_⟩
  · rw [kmallocTake, hleft, smallestBlockSize, if_pos (by omega)]
    exact hsplit'
  · exact (hothers ⟨base, len⟩ List.mem_cons_self).trans hf.free

/-- **The whole block is returned and stays on the list.** -/
theorem whole (hf : FirstBlock h base len used) (h0 : size ≠ 0) (hround : kmallocRound size = s)
    (hs : s + 8 ≤ len) (hlt : len < s + 8 + 32) :
    kmalloc vmm_alloc_page size h = .ok (base + 8) h := by
  have hleft := hf.left (s := s) hs
  refine kmalloc_of_take h0 hround (hf.find hs) ?_ (Nat.succ_ne_zero _)
  rw [kmallocTake, hleft, smallestBlockSize, if_neg (by omega), hf.free]

theorem firstFit (hf : FirstBlock h base len used) (hs : s + 8 ≤ len) : FirstFit h s base := by
  have hinv : HeapInv h ([] ++ ⟨base, len⟩ :: []) used [base] := hf.inv
  exact hinv.firstFit_of_find hs fun _ hc => absurd hc List.not_mem_nil

theorem cuts {s : Sys} (hf : FirstBlock s.heap base len used) (page : Nat) (hle : size ≤ 2 ^ 32 - 8)
    (hlen : kmallocRound size + 8 + 32 ≤ len) : Cuts s (.kmalloc size page) := by
  refine fun _ => ⟨hle, fun b hb => ?_⟩
  obtain ⟨c, hc, rfl⟩ := hf.inv.mem_of_onList hb.onList
  rw [hf.inv.tiling.sizes c (List.mem_append_left used hc), List.mem_singleton.mp hc]
  exact hlen

end FirstBlock

/-- Two blocks of 24 bytes are allocated, and the first one is freed. -/
theorem exists_freed : ∃ h₁ h₂ h₃,
    Step (.init 0x200000 fun _ => 0) (.kmalloc 16 0) ⟨h₁, [⟨0x200FF0, 16⟩], [0x200000]⟩ ∧
    Step ⟨h₁, [⟨0x200FF0, 16⟩], [0x200000]⟩ (.kmalloc 16 0)
      ⟨h₂, [⟨0x200FD8, 16⟩, ⟨0x200FF0, 16⟩], [0x200000]⟩ ∧
    Step ⟨h₂, [⟨0x200FD8, 16⟩, ⟨0x200FF0, 16⟩], [0x200000]⟩ (.kfree 0x200FF0)
      ⟨h₃, [⟨0x200FD8, 16⟩], [0x200000]⟩ ∧
    FirstBlock h₁ 0x200000 4072 [⟨0x200FE8, 24⟩] ∧
    FirstBlock h₂ 0x200000 4048 [⟨0x200FD0, 24⟩, ⟨0x200FE8, 24⟩] := by
  obtain ⟨h₁, hk₁, hf₁⟩ := (FirstBlock.init freshPage_2M fun _ => 0).cut (pure 0)
    (by decide : 16 ≠ 0) (rfl : kmallocRound 16 = 16) (by decide) (by decide) (by decide)
  obtain ⟨h₂, hk₂, hf₂⟩ := hf₁.cut (pure 0) (by decide : 16 ≠ 0) (rfl : kmallocRound 16 = 16)
    (by decide) (by decide) (by decide)
  obtain ⟨-, h₃, hk₃, -⟩ := (hf₂.inv.perm_used (List.Perm.swap _ _ _)).kfree
  have hlive : (⟨0x200FF0, 16⟩ : Live) ∈ [⟨0x200FD8, 16⟩, ⟨0x200FF0, 16⟩] :=
    List.mem_cons_of_mem _ List.mem_cons_self
  exact ⟨h₁, h₂, h₃, .kmalloc (by decide) hk₁ (by decide), .kmalloc (by decide) hk₂ (by decide),
    .kfree (l := ⟨0x200FF0, 16⟩) hlive hk₃, hf₁, hf₂⟩

end Aosis.Memory.Kmalloc
