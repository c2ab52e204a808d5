import Aosis.Memory.Userspace
import Aosis.Memory.VmmPages

/-!
# The kernel's half of the address spaces

`paging_create_userspace` copies the kernel's entries of the page directory once.  `SharedHalf` says
that they are those of the kernel still.

* `sharedHalf_of_run`: they are in a run in which no block is added, since the kernel's directory
  does not change then.
-/

namespace Aosis.Memory.Vmm

open Aosis.Lib Aosis.Memory.Pmm Aosis.Memory.Paging

/-- The kernel's half of each page directory is that of the kernel. -/
def SharedHalf (s : UserSys) : Prop :=
  ∀ r ∈ s.directories, ∀ i, 768 ≤ i → i < 1024 → s.state.paging.ram (r >>> 12) i =
    s.state.paging.ram (v2pAddr s.state.paging.kernelPageDirectory >>> 12) i

section UserMapped

variable {m : Paging.Mem} {user_task : UserTaskInfo} {f g i j k : Nat}

theorem userMapped_ram_ne (hf : k ≠ f) (hg : k ≠ g) :
    (userMapped m user_task f g i j).ram k = m.ram k := by
  rw [userMapped, setFrame_ram_ne hf, setFrame_ram_ne hg]

theorem userMapped_ram_directory (hg : f ≠ g) (hk : k ≠ i) :
    (userMapped m user_task f g i j).ram f k = m.ram f k := by
  rw [userMapped, setFrame_ram_self, Function.update_of_ne hk, setFrame_ram_ne hg]

end UserMapped

/-- A call whose pages come before page 1021: the frames below its directory are left alone, and
the kernel's half of the directory is a copy. -/
theorem FirstBlock.create_half {s s' : State} {d t N r : Nat} {kmalloc : Nat → Kern State Nat}
    {user_task : UserTaskInfo} (h : FirstBlock s d t N) (hk : Succeeds kmalloc) (hN : N + 3 ≤ 1021)
    (hc : pagingCreateUserspace kmalloc user_task s = .ok r s') :
    r = 4096 * N ∧ FirstBlock s' d t (N + 3) ∧ s'.paging.pmm = s.paging.pmm ∧
      (∀ f < N, s'.paging.ram f = s.paging.ram f) ∧
      ∀ i, 768 ≤ i → i < 1024 → s'.paging.ram N i = s.paging.ram d i := by
  obtain ⟨rfl, hblock, m₁, m₂, m₃, g₂, g₃, hm₁, hm₂, hm₃, hg₂, hg₃, hpaging⟩ :=
    h.create hk (by omega) hc
  obtain rfl := hm₁ (by omega)
  obtain rfl := hm₂ (by omega)
  obtain rfl := hm₃ (by omega)
  obtain rfl := hg₂ (by omega)
  obtain rfl := hg₃ (by omega)
  have hlt := h.lt
  have hpage := h.lt_page
  refine ⟨rfl, hblock, by rw [hpaging]; rfl, fun f hf => ?_, fun i hi768 hi1024 => ?_⟩
  · rw [hpaging, userMapped_ram_ne (by omega) (by omega), userMapped_ram_ne (by omega) (by omega),
      setFrame_ram_ne (by omega)]
  · rw [hpaging, userMapped_ram_directory (by omega) (by omega),
      userMapped_ram_directory (by omega) (by omega), setFrame_ram_self, copied,
      if_pos ⟨hi768, hi1024⟩]

/-- What has been kept by a run in which no block was added. -/
structure HalfInv (d t N : Nat) (s : UserSys) : Prop where
  block : FirstBlock s.state d t N
  le : N ≤ 1021
  shared : ∀ r ∈ s.directories, ∃ n, r = 4096 * n ∧ t < n ∧ n < N ∧
    ∀ i, 768 ≤ i → i < 1024 → s.state.paging.ram n i = s.state.paging.ram d i

namespace HalfInv

variable {s s' : UserSys} {d t N : Nat} {kmalloc : Nat → Kern State Nat} {user_task : UserTaskInfo}

theorem alloc (hi : HalfInv d t N s) (hk : Succeeds kmalloc) (hN : N + 1 ≤ 1021)
    (h : UserStep kmalloc s .alloc s') : HalfInv d t (N + 1) s' := by
  cases h with
  | alloc h =>
    obtain ⟨-, hblock, hpaging⟩ := hi.block.alloc hk (by omega) h
    refine ⟨hblock, hN, ?_⟩
    intro r hr
    obtain ⟨n, hrn, hn, hnN, hshared⟩ := hi.shared r hr
    rw [hpaging (by omega)]
    exact ⟨n, hrn, hn, by omega, hshared⟩

theorem create (hi : HalfInv d t N s) (hk : Succeeds kmalloc) (hN : N + 3 ≤ 1021)
    (h : UserStep kmalloc s (.create user_task) s') : HalfInv d t (N + 3) s' := by
  cases h with
  | create h =>
    obtain ⟨rfl, hblock, -, hother, hnew⟩ := hi.block.create_half hk hN h
    have hlt := hi.block.lt
    have hpage := hi.block.lt_page
    refine ⟨hblock, hN, ?_⟩
    intro r hr
    dsimp only
    rw [hother d (by omega)]
    rcases List.mem_append.mp hr with hr | hr
    · obtain ⟨n, hrn, hn, hnN, hshared⟩ := hi.shared r hr
      rw [← hother n hnN] at hshared
      exact ⟨n, hrn, hn, by omega, hshared⟩
    · exact ⟨N, List.mem_singleton.mp hr, hpage, by omega, hnew⟩

theorem sharedHalf (hi : HalfInv d t N s) : SharedHalf s := by
  intro r hr i hi768 hi1024
  obtain ⟨n, rfl, -, -, hshared⟩ := hi.shared r hr
  rw [hi.block.tables.kernel_frame, shiftRight_page]
  exact hshared i hi768 hi1024

end HalfInv

theorem directories_of_run {s s' : UserSys} {kmalloc : Nat → Kern State Nat} {ops : List UserOp}
    (hrun : Run (UserStep kmalloc) s ops s') (hops : ∀ op ∈ ops, op = .alloc) :
    s'.directories = s.directories := by
  induction hrun with
  | nil => rfl
  | snoc hr hs ih =>
    rw [List.forall_mem_append] at hops
    cases hs with
    | alloc => exact ih hops.1
    | create => exact absurd (hops.2 _ (List.mem_singleton_self _)) (by simp)

/-- **The kernel's half stays shared** in every run that adds no block, or creates no address
space. -/
theorem sharedHalf_of_run {image : KernelImage} {mbt : MultibootInfo} {junk d t : Nat}
    {ram : Nat → Nat → PageEntry} {s₀ : State} {kmalloc : Nat → Kern State Nat} {ops : List UserOp}
    {s : UserSys} (hboot : Boots image mbt junk ram d t s₀) (hk : Succeeds kmalloc)
    (hrun : Run (UserStep kmalloc) ⟨s₀, []⟩ ops s)
    (hcond : (∀ op ∈ ops, op = .alloc) ∨ t + 1 + pagesOf ops ≤ 1021) : SharedHalf s := by
  rcases hcond with hops | hfew
  · intro r hr
    rw [directories_of_run hrun hops] at hr
    exact absurd hr List.not_mem_nil
  · have hinit : HalfInv d t (t + 1) ⟨s₀, []⟩ :=
      ⟨hboot.firstBlock (by omega), by omega, fun r hr => absurd hr List.not_mem_nil⟩
    have hinv : HalfInv d t (t + 1 + pagesOf ops) s := by
      refine hrun.invariantOn (I := fun ops s => t + 1 + pagesOf ops ≤ 1021 →
        HalfInv d t (t + 1 + pagesOf ops) s) ?_ (fun _ => hinit) hfew
      intro ops u op u' _ hi hs hfew
      rw [pagesOf_append] at hfew ⊢
      cases op with
      | alloc => exact (hi (by omega)).alloc hk hfew hs
      | create user_task => exact (hi (by omega)).create hk hfew hs
    exact hinv.sharedHalf

/-- The first address space after the boot of the small kernel. -/
theorem sharedHalf_smallImage :
    ∃ s : UserSys, s.directories = [0x183000] ∧ SharedHalf s := by
  obtain ⟨s₀, hboot⟩ := exists_boots_smallImage
  have hk : Succeeds fun _ => pure 0xC0160F68 := succeeds_pure (by decide)
  obtain ⟨s', hc⟩ := (hboot.firstBlock (by decide)).create_ok (fun _ => pure 0xC0160F68) smallTask
    (by decide)
  exact ⟨_, rfl, sharedHalf_of_run hboot hk
    (Run.single (UserStep.create (s := ⟨s₀, []⟩) hc)) (Or.inr (by decide))⟩

/-- A kernel that ends a few pages earlier than `highImage`. -/
def userImage : KernelImage :=
  { highImage with
    kernelEndAddrPhys := 0x3F6000
    end_gt := by decide
    end_le := by decide
    block_le := by decide
    tempDirectory_lt := by decide
    tempTable_lt := by decide }

/-- The memory of the small kernel, with the module behind this kernel. -/
def userMap : MultibootInfo := { solidMap with modList := ⟨0x3F6000, 0x3F7000⟩ }

/-- Page 1021 follows the three pages of an address space: the entry of the new block is not in its
directory. -/
theorem not_sharedHalf_userImage :
    ∃ s₀ s, Boots userImage userMap 0 (fun _ _ => {}) 1015 1016 s₀ ∧
      Succeeds (fun _ => pure 0xC0160F68) ∧ Run (UserStep fun _ => pure 0xC0160F68) ⟨s₀, []⟩
        [.alloc, .create smallTask, .alloc] s ∧ ¬ SharedHalf s := by
  obtain ⟨s₀, hboot, hpmm⟩ : ∃ s, Boots userImage userMap 0 (fun _ _ => {}) 1015 1016 s ∧
      s.paging.pmm = _ := exists_boots (fun _ _ => {}) rfl rfl rfl (by decide) (by decide) (by decide)
        (by decide) (by decide)
  have hk : Succeeds fun _ => pure 0xC0160F68 := succeeds_pure (by decide)
  obtain ⟨s₁, h₁, hpaging₁, hb₁⟩ := (hboot.firstBlock (by decide)).alloc_present
    (fun _ => pure 0xC0160F68) (by decide) (by decide)
  obtain ⟨s₂, h₂⟩ := hb₁.create_ok (fun _ => pure 0xC0160F68) smallTask (by decide)
  obtain ⟨-, hb₂, hpmm₂, -, hnew⟩ := hb₁.create_half hk (by decide) h₂
  have ha : ∃ pmm', pmmAllocPage s₂.paging.pmm = .ok 0x3F9000 pmm' := by
    rw [hpmm₂, hpaging₁, hpmm]
    exact ⟨_, rfl⟩
  obtain ⟨pmm', ha⟩ := ha
  obtain ⟨s₃, h₃, -, hadded, hother⟩ := hb₂.alloc_grow hk ha
  have hrun : Run (UserStep fun _ => pure 0xC0160F68) ⟨s₀, []⟩ [.alloc, .create smallTask, .alloc]
      ⟨s₃, [4096 * 1018]⟩ :=
    ((Run.nil.snoc (UserStep.alloc h₁)).snoc (UserStep.create h₂)).snoc (UserStep.alloc h₃)
  refine ⟨s₀, _, hboot, hk, hrun, ?_⟩
  intro hshared
  have h769 := hshared _ (List.mem_singleton_self _) 769 (by decide) (by decide)
  dsimp only at h769
  rw [hadded.tables.kernel_frame, shiftRight_page, hother 1018 (by decide) (by decide) (by decide),
    hnew 769 (by decide) (by decide), hpaging₁,
    hboot.booted.kernel.rest 769 (by decide)] at h769
  have hpresent := (hadded.tables.directory 1 (by decide)).present
  rw [← h769] at hpresent
  cases hpresent

end Aosis.Memory.Vmm
