import Aosis.Task.RoundRobin

/-!
# The stack for interrupts from user mode

The processor takes the stack for an interrupt from user mode out of `tss_region.esp0`, which the
scheduler sets when it switches to a user task.

* `espLaw_of_run`: as long as `kmalloc` returns new blocks, `esp0` is the kernel stack of the
  running user task.
* `not_espLaw_reused`: when `kmalloc` returns the block of the running task, creating a task
  moves that task's `kernel_stack_base` away from `esp0`.
-/

namespace Aosis.Scheduler

open Aosis.Lib Aosis.Memory

/-! ### The tasks of the first block -/

section FirstTasks

variable {base : Nat} {used : List Extent} {s₀ : Sys Kmalloc.Heap} {entries : Entries}
  {boot_task : Nat}

/-- The pages that the kernel gets for the stacks. -/
def stackPage (i : Nat) : Word := 0xC0200000 + BitVec.ofNat 32 (4096 * i)

/-- **The first block has room for 81 tasks besides the boot task**; the last one gets all that is
left of it, which stays on the free list. -/
theorem exists_users (entries : Entries) (hs₀ : AfterInit boot_task s₀)
    (hf₀ : Kmalloc.FirstBlock s₀.heap base 3888 used) (htasks : s₀.tasks = [base + 3896])
    (hcur : s₀.kernel.currentTask = s₀.kernel.taskListHead) : ∀ n ≤ 81, ∃ s used',
      Run (Within (Step entries kmallocTask) (Fresh kmallocTask)) s₀
        ((List.range n).map fun i => .createUser (stackPage i)) s ∧
      Kmalloc.FirstBlock s.heap base (max 48 (3888 - 48 * n)) used' ∧
      (∀ p ∈ s.tasks, base + (3896 - 48 * n) ≤ p) ∧
      s.kernel.currentTask = s.kernel.taskListHead ∧
      (0 < n → s.kernel.taskListTail = base + (3896 - 48 * n) ∧
        s.kernel.taskListTail ∈ s.users ∧
        (s.kernel.task s.kernel.taskListTail).kernelStackBase = stackPage (n - 1) + 4096) := by
  intro n
  induction n with
  | zero =>
    intro _
    refine ⟨s₀, used, .nil, hf₀, ?_, hcur, fun h => absurd h (Nat.lt_irrefl 0)⟩
    intro p hp
    rw [htasks] at hp
    exact (List.mem_singleton.mp hp).ge
  | succ n ih =>
    intro hn
    obtain ⟨s, used', hrun, hf, hle, hcur', -⟩ := ih (by omega)
    obtain ⟨s', used'', hstep, hf', hcreate, htasks', husers, hfresh⟩ :=
      createUser_firstBlock entries hf (by omega) (stackPage n)
    have hptr : base + (max 48 (3888 - 48 * n) - 40) = base + (3896 - 48 * (n + 1)) := by omega
    rw [hptr] at hcreate htasks' husers hfresh
    have hmem : base + (3896 - 48 * (n + 1)) ∉ s.tasks := by
      intro hmem
      have := hle _ hmem
      omega
    have hr := ring_of_run hs₀ hrun
    have htail0 : s.kernel.taskListTail ≠ 0 := fun h => hr.nonzero (h ▸ hr.tail_mem)
    have hne : base + (3896 - 48 * (n + 1)) ≠ s.kernel.taskListTail := fun he =>
      hmem (he ▸ hr.tail_mem)
    obtain ⟨-, t, hc, hbase, -⟩ := taskCreateUser_created htail0 hne hcreate
    refine ⟨s', used'', ?_, ?_, ?_, ?_, ?_⟩
    · rw [List.range_succ, List.map_append]
      exact hrun.snoc ⟨hfresh hmem, hstep⟩
    · have hlen : (if max 48 (3888 - 48 * n) = 48 then 48 else max 48 (3888 - 48 * n) - 48) =
          max 48 (3888 - 48 * (n + 1)) := by
        split_ifs <;> omega
      rw [← hlen]
      exact hf'
    · intro p hp
      rw [htasks'] at hp
      rcases List.mem_append.mp hp with hp | hp
      · have := hle p hp
        omega
      · exact (List.mem_singleton.mp hp).ge
    · rw [hc.current, hc.head, hcur']
    · intro _
      refine ⟨hc.tail, ?_, ?_⟩
      · rw [hc.tail, husers]
        exact List.mem_cons_self
      · rw [hc.tail, hc.task, Function.update_of_ne hne, Function.update_self, hbase,
          Nat.add_sub_cancel]

/-- Whatever block it gets, `task_create_user` makes the new page the kernel stack of its task, and
leaves the running task and `esp0` alone. -/
theorem taskCreateUser_stack {s k : Kernel} {p : Nat} {alloc_stack : Word}
    (h : taskCreateUser entries p alloc_stack s = .ok () k) :
    (k.task p).kernelStackBase = alloc_stack + 4096 ∧ k.currentTask = s.currentTask ∧
      k.esp0 = s.esp0 := by
  rw [taskCreateUser] at h
  split at h
  · cases h
  · cases h
    rw [taskAppend]
    split
    · refine ⟨?_, rfl, rfl⟩
      by_cases hp : p = s.taskListTail
      · simp [Kernel.modifyTask, Kernel.store, Kernel.clearPage, hp]
      · simp [Kernel.modifyTask, Kernel.store, Kernel.clearPage, hp]
    · refine ⟨?_, rfl, rfl⟩
      simp [Kernel.modifyTask, Kernel.store, Kernel.clearPage]

theorem turns_within {H : Type} {kmalloc : Kern H Nat} {s s' : Sys H} {turns : List Nat}
    (h : Run (Step entries kmalloc) s (turns.map .scheduler) s') :
    Run (Within (Step entries kmalloc) (Fresh kmalloc)) s (turns.map .scheduler) s' := by
  induction turns using List.reverseRecOn generalizing s' with
  | nil =>
    obtain rfl := h.eq_of_nil
    exact .nil
  | append_singleton turns p ih =>
    rw [List.map_append] at h ⊢
    obtain ⟨u, hu, hstep⟩ := h.of_snoc
    exact (ih hu).snoc ⟨trivial, hstep⟩

theorem exists_turn_tail (entries : Entries) {s : Sys Kmalloc.Heap} (hr : Ring s.kernel s.tasks)
    (hs : s.kernel.schedulerInitialized = true)
    (hcur : s.kernel.currentTask = s.kernel.taskListHead) :
    ∃ (turns : List Nat) (e : Word), Run (Step entries kmallocTask) s (turns.map .scheduler) { s with
      kernel := { s.kernel with currentTask := s.kernel.taskListTail, esp0 := e } } := by
  obtain ⟨l, hl⟩ := hr.tail
  have hpath := hr.path
  rw [hl] at hpath
  obtain ⟨hfirst, -⟩ := Path.append_cons_iff.mp hpath
  cases l with
  | nil =>
    have htail : s.kernel.currentTask = s.kernel.taskListTail := hcur.trans hfirst
    refine ⟨[], s.kernel.esp0, ?_⟩
    rw [← htail]
    exact .nil
  | cons b l =>
    obtain ⟨rfl, hrest⟩ := Path.cons_iff.mp hfirst
    rw [← hcur] at hrest
    have hturns : Path s.kernel.next (s.kernel.next s.kernel.currentTask)
        (l ++ [s.kernel.taskListTail]) (s.kernel.next s.kernel.taskListTail) :=
      Path.append_cons_iff.mpr ⟨hrest, rfl⟩
    obtain ⟨s', hrun⟩ := run_of_path entries kmallocTask hr hs hturns
    obtain ⟨c, e, hs', -, -⟩ := path_of_turns hr hs hrun
    have hc : s'.kernel.currentTask = s.kernel.taskListTail := by
      rw [List.map_append] at hrun
      obtain ⟨u, -, hlast⟩ := hrun.of_snoc
      generalize hop : Op.scheduler s.kernel.taskListTail = op at hlast
      cases hlast with
      | schedulerInit => cases hop
      | createKernel => cases hop
      | createUser => cases hop
      | scheduler =>
        injection hop with hop
        exact hop.symm
    refine ⟨l ++ [s.kernel.taskListTail], e, ?_⟩
    rw [hs'] at hc hrun
    obtain rfl : c = s.kernel.taskListTail := hc
    exact hrun

theorem exists_running (entries : Entries) (hb : Kmalloc.FreshPage [] base) {n : Nat} (h0 : 0 < n)
    (hn : n ≤ 81) :
    ∃ s₀ boot_task ops s used, AfterBoot base s₀ ∧ AfterInit boot_task s₀ ∧
      Run (Within (Step entries kmallocTask) (Fresh kmallocTask)) s₀ ops s ∧
      Kmalloc.FirstBlock s.heap base (max 48 (3888 - 48 * n)) used ∧
      s.kernel.currentTask = base + (3896 - 48 * n) ∧ s.kernel.currentTask ∈ s.users ∧
      (s.kernel.task s.kernel.currentTask).kernelStackBase = stackPage (n - 1) + 4096 := by
  obtain ⟨s₀, used, hboot, hf₀, htasks, -, hcur₀⟩ := exists_afterBoot hb
  obtain ⟨_, _, boot_task, _, _, hinit⟩ := id hboot
  obtain ⟨s₁, used₁, hrun₁, hf₁, -, hcur₁, htail₁⟩ :=
    exists_users entries hinit hf₀ htasks hcur₀ n hn
  obtain ⟨htail, huser, hstack⟩ := htail₁ h0
  have hr₁ := ring_of_run hinit hrun₁
  -- `scheduler_init`, and the turns up to the last task
  let s₂ : Sys Kmalloc.Heap :=
    { s₁ with kernel := { s₁.kernel with schedulerInitialized := true } }
  have hstep₂ : Step entries kmallocTask s₁ .schedulerInit s₂ := .schedulerInit rfl
  have hr₂ : Ring s₂.kernel s₂.tasks :=
    ⟨hr₁.nonzero, hr₁.nodup, hr₁.path, hr₁.tail, hr₁.pid, hr₁.current⟩
  obtain ⟨turns, e, hrun₃⟩ := exists_turn_tail entries hr₂ rfl hcur₁
  exact ⟨s₀, boot_task, _, _, used₁, hboot, hinit,
    (hrun₁.snoc ⟨show Fresh kmallocTask s₁ .schedulerInit from trivial, hstep₂⟩).trans
      (turns_within hrun₃), hf₁, htail, huser, hstack⟩

end FirstTasks

/-! ### The law -/

/-- While a task made by `task_create_user` runs, `esp0` is its kernel stack. -/
def EspLaw {H : Type} (s : Sys H) : Prop :=
  s.kernel.currentTask ∈ s.users →
    s.kernel.esp0 = (s.kernel.task s.kernel.currentTask).kernelStackBase

section Law

variable {H : Type} {entries : Entries} {kmalloc : Kern H Nat} {s s' : Sys H} {op : Op}
  {ops : List Op} {boot_task : Nat}

/-- The user tasks are on the ring and flagged, and `esp0` belongs to the one that runs. -/
structure EspInv (s : Sys H) : Prop where
  ring : Ring s.kernel s.tasks
  users : ∀ p ∈ s.users, p ∈ s.tasks ∧ (s.kernel.task p).isUser = true
  law : EspLaw s

theorem Created.task_eq {k k' : Kernel} {p q : Nat} {t : Task} (hc : Created k p t k')
    (hq : q ≠ p) : (k'.task q).isUser = (k.task q).isUser ∧
      (k'.task q).kernelStackBase = (k.task q).kernelStackBase := by
  rw [hc.task, Function.update_apply]
  split
  · next hqt =>
    rw [hqt]
    exact ⟨rfl, rfl⟩
  · rw [Function.update_of_ne hq]
    exact ⟨rfl, rfl⟩

theorem EspInv.create (hi : EspInv s) {k : Kernel} {p : Nat} {t : Task} (hp : p ∉ s.tasks)
    (hc : Created s.kernel p t k) :
    (∀ q ∈ s.users, q ∈ s.tasks ++ [p] ∧ (k.task q).isUser = true) ∧
      (k.currentTask ∈ s.users → k.esp0 = (k.task k.currentTask).kernelStackBase) := by
  have hne : ∀ q ∈ s.tasks, q ≠ p := fun q hq he => hp (he ▸ hq)
  refine ⟨?_, ?_⟩
  · intro q hq
    obtain ⟨hmem, huser⟩ := hi.users q hq
    exact ⟨List.mem_append_left [p] hmem, (hc.task_eq (hne q hmem)).1.trans huser⟩
  · intro hcur
    rw [hc.current] at hcur ⊢
    rw [hc.esp0, (hc.task_eq (hne _ (hi.users _ hcur).1)).2]
    exact hi.law hcur

/-- **A step with a new block keeps the law.** -/
theorem EspInv.step (hi : EspInv s)
    (hs : Within (Step entries kmalloc) (Fresh kmalloc) s op s') : EspInv s' := by
  have hr := hi.ring.step hs
  have htail : s.kernel.taskListTail ≠ 0 := fun h => hi.ring.nonzero (h ▸ hi.ring.tail_mem)
  obtain ⟨hfresh, hstep⟩ := hs
  cases hstep with
  | schedulerInit h =>
    injection h with _ hk
    rw [← hk] at hr ⊢
    exact ⟨hr, hi.users, hi.law⟩
  | createKernel hp h =>
    have hmem := hfresh _ _ hp
    obtain ⟨-, t, hc, -⟩ := taskCreateKernel_created htail
      (fun he => hmem (by rw [he]; exact hi.ring.tail_mem)) h
    obtain ⟨husers, hlaw⟩ := hi.create hmem hc
    exact ⟨hr, husers, hlaw⟩
  | @createUser p _ _ k hp h =>
    have hmem := hfresh _ _ hp
    have hne : p ≠ s.kernel.taskListTail := fun he => hmem (by rw [he]; exact hi.ring.tail_mem)
    obtain ⟨-, t, hc, -, ht⟩ := taskCreateUser_created htail hne h
    obtain ⟨husers, hlaw⟩ := hi.create hmem hc
    refine ⟨hr, ?_, ?_⟩
    · intro q hq
      rcases List.mem_cons.mp hq with rfl | hq
      · refine ⟨List.mem_append_right _ List.mem_cons_self, ?_⟩
        rw [hc.task, Function.update_of_ne hne, Function.update_self]
        exact ht
      · exact husers q hq
    · intro hcur
      rcases List.mem_cons.mp hcur with hcur | hcur
      · -- the new task is not the running one
        have hcp : k.currentTask = p := hcur
        rw [hc.current] at hcp
        exact absurd (hcp ▸ hi.ring.current) hmem
      · exact hlaw hcur
  | scheduler =>
    cases hs : s.kernel.schedulerInitialized with
    | false =>
      rw [Ring.scheduler_of_not_started hs] at hr ⊢
      exact ⟨hr, hi.users, hi.law⟩
    | true =>
      rw [hi.ring.scheduler_eq hs] at hr ⊢
      refine ⟨hr, hi.users, ?_⟩
      intro hcur
      exact if_pos (hi.users _ hcur).2

/-- **The stack for interrupts is that of the running user task**, in every run in which `kmalloc`
returns new blocks. -/
theorem espLaw_of_run {s₀ : Sys H} (hs₀ : AfterInit boot_task s₀)
    (h : Run (Within (Step entries kmalloc) (Fresh kmalloc)) s₀ ops s) : EspLaw s := by
  have husers : ∀ p, p ∉ s₀.users := by
    intro p
    rw [hs₀.2.2]
    exact List.not_mem_nil
  have hinit : EspInv s₀ := ⟨hs₀.ring, fun p hp => absurd hp (husers p),
    fun hcur => absurd hcur (husers _)⟩
  exact (h.invariant (I := EspInv) (fun hi hs => hi.step hs) hinit).law

end Law

theorem freshPage_kernel : Kmalloc.FreshPage [] 0xC0160000 :=
  ⟨by decide, by decide, by decide, List.not_mem_nil⟩

/-- The first user task runs on its own stack. -/
theorem espLaw_first_user :
    ∃ s : Sys Kmalloc.Heap, s.kernel.currentTask = 0xC0160F08 ∧ s.kernel.currentTask ∈ s.users ∧
      EspLaw s := by
  obtain ⟨s₀, _, ops, s, _, _, hinit, hrun, -, hcur, huser, -⟩ :=
    exists_running ⟨0xC0101000, 0x100010⟩ freshPage_kernel (n := 1) (by decide) (by decide)
  exact ⟨s, hcur, huser, espLaw_of_run hinit hrun⟩

/-- The 83rd block of 40 bytes is the 82nd one again: when the task in that block runs and another
user task is created, its `kernel_stack_base` is not `esp0` any more. -/
theorem not_espLaw_reused :
    ∃ s₀ ops s, AfterBoot 0xC0160000 s₀ ∧
      Run (Step ⟨0xC0101000, 0x100010⟩ kmallocTask) s₀ ops s ∧ ¬ EspLaw s := by
  obtain ⟨s₀, boot_task, ops, s, used, hboot, hinit, hrun, hf, hcur, huser, hstack⟩ :=
    exists_running ⟨0xC0101000, 0x100010⟩ freshPage_kernel (n := 81) (by decide) (by decide)
  have hesp : s.kernel.esp0 = stackPage 80 + 4096 := (espLaw_of_run hinit hrun huser).trans hstack
  -- the next task gets the block of the running one
  obtain ⟨s', -, hstep, -, hcreate, -, husers, -⟩ := createUser_firstBlock
    ⟨0xC0101000, 0x100010⟩ hf (Or.inr (by decide)) (stackPage 81)
  obtain ⟨hbase, hcurrent, hesp'⟩ := taskCreateUser_stack hcreate
  refine ⟨s₀, _, s', hboot, (hrun.mono fun h => h.2).snoc hstep, ?_⟩
  intro hlaw
  have hmem : s'.kernel.currentTask ∈ s'.users := by
    rw [husers, hcurrent]
    exact List.mem_cons_of_mem _ huser
  have heq := hlaw hmem
  have hblock : s'.kernel.currentTask = 0xC0160000 + (max 48 (3888 - 48 * 81) - 40) :=
    hcurrent.trans hcur
  rw [hblock, hbase, hesp', hesp] at heq
  exact absurd heq (by decide)

end Aosis.Scheduler
