import Aosis.Lib.Path
import Aosis.Lib.Run
import Aosis.Memory.KmallocFirst
import Aosis.Memory.Vmm
import Aosis.Task.Task
import Mathlib.Data.List.Nodup

/-!
# The ring of tasks

`Sys` is the kernel with its heap, for an arbitrary `kmalloc`, and with the tasks in the order in
which they were created.  A step creates a task or calls the scheduler.

* `Ring.create`, `Ring.scheduler`: both keep the ring.
* `ring_of_run`: as long as `kmalloc` returns new blocks, the tasks stay a ring.
* `roundRobin_of_run`: `next_task` leads through the tasks in the order of their creation, and
  between two turns of a task every other task has one turn.
-/

namespace Aosis.Scheduler

open Aosis.Lib Aosis.Memory

/-! ### Runs -/

/-- The kernel and its heap, the tasks in the order of creation, and those of them made by
`task_create_user`. -/
structure Sys (H : Type) where
  heap : H
  kernel : Kernel
  tasks : List Nat
  users : List Nat

/-- A call of a function of `task.c`, with the page for the stack, of `scheduler_init`, or of the
scheduler, with the task that is the current one afterwards. -/
inductive Op where
  | schedulerInit
  | createKernel (alloc_stack : Word)
  | createUser (alloc_stack : Word)
  | scheduler (current_task : Nat)

section Step

variable {H : Type} (entries : Entries) (kmalloc : Kern H Nat)

/-- The calls that return. -/
inductive Step : Sys H → Op → Sys H → Prop
  | schedulerInit {s : Sys H} {k : Kernel} (h : schedulerInit s.kernel = .ok () k) :
      Step s .schedulerInit { s with kernel := k }
  | createKernel {s : Sys H} {new_task : Nat} {alloc_stack : Word} {heap : H} {k : Kernel}
      (hp : kmalloc s.heap = .ok new_task heap)
      (h : taskCreateKernel entries new_task alloc_stack s.kernel = .ok () k) :
      Step s (.createKernel alloc_stack) ⟨heap, k, s.tasks ++ [new_task], s.users⟩
  | createUser {s : Sys H} {new_task : Nat} {alloc_stack : Word} {heap : H} {k : Kernel}
      (hp : kmalloc s.heap = .ok new_task heap)
      (h : taskCreateUser entries new_task alloc_stack s.kernel = .ok () k) :
      Step s (.createUser alloc_stack) ⟨heap, k, s.tasks ++ [new_task], new_task :: s.users⟩
  | scheduler {s : Sys H} : Step s (.scheduler (Scheduler.scheduler s.kernel).currentTask)
      { s with kernel := Scheduler.scheduler s.kernel }

/-- `kmalloc` returns a block that is not the block of a task already. -/
def Fresh (s : Sys H) : Op → Prop
  | .createKernel _ => ∀ p heap, kmalloc s.heap = .ok p heap → p ∉ s.tasks
  | .createUser _ => ∀ p heap, kmalloc s.heap = .ok p heap → p ∉ s.tasks
  | .schedulerInit => True
  | .scheduler _ => True

/-- The state after `task_init`, with the block of the boot task. -/
def AfterInit (boot_task : Nat) (s : Sys H) : Prop :=
  (∃ k, taskInit boot_task k = .ok () s.kernel) ∧ s.tasks = [boot_task] ∧ s.users = []

end Step

/-- Round robin: `next_task` leads from the head once through all tasks in the order of their
creation and back to the head, the pids count them, the current task is one of them, and
between two turns of a task every other task has exactly one turn. -/
structure RoundRobin {H : Type} (entries : Entries) (kmalloc : Kern H Nat) (s : Sys H) : Prop where
  path : Path s.kernel.next s.kernel.taskListHead s.tasks s.kernel.taskListHead
  nodup : s.tasks.Nodup
  pid : ∀ i (hi : i < s.tasks.length), (s.kernel.task s.tasks[i]).pid = i
  current : s.kernel.currentTask ∈ s.tasks
  /-- The turn comes back to the current task. -/
  again : ∃ turns s', s.kernel.currentTask ∉ turns ∧
    Run (Step entries kmalloc) s ((turns ++ [s.kernel.currentTask]).map .scheduler) s'
  /-- Until then every other task has one turn. -/
  count : ∀ turns s', s.kernel.currentTask ∉ turns →
    Run (Step entries kmalloc) s ((turns ++ [s.kernel.currentTask]).map .scheduler) s' →
    ∀ p ∈ s.tasks, p ≠ s.kernel.currentTask → turns.count p = 1

/-! ### The ring -/

/-- `next_task` leads from the head through the tasks and back to the head, the pids count the
tasks, and the current task is one of them. -/
structure Ring (s : Kernel) (tasks : List Nat) : Prop where
  nonzero : 0 ∉ tasks
  nodup : tasks.Nodup
  path : Path s.next s.taskListHead tasks s.taskListHead
  tail : ∃ l, tasks = l ++ [s.taskListTail]
  pid : ∀ i (h : i < tasks.length), (s.task tasks[i]).pid = u32 i
  current : s.currentTask ∈ tasks

/-- What the creation of the task `t` at the address `p` does. -/
structure Created (s : Kernel) (p : Nat) (t : Task) (s' : Kernel) : Prop where
  task : s'.task = Function.update (Function.update s.task p t) s.taskListTail
    { s.task s.taskListTail with nextTask := p }
  next : t.nextTask = s.taskListHead
  pid : t.pid = u32 ((s.task s.taskListTail).pid + 1)
  tail : s'.taskListTail = p
  head : s'.taskListHead = s.taskListHead
  current : s'.currentTask = s.currentTask
  started : s'.schedulerInitialized = s.schedulerInitialized
  esp0 : s'.esp0 = s.esp0

section Create

variable {s s' : Kernel} {entries : Entries} {p : Nat} {alloc_stack : Word}

theorem taskCreateKernel_created (ht : s.taskListTail ≠ 0) (hne : p ≠ s.taskListTail)
    (h : taskCreateKernel entries p alloc_stack s = .ok () s') :
    p ≠ 0 ∧ ∃ t, Created s p t s' ∧ t.kernelStackBase = alloc_stack + 4096 := by
  rw [taskCreateKernel] at h
  split at h
  · cases h
  · next hp =>
    cases h
    refine ⟨hp, ⟨alloc_stack + 4096 - (sizeofTrapframe - 8), s.kernelPageDirectory,
      u32 ((s.task s.taskListTail).pid + 1), (s.task p).isUser, alloc_stack + 4096,
      s.taskListHead⟩, ⟨?_, rfl, rfl, rfl, ?_, ?_, ?_, ?_⟩, rfl⟩
    all_goals simp [taskAppend, Kernel.modifyTask, Kernel.store, Kernel.clearPage, ht,
      Ne.symm hne]

theorem taskCreateUser_created (ht : s.taskListTail ≠ 0) (hne : p ≠ s.taskListTail)
    (h : taskCreateUser entries p alloc_stack s = .ok () s') :
    p ≠ 0 ∧ ∃ t, Created s p t s' ∧ t.kernelStackBase = alloc_stack + 4096 ∧ t.isUser = true := by
  rw [taskCreateUser] at h
  split at h
  · cases h
  · next hp =>
    cases h
    refine ⟨hp, ⟨alloc_stack + 4096 - sizeofTrapframe, (s.task p).pageDirectoryPhys,
      u32 ((s.task s.taskListTail).pid + 1), true, alloc_stack + 4096, s.taskListHead⟩,
      ⟨?_, rfl, rfl, rfl, ?_, ?_, ?_, ?_⟩, rfl, rfl⟩
    all_goals simp [taskAppend, Kernel.modifyTask, Kernel.store, Kernel.clearPage, ht,
      Ne.symm hne]

end Create

namespace Ring

variable {s s' : Kernel} {tasks : List Nat} {p : Nat} {t : Task}

theorem tail_mem (hr : Ring s tasks) : s.taskListTail ∈ tasks := by
  obtain ⟨l, hl⟩ := hr.tail
  rw [hl]
  exact List.mem_append_right l List.mem_cons_self

/-- **A new task goes to the end of the ring.** -/
theorem create (hr : Ring s tasks) (hp0 : p ≠ 0) (hp : p ∉ tasks) (hc : Created s p t s') :
    Ring s' (tasks ++ [p]) := by
  have hne : p ≠ s.taskListTail := fun he => hp (he ▸ hr.tail_mem)
  have htask : ∀ q, q ≠ p → (s'.task q).pid = (s.task q).pid := by
    intro q hq
    rw [hc.task, Function.update_apply]
    split
    · next hqt => rw [hqt]
    · rw [Function.update_of_ne hq]
  have hnew : s'.task p = t := by
    rw [hc.task, Function.update_of_ne hne, Function.update_self]
  have hnext : s'.next = Function.update (Function.update s.next p s.taskListHead)
      s.taskListTail p := by
    funext q
    rw [Kernel.next, hc.task, Function.update_apply, Function.update_apply, Function.update_apply,
      Function.update_apply]
    split
    · rfl
    · split
      · exact hc.next
      · rfl
  obtain ⟨l, hl⟩ := hr.tail
  have hpath := hr.path
  have hnd := hr.nodup
  refine ⟨?_, ?_, ?_, ⟨tasks, by rw [hc.tail]⟩, ?_, ?_⟩
  · intro hm
    rcases List.mem_append.mp hm with hm | hm
    · exact hr.nonzero hm
    · exact hp0 (List.mem_singleton.mp hm).symm
  · exact List.nodup_append.mpr ⟨hnd, List.pairwise_singleton _ p, fun a ha b hb => by
      rw [List.mem_singleton.mp hb]
      exact fun he => hp (he ▸ ha)⟩
  · rw [hl] at hpath hnd hp ⊢
    have hlast : s.next s.taskListTail = s.taskListHead := (Path.append_cons_iff.mp hpath).2
    have hins := hpath.insert hnd hp
    rw [hlast, Function.update_comm hne.symm] at hins
    rw [hnext, hc.head, List.append_assoc]
    exact hins
  · intro i hi
    rw [List.length_append, List.length_singleton] at hi
    by_cases hlt : i < tasks.length
    · rw [List.getElem_append_left hlt, htask _ (fun he => hp (he ▸ List.getElem_mem hlt))]
      exact hr.pid i hlt
    · obtain rfl : i = tasks.length := by omega
      have hlen : tasks.length = l.length + 1 := by rw [hl, List.length_append]; rfl
      have htail : (s.task s.taskListTail).pid = u32 l.length := by
        have hpid := hr.pid l.length (by omega)
        simpa [hl] using hpid
      rw [List.getElem_concat_length rfl, hnew, hc.pid, htail, hlen, u32, u32, u32]
      omega
  · rw [hc.current]
    exact List.mem_append_left [p] hr.current

theorem next_mem (hr : Ring s tasks) : s.next s.currentTask ∈ tasks := by
  obtain ⟨l₁, l₂, hl⟩ := List.append_of_mem hr.current
  have hpath := hr.path
  rw [hl] at hpath
  have hrot := hpath.rotate.start_eq
  rw [hl]
  cases hcase : (l₂ ++ l₁).head? with
  | none =>
    rw [hcase] at hrot
    rw [hrot]
    exact List.mem_append_right l₁ List.mem_cons_self
  | some b =>
    rw [hcase] at hrot
    rw [hrot]
    have hb : b ∈ l₂ ++ l₁ := List.mem_of_mem_head? hcase
    rcases List.mem_append.mp hb with hb | hb
    · exact List.mem_append_right l₁ (List.mem_cons_of_mem _ hb)
    · exact List.mem_append_left _ hb

theorem scheduler_eq (hr : Ring s tasks) (hs : s.schedulerInitialized = true) :
    Scheduler.scheduler s = { s with
      currentTask := s.next s.currentTask
      esp0 := if (s.task (s.next s.currentTask)).isUser then
        (s.task (s.next s.currentTask)).kernelStackBase else s.esp0 } := by
  have hc : s.currentTask ≠ 0 := fun h => hr.nonzero (h ▸ hr.current)
  have hn : s.next s.currentTask ≠ 0 := fun h => hr.nonzero (h ▸ hr.next_mem)
  rw [Scheduler.scheduler, if_neg (by rw [hs]; exact Bool.noConfusion),
    if_neg (not_or.mpr ⟨hc, hn⟩)]
  dsimp only
  split <;> rfl

theorem scheduler_of_not_started (hs : s.schedulerInitialized = false) :
    Scheduler.scheduler s = s := if_pos hs

/-- **The scheduler keeps the ring.** -/
theorem scheduler (hr : Ring s tasks) : Ring (Scheduler.scheduler s) tasks := by
  cases hs : s.schedulerInitialized with
  | false =>
    rw [scheduler_of_not_started hs]
    exact hr
  | true =>
    rw [hr.scheduler_eq hs]
    exact ⟨hr.nonzero, hr.nodup, hr.path, hr.tail, hr.pid, hr.next_mem⟩

end Ring

/-! ### Runs of the system -/

section Runs

variable {H : Type} {entries : Entries} {kmalloc : Kern H Nat} {s s' : Sys H} {op : Op}
  {ops : List Op} {boot_task : Nat}

theorem AfterInit.ring (h : AfterInit boot_task s) : Ring s.kernel s.tasks := by
  obtain ⟨⟨k, hinit⟩, htasks, -⟩ := h
  rw [taskInit] at hinit
  split at hinit
  · cases hinit
  · next h0 =>
    injection hinit with _ hk
    have htask : (k.modifyTask boot_task fun t => { t with
        pid := 0, nextTask := boot_task, pageDirectoryPhys := k.kernelPageDirectory }).task
        boot_task = { k.task boot_task with
          pid := 0, nextTask := boot_task, pageDirectoryPhys := k.kernelPageDirectory } :=
      Kernel.task_modifyTask_self
    rw [htasks, ← hk]
    refine ⟨?_, List.pairwise_singleton _ _, ⟨rfl, ?_⟩, ⟨[], rfl⟩, ?_, List.mem_singleton.mpr rfl⟩
    · intro hm
      exact h0 (List.mem_singleton.mp hm).symm
    · exact congrArg Task.nextTask htask
    · intro i hi
      obtain rfl : i = 0 := Nat.lt_one_iff.mp hi
      exact congrArg Task.pid htask

/-- **A step with a new block keeps the ring.** -/
theorem Ring.step (hr : Ring s.kernel s.tasks)
    (hs : Within (Step entries kmalloc) (Fresh kmalloc) s op s') : Ring s'.kernel s'.tasks := by
  obtain ⟨hfresh, hstep⟩ := hs
  have htail : s.kernel.taskListTail ≠ 0 := fun h => hr.nonzero (h ▸ hr.tail_mem)
  cases hstep with
  | schedulerInit h =>
    cases h
    exact ⟨hr.nonzero, hr.nodup, hr.path, hr.tail, hr.pid, hr.current⟩
  | createKernel hp h =>
    have hmem := hfresh _ _ hp
    obtain ⟨hp0, t, hc, -⟩ := taskCreateKernel_created htail
      (fun he => hmem (by rw [he]; exact hr.tail_mem)) h
    exact hr.create hp0 hmem hc
  | createUser hp h =>
    have hmem := hfresh _ _ hp
    obtain ⟨hp0, t, hc, -⟩ := taskCreateUser_created htail
      (fun he => hmem (by rw [he]; exact hr.tail_mem)) h
    exact hr.create hp0 hmem hc
  | scheduler => exact hr.scheduler

/-- **The ring in every run with new blocks.** -/
theorem ring_of_run {s₀ : Sys H} (hs₀ : AfterInit boot_task s₀)
    (h : Run (Within (Step entries kmalloc) (Fresh kmalloc)) s₀ ops s) :
    Ring s.kernel s.tasks :=
  h.invariant (I := fun s => Ring s.kernel s.tasks) (fun hr hs => hr.step hs) hs₀.ring

theorem started_step (hr : Ring s.kernel s.tasks) (hs : s.kernel.schedulerInitialized = true)
    (h : Within (Step entries kmalloc) (Fresh kmalloc) s op s') :
    s'.kernel.schedulerInitialized = true := by
  obtain ⟨hfresh, hstep⟩ := h
  have htail : s.kernel.taskListTail ≠ 0 := fun h => hr.nonzero (h ▸ hr.tail_mem)
  cases hstep with
  | schedulerInit h =>
    cases h
    rfl
  | createKernel hp h =>
    obtain ⟨-, t, hc, -⟩ := taskCreateKernel_created htail
      (fun he => hfresh _ _ hp (by rw [he]; exact hr.tail_mem)) h
    exact hc.started.trans hs
  | createUser hp h =>
    obtain ⟨-, t, hc, -⟩ := taskCreateUser_created htail
      (fun he => hfresh _ _ hp (by rw [he]; exact hr.tail_mem)) h
    exact hc.started.trans hs
  | scheduler =>
    rw [hr.scheduler_eq hs]
    exact hs

/-- Turns that follow each other without a creation between them follow `next_task`, and change
nothing but the current task and `esp0`. -/
theorem path_of_turns (hr : Ring s.kernel s.tasks) (hs : s.kernel.schedulerInitialized = true)
    {turns : List Nat} (h : Run (Step entries kmalloc) s (turns.map .scheduler) s') :
    ∃ c e, s' = { s with kernel := { s.kernel with currentTask := c, esp0 := e } } ∧ c ∈ s.tasks ∧
      Path s.kernel.next (s.kernel.next s.kernel.currentTask) turns (s.kernel.next c) := by
  induction turns using List.reverseRecOn generalizing s' with
  | nil =>
    obtain rfl := h.eq_of_nil
    exact ⟨_, _, rfl, hr.current, rfl⟩
  | append_singleton turns p ih =>
    rw [List.map_append] at h
    obtain ⟨u, hu, hstep⟩ := h.of_snoc
    obtain ⟨c, e, rfl, hc, hpath⟩ := ih hu
    have hru : Ring { s.kernel with currentTask := c, esp0 := e } s.tasks :=
      ⟨hr.nonzero, hr.nodup, hr.path, hr.tail, hr.pid, hc⟩
    have heq := hru.scheduler_eq hs
    generalize hop : Op.scheduler p = op at hstep
    cases hstep with
    | schedulerInit => cases hop
    | createKernel => cases hop
    | createUser => cases hop
    | scheduler =>
      cases hop
      dsimp only
      rw [heq]
      exact ⟨_, _, rfl, hru.next_mem, Path.append_iff.mpr ⟨_, hpath, rfl, rfl⟩⟩

theorem nodup_rotate {l₁ l₂ : List Nat} {t : Nat} (h : (l₁ ++ t :: l₂).Nodup) :
    (t :: (l₂ ++ l₁)).Nodup :=
  (List.perm_middle.trans (List.Perm.cons t List.perm_append_comm)).nodup h

/-- **One turn for everyone.**  Between two turns of a task every other task has exactly one
turn. -/
theorem count_turns (hr : Ring s.kernel s.tasks) (hs : s.kernel.schedulerInitialized = true)
    {turns : List Nat} (hturns : s.kernel.currentTask ∉ turns)
    (h : Run (Step entries kmalloc) s ((turns ++ [s.kernel.currentTask]).map .scheduler) s') :
    ∀ p ∈ s.tasks, p ≠ s.kernel.currentTask → turns.count p = 1 := by
  intro p hp hne
  obtain ⟨c, e, -, -, hpath⟩ := path_of_turns hr hs h
  obtain ⟨l₁, l₂, hl⟩ := List.append_of_mem hr.current
  have hring := hr.path
  have hnd := hr.nodup
  rw [hl] at hring hnd hp
  obtain ⟨hmiddle, hnodup⟩ := List.nodup_cons.mp (nodup_rotate hnd)
  have heq := (Path.append_cons_iff.mp hpath).1.eq_of_not_mem hring.rotate hturns hmiddle
  have hmem : p ∈ l₂ ++ l₁ := by
    rcases List.mem_append.mp hp with hp | hp
    · exact List.mem_append_right l₂ hp
    · rcases List.mem_cons.mp hp with hp | hp
      · exact absurd hp hne
      · exact List.mem_append_left l₁ hp
  rw [heq]
  exact List.count_eq_one_of_mem hnodup hmem

theorem run_of_path (entries : Entries) (kmalloc : Kern H Nat) (hr : Ring s.kernel s.tasks)
    (hs : s.kernel.schedulerInitialized = true)
    {turns : List Nat} {z : Nat}
    (hpath : Path s.kernel.next (s.kernel.next s.kernel.currentTask) turns z) :
    ∃ s', Run (Step entries kmalloc) s (turns.map .scheduler) s' := by
  induction turns using List.reverseRecOn generalizing z with
  | nil => exact ⟨s, .nil⟩
  | append_singleton turns p ih =>
    obtain ⟨m, hm, rfl, -⟩ := Path.append_iff.mp hpath
    obtain ⟨u, hu⟩ := ih hm
    obtain ⟨c, e, rfl, hc, hpath'⟩ := path_of_turns hr hs hu
    have hru : Ring { s.kernel with currentTask := c, esp0 := e } s.tasks :=
      ⟨hr.nonzero, hr.nodup, hr.path, hr.tail, hr.pid, hc⟩
    have hp : (scheduler { s.kernel with currentTask := c, esp0 := e }).currentTask = m := by
      rw [hru.scheduler_eq hs]
      exact hpath'.end_eq hm
    have hrun := hu.snoc (Step.scheduler
      (s := { s with kernel := { s.kernel with currentTask := c, esp0 := e } }))
    rw [hp] at hrun
    rw [List.map_append]
    exact ⟨_, hrun⟩

theorem exists_turns (hr : Ring s.kernel s.tasks) (hs : s.kernel.schedulerInitialized = true) :
    ∃ turns s', s.kernel.currentTask ∉ turns ∧
      Run (Step entries kmalloc) s ((turns ++ [s.kernel.currentTask]).map .scheduler) s' := by
  obtain ⟨l₁, l₂, hl⟩ := List.append_of_mem hr.current
  have hring := hr.path
  have hnd := hr.nodup
  rw [hl] at hring hnd
  have hpath : Path s.kernel.next (s.kernel.next s.kernel.currentTask)
      ((l₂ ++ l₁) ++ [s.kernel.currentTask]) (s.kernel.next s.kernel.currentTask) :=
    Path.append_cons_iff.mpr ⟨hring.rotate, rfl⟩
  obtain ⟨s', hs'⟩ := run_of_path entries kmalloc hr hs hpath
  exact ⟨l₂ ++ l₁, s', (List.nodup_cons.mp (nodup_rotate hnd)).1, hs'⟩

/-- **Round robin**, as long as `kmalloc` returns new blocks and there are fewer than `2 ^ 32`
tasks. -/
theorem roundRobin_of_run {s₀ s₁ : Sys H} (hs₀ : AfterInit boot_task s₀)
    (hs₁ : Step entries kmalloc s₀ .schedulerInit s₁)
    (h : Run (Within (Step entries kmalloc) (Fresh kmalloc)) s₁ ops s)
    (hlt : s.tasks.length < 2 ^ 32) : RoundRobin entries kmalloc s := by
  have hr₁ := hs₀.ring.step ⟨show Fresh kmalloc s₀ .schedulerInit from trivial, hs₁⟩
  have hstarted : s₁.kernel.schedulerInitialized = true := by
    cases hs₁ with
    | schedulerInit hinit =>
      injection hinit with _ hk
      rw [← hk]
  obtain ⟨hr, hs⟩ := h.invariant
    (I := fun s => Ring s.kernel s.tasks ∧ s.kernel.schedulerInitialized = true)
    (fun hi hs => ⟨hi.1.step hs, started_step hi.1 hi.2 hs⟩) ⟨hr₁, hstarted⟩
  refine ⟨hr.path, hr.nodup, fun i hi => ?_, hr.current, exists_turns hr hs,
    fun turns s' hturns hrun => count_turns hr hs hturns hrun⟩
  exact (hr.pid i hi).trans (u32_of_lt (hi.trans hlt))

end Runs

/-! ### The heap of the kernel -/

/-- `vmm_alloc_page` when there is no page left; the runs below do not call it. -/
def noPage : Kern Kmalloc.Heap Nat := fun h => .error (.panic "out of memory\n") h

/-- The calls for task structures. -/
def kmallocTask : Kern Kmalloc.Heap Nat := Kmalloc.kmalloc noPage sizeofTask

/-- The state after `kmalloc_init` at `base`, the allocation of `vmm_init` and `task_init`. -/
def AfterBoot (base : Nat) (s : Sys Kmalloc.Heap) : Prop :=
  ∃ desc h boot_task, Kmalloc.kmalloc noPage Vmm.sizeofVmmBlockDesc
      (Kmalloc.kmallocInit base fun _ => 0) = .ok desc h ∧
    kmallocTask h = .ok boot_task s.heap ∧ AfterInit boot_task s

section Heap

variable {base len : Nat} {used : List Extent} {s : Sys Kmalloc.Heap}

/-- The zeroed memory and the variables at power-on. -/
def kernelStatic : Kernel where
  task := fun _ => ⟨0, 0, 0, false, 0, 0⟩
  mem := fun _ => 0
  currentTask := 0
  taskListHead := 0
  taskListTail := 0
  schedulerInitialized := false
  esp0 := 0
  kernelPageDirectory := 0

theorem kmallocRound_vmmBlockDesc : Kmalloc.kmallocRound Vmm.sizeofVmmBlockDesc = 152 := rfl

theorem kmallocRound_task : Kmalloc.kmallocRound sizeofTask = 40 := rfl

theorem exists_afterBoot (hb : Kmalloc.FreshPage [] base) :
    ∃ s used, AfterBoot base s ∧ Kmalloc.FirstBlock s.heap base 3888 used ∧
      s.tasks = [base + 3896] ∧ s.users = [] ∧ s.kernel.currentTask = s.kernel.taskListHead := by
  obtain ⟨h₁, hk₁, hf₁⟩ := (Kmalloc.FirstBlock.init hb fun _ => 0).cut noPage (by decide)
    kmallocRound_vmmBlockDesc (by decide) (by decide) (by decide)
  obtain ⟨h₂, hk₂, hf₂⟩ := hf₁.cut noPage (by decide) kmallocRound_task (by decide) (by decide)
    (by decide)
  have hinit : ∃ k, taskInit (base + 3896) kernelStatic = .ok () k ∧
      k.currentTask = k.taskListHead := ⟨_, if_neg (Nat.succ_ne_zero _), rfl⟩
  obtain ⟨k, hinit, hcurrent⟩ := hinit
  exact ⟨⟨h₂, k, [base + 3896], []⟩, _, ⟨_, h₁, _, hk₁, hk₂, ⟨_, hinit⟩, rfl, rfl⟩, hf₂, rfl, rfl,
    hcurrent⟩

/-- A user task with its structure at the end of the first block, which is at its end or is
used up. -/
theorem createUser_firstBlock (entries : Entries) (hf : Kmalloc.FirstBlock s.heap base len used)
    (hlen : 80 ≤ len ∨ len = 48) (alloc_stack : Word) :
    ∃ s' used', Step entries kmallocTask s (.createUser alloc_stack) s' ∧
      Kmalloc.FirstBlock s'.heap base (if len = 48 then 48 else len - 48) used' ∧
      taskCreateUser entries (base + (len - 40)) alloc_stack s.kernel = .ok () s'.kernel ∧
      s'.tasks = s.tasks ++ [base + (len - 40)] ∧ s'.users = (base + (len - 40)) :: s.users ∧
      (base + (len - 40) ∉ s.tasks → Fresh kmallocTask s (.createUser alloc_stack)) := by
  have hcreate : ∃ k, taskCreateUser entries (base + (len - 40)) alloc_stack s.kernel = .ok () k :=
    ⟨_, if_neg (by omega)⟩
  obtain ⟨k, hk⟩ := hcreate
  have hkmalloc : ∃ h used', kmallocTask s.heap = .ok (base + (len - 40)) h ∧
      Kmalloc.FirstBlock h base (if len = 48 then 48 else len - 48) used' := by
    by_cases h48 : len = 48
    · subst h48
      exact ⟨s.heap, used, hf.whole (by decide) kmallocRound_task (by decide) (by decide), hf⟩
    · obtain ⟨h, hkm, hf'⟩ := hf.cut noPage (by decide) kmallocRound_task (by decide) (by decide)
        (by omega)
      rw [if_neg h48]
      exact ⟨h, _, hkm, hf'⟩
  obtain ⟨h, used', hkm, hf'⟩ := hkmalloc
  refine ⟨⟨h, k, s.tasks ++ [base + (len - 40)], (base + (len - 40)) :: s.users⟩, used',
    .createUser hkm hk, hf', hk, rfl, rfl, fun hmem p heap hp => ?_⟩
  rw [hkm] at hp
  cases hp
  exact hmem

end Heap

/-- The ring of the boot task and one user task. -/
theorem roundRobin_two :
    ∃ s, s.tasks = [0xC0160F38, 0xC0160F08] ∧ RoundRobin ⟨0xC0101000, 0x100010⟩ kmallocTask s := by
  have hb : Kmalloc.FreshPage [] 0xC0160000 := ⟨by decide, by decide, by decide, List.not_mem_nil⟩
  obtain ⟨s₀, used, ⟨_, _, boot_task, _, _, hinit⟩, hf, htasks, -, -⟩ := exists_afterBoot hb
  have hs₁ : Step ⟨0xC0101000, 0x100010⟩ kmallocTask s₀ .schedulerInit
      { s₀ with kernel := { s₀.kernel with schedulerInitialized := true } } := .schedulerInit rfl
  obtain ⟨s, -, hstep, -, -, htasks', -, hfresh⟩ := createUser_firstBlock
    (s := { s₀ with kernel := { s₀.kernel with schedulerInitialized := true } })
    ⟨0xC0101000, 0x100010⟩ hf (Or.inl (by decide)) 0xC0200000
  have hlist : s.tasks = [0xC0160F38, 0xC0160F08] := by
    rw [htasks', htasks]
    rfl
  have hnew : 0xC0160000 + (3888 - 40) ∉ s₀.tasks := by
    rw [htasks]
    decide
  refine ⟨s, hlist, roundRobin_of_run hinit hs₁ (Run.single ⟨hfresh hnew, hstep⟩) ?_⟩
  rw [hlist]
  decide

end Aosis.Scheduler
