import Aosis.Task.Switch
import Mathlib.Data.Set.Insert

/-!
# Stale bytes in the blocks of the tasks

`kmalloc` does not clear the blocks that it returns, so a member of `struct task` that a constructor
does not write has the value that was in memory before.  Two runs of the same calls, which get the
same blocks, are compared here.

* `switches_eq_of_run`: the switches and `tss_region.esp0` are the same, as long as the bytes of
  `is_user` in the blocks of the boot task and of the kernel tasks are the same.
* `switches_ne_stale`: otherwise they are not, because `task_create_kernel` does not write
  `is_user`.
-/

namespace Aosis.Scheduler

open Aosis.Lib

/-! ### Calls -/

/-- A call, with the block that `kmalloc` and the page that `vmm_alloc_page` return in it. -/
inductive Call where
  | taskInit (boot_task : Nat)
  | createKernel (new_task : Nat) (alloc_stack : Word)
  | createUser (new_task : Nat) (alloc_stack : Word)
  | schedulerInit
  | scheduler

/-- The kernel, and the tasks that it switched to with `tss_region.esp0` after each switch. -/
structure Trace where
  kernel : Kernel
  switches : List (Nat × Word)

/-- The switch in a call of the scheduler, if there is one. -/
def switchOf (k : Kernel) : List (Nat × Word) :=
  match Interrupt.schedulerCall k with
  | none => []
  | some (next_task, k') => [(next_task, k'.esp0)]

/-- The calls that return, and those of the scheduler. -/
inductive CallStep (entries : Entries) : Trace → Call → Trace → Prop
  | taskInit {s : Trace} {boot_task : Nat} {k : Kernel}
      (h : Scheduler.taskInit boot_task s.kernel = .ok () k) :
      CallStep entries s (.taskInit boot_task) ⟨k, s.switches⟩
  | createKernel {s : Trace} {new_task : Nat} {alloc_stack : Word} {k : Kernel}
      (h : taskCreateKernel entries new_task alloc_stack s.kernel = .ok () k) :
      CallStep entries s (.createKernel new_task alloc_stack) ⟨k, s.switches⟩
  | createUser {s : Trace} {new_task : Nat} {alloc_stack : Word} {k : Kernel}
      (h : taskCreateUser entries new_task alloc_stack s.kernel = .ok () k) :
      CallStep entries s (.createUser new_task alloc_stack) ⟨k, s.switches⟩
  | schedulerInit {s : Trace} {k : Kernel} (h : Scheduler.schedulerInit s.kernel = .ok () k) :
      CallStep entries s .schedulerInit ⟨k, s.switches⟩
  | scheduler {s : Trace} : CallStep entries s .scheduler
      ⟨Scheduler.scheduler s.kernel, s.switches ++ switchOf s.kernel⟩

/-- Two kernels before `task_init` that differ in the blocks of memory only. -/
structure Twins (a b : Trace) : Prop where
  same : b.kernel = { a.kernel with task := b.kernel.task }
  current : a.kernel.currentTask = 0
  head : a.kernel.taskListHead = 0
  tail : a.kernel.taskListTail = 0
  switches : a.switches = b.switches

/-- The members that `task_init` and `task_create_kernel` do not write are the same in both blocks,
as far as the scheduler looks at them. -/
def SameStale (s : Trace × Trace) : Call → Prop
  | .taskInit p => (s.1.kernel.task p).isUser = (s.2.kernel.task p).isUser ∧
      ((s.1.kernel.task p).isUser = true →
        (s.1.kernel.task p).kernelStackBase = (s.2.kernel.task p).kernelStackBase)
  | .createKernel p _ => (s.1.kernel.task p).isUser = (s.2.kernel.task p).isUser
  | _ => True

/-! ### What the calls write -/

section Append

variable {entries : Entries} {k k' : Kernel} {p : Nat} {alloc_stack : Word}

/-- A task in the block `p` goes to the end of the list. -/
structure Appended (k : Kernel) (p : Nat) (user : Bool) (base : Word) (k' : Kernel) : Prop where
  next : ∀ q, k'.next q = if k.taskListTail ≠ 0 ∧ q = k.taskListTail then p
    else if q = p then k.taskListHead else k.next q
  isUser : ∀ q, (k'.task q).isUser = if q = p then user else (k.task q).isUser
  base : ∀ q, (k'.task q).kernelStackBase = if q = p then base else (k.task q).kernelStackBase
  current : k'.currentTask = k.currentTask
  head : k'.taskListHead = k.taskListHead
  tail : k'.taskListTail = p
  started : k'.schedulerInitialized = k.schedulerInitialized
  esp0 : k'.esp0 = k.esp0

theorem field_taskAppend {α : Type} (f : Task → α) (hpid : ∀ t n, f { t with pid := n } = f t)
    (hnext : ∀ t n, f { t with nextTask := n } = f t) (m : Kernel) (q : Nat) :
    f ((taskAppend p m).task q) = f (m.task q) := by
  rw [taskAppend]
  split
  · exact (Kernel.field_modifyTask f (fun t => hnext t p) _ _ q).trans
      (Kernel.field_modifyTask f (fun t => hpid t _) m p q)
  · rfl

theorem task_taskAppend {m : Kernel} (htail : m.taskListTail ≠ 0) : (taskAppend p m).task =
    ((m.modifyTask p fun t => { t with pid := u32 ((m.task m.taskListTail).pid + 1) }).modifyTask
      m.taskListTail fun t => { t with nextTask := p }).task := by
  rw [taskAppend, if_pos htail]
  rfl

theorem next_taskAppend (m : Kernel) (q : Nat) : (taskAppend p m).next q =
    if m.taskListTail ≠ 0 ∧ q = m.taskListTail then p else m.next q := by
  by_cases htail : m.taskListTail = 0
  · rw [taskAppend, if_neg (not_not_intro htail), if_neg fun h => h.1 htail]
    rfl
  · rw [Kernel.next, task_taskAppend htail]
    by_cases hq : q = m.taskListTail
    · rw [if_pos ⟨htail, hq⟩, hq]
      exact congrArg Task.nextTask Kernel.task_modifyTask_self
    · rw [if_neg fun h => hq h.2]
      rw [Kernel.task_modifyTask_ne hq]
      refine Kernel.field_modifyTask Task.nextTask ?_ m p q
      intro t
      rfl

theorem taskAppend_appended {m : Kernel} {t : Task} (htask : m.task = Function.update k.task p t)
    (hnext : t.nextTask = k.taskListHead) (hcurrent : m.currentTask = k.currentTask)
    (hhead : m.taskListHead = k.taskListHead) (htail : m.taskListTail = k.taskListTail)
    (hstarted : m.schedulerInitialized = k.schedulerInitialized) (hesp0 : m.esp0 = k.esp0) :
    Appended k p t.isUser t.kernelStackBase (taskAppend p m) := by
  have hfield : ∀ {α : Type} (f : Task → α) q,
      f (m.task q) = if q = p then f t else f (k.task q) := by
    intro α f q
    rw [htask, Function.update_apply, apply_ite f]
  have hglobals : (taskAppend p m).currentTask = m.currentTask ∧
      (taskAppend p m).taskListHead = m.taskListHead ∧
      (taskAppend p m).schedulerInitialized = m.schedulerInitialized ∧
      (taskAppend p m).esp0 = m.esp0 := by
    rw [taskAppend]
    split <;> exact ⟨rfl, rfl, rfl, rfl⟩
  obtain ⟨hc, hh, hs, he⟩ := hglobals
  refine ⟨fun q => ?_, fun q => ?_, fun q => ?_, hc.trans hcurrent, hh.trans hhead, ?_,
    hs.trans hstarted, he.trans hesp0⟩
  · rw [next_taskAppend, htail]
    congr 1
    exact (hfield Task.nextTask q).trans (by rw [hnext]; rfl)
  · rw [field_taskAppend Task.isUser (fun _ _ => rfl) fun _ _ => rfl]
    exact hfield Task.isUser q
  · rw [field_taskAppend Task.kernelStackBase (fun _ _ => rfl) fun _ _ => rfl]
    exact hfield Task.kernelStackBase q
  · rw [taskAppend]

theorem taskCreateKernel_appended (h : taskCreateKernel entries p alloc_stack k = .ok () k') :
    p ≠ 0 ∧ Appended k p (k.task p).isUser (alloc_stack + 4096) k' := by
  rw [taskCreateKernel] at h
  generalize alloc_stack + 4096 = base at h ⊢
  generalize sizeofTrapframe - 8 = n at h
  split at h
  · cases h
  · next hp =>
    injection h with _ hk
    rw [← hk]
    refine ⟨hp, taskAppend_appended (t := ⟨base - n, k.kernelPageDirectory, (k.task p).pid,
      (k.task p).isUser, base, k.taskListHead⟩) ?_ rfl rfl rfl rfl rfl rfl⟩
    simp [Kernel.modifyTask]

theorem taskCreateUser_appended (h : taskCreateUser entries p alloc_stack k = .ok () k') :
    p ≠ 0 ∧ Appended k p true (alloc_stack + 4096) k' := by
  rw [taskCreateUser] at h
  generalize alloc_stack + 4096 = base at h ⊢
  split at h
  · cases h
  · next hp =>
    injection h with _ hk
    rw [← hk]
    refine ⟨hp, taskAppend_appended (t := ⟨base - sizeofTrapframe, (k.task p).pageDirectoryPhys,
      (k.task p).pid, true, base, k.taskListHead⟩) ?_ rfl rfl rfl rfl rfl rfl⟩
    simp [Kernel.modifyTask]

end Append

/-! ### Two kernels -/

section Twins

variable {entries : Entries} {tasks : Set Nat} {k₁ k₂ k₁' k₂' : Kernel} {p : Nat}

/-- The scheduler sees the same in both kernels: the variables, and the members of the tasks that it
looks at.  The tasks are closed under `next_task`. -/
structure Agree (tasks : Set Nat) (k₁ k₂ : Kernel) : Prop where
  current : k₁.currentTask = k₂.currentTask
  head : k₁.taskListHead = k₂.taskListHead
  tail : k₁.taskListTail = k₂.taskListTail
  started : k₁.schedulerInitialized = k₂.schedulerInitialized
  esp0 : k₁.esp0 = k₂.esp0
  next : ∀ q ∈ tasks, k₁.next q = k₂.next q
  isUser : ∀ q ∈ tasks, (k₁.task q).isUser = (k₂.task q).isUser
  base : ∀ q ∈ tasks, (k₁.task q).isUser = true →
    (k₁.task q).kernelStackBase = (k₂.task q).kernelStackBase
  current_mem : k₁.currentTask ≠ 0 → k₁.currentTask ∈ tasks
  head_mem : k₁.taskListHead ≠ 0 → k₁.taskListHead ∈ tasks
  next_mem : ∀ q ∈ tasks, k₁.next q ≠ 0 → k₁.next q ∈ tasks

/-- **A constructor writes the rest**: the kernels agree on the new task as well. -/
theorem Agree.append (h : Agree tasks k₁ k₂) {user : Bool} {base : Word}
    (h₁ : Appended k₁ p user base k₁') (h₂ : Appended k₂ p user base k₂') :
    Agree (insert p tasks) k₁' k₂' := by
  have hmem : ∀ q ∈ insert p tasks, q ≠ p → q ∈ tasks := fun q hq hne => hq.resolve_left hne
  have hnext : ∀ q ∈ insert p tasks, k₁'.next q = k₂'.next q := by
    intro q hq
    rw [h₁.next, h₂.next, h.tail, h.head]
    split
    · rfl
    · split
      · rfl
      · next hne => exact h.next q (hmem q hq hne)
  refine ⟨by rw [h₁.current, h₂.current, h.current], by rw [h₁.head, h₂.head, h.head],
    by rw [h₁.tail, h₂.tail], by rw [h₁.started, h₂.started, h.started],
    by rw [h₁.esp0, h₂.esp0, h.esp0], hnext, fun q hq => ?_, fun q hq huser => ?_, fun hc => ?_,
    fun hh => ?_, fun q hq hn => ?_⟩
  · rw [h₁.isUser, h₂.isUser]
    split
    · rfl
    · next hne => exact h.isUser q (hmem q hq hne)
  · rw [h₁.isUser] at huser
    rw [h₁.base, h₂.base]
    split
    · rfl
    · next hne =>
      rw [if_neg hne] at huser
      exact h.base q (hmem q hq hne) huser
  · rw [h₁.current] at hc ⊢
    exact Set.mem_insert_of_mem _ (h.current_mem hc)
  · rw [h₁.head] at hh ⊢
    exact Set.mem_insert_of_mem _ (h.head_mem hh)
  · rw [h₁.next] at hn ⊢
    split at hn
    · next hc =>
      rw [if_pos hc]
      exact Set.mem_insert _ _
    · next hc =>
      rw [if_neg hc]
      split at hn
      · next hqp =>
        rw [if_pos hqp]
        exact Set.mem_insert_of_mem _ (h.head_mem hn)
      · next hqp =>
        rw [if_neg hqp]
        exact Set.mem_insert_of_mem _ (h.next_mem q (hmem q hq hqp) hn)

theorem taskInit_fields {k k' : Kernel} (h : taskInit p k = .ok () k') :
    (∀ q, k'.next q = if q = p then p else k.next q) ∧
    (∀ q, (k'.task q).isUser = (k.task q).isUser) ∧
    (∀ q, (k'.task q).kernelStackBase = (k.task q).kernelStackBase) ∧
    k'.currentTask = p ∧ k'.taskListHead = p ∧ k'.taskListTail = p ∧
    k'.schedulerInitialized = k.schedulerInitialized ∧ k'.esp0 = k.esp0 := by
  rw [taskInit] at h
  split at h
  · cases h
  · injection h with _ hk
    have htask : k'.task = (k.modifyTask p fun t => { t with
        pid := 0, nextTask := p, pageDirectoryPhys := k.kernelPageDirectory }).task := by
      rw [← hk]
    have hvars : k'.currentTask = p ∧ k'.taskListHead = p ∧ k'.taskListTail = p ∧
        k'.schedulerInitialized = k.schedulerInitialized ∧ k'.esp0 = k.esp0 := by
      rw [← hk]
      exact ⟨rfl, rfl, rfl, rfl, rfl⟩
    refine ⟨?_, ?_, ?_, hvars⟩
    · intro q
      rw [Kernel.next, htask]
      by_cases hq : q = p
      · rw [if_pos hq, hq, Kernel.task_modifyTask_self]
      · rw [if_neg hq, Kernel.task_modifyTask_ne hq]
        rfl
    · intro q
      rw [htask]
      refine Kernel.field_modifyTask Task.isUser ?_ k p q
      intro t
      rfl
    · intro q
      rw [htask]
      refine Kernel.field_modifyTask Task.kernelStackBase ?_ k p q
      intro t
      rfl

theorem Agree.taskInit (h : Agree tasks k₁ k₂) (hinit₁ : taskInit p k₁ = .ok () k₁')
    (hinit₂ : taskInit p k₂ = .ok () k₂') (huser : (k₁.task p).isUser = (k₂.task p).isUser)
    (hbase : (k₁.task p).isUser = true →
      (k₁.task p).kernelStackBase = (k₂.task p).kernelStackBase) :
    Agree (insert p tasks) k₁' k₂' := by
  obtain ⟨hnext₁, huser₁, hbase₁, hc₁, hh₁, ht₁, hs₁, he₁⟩ := taskInit_fields hinit₁
  obtain ⟨hnext₂, huser₂, hbase₂, hc₂, hh₂, ht₂, hs₂, he₂⟩ := taskInit_fields hinit₂
  have hmem : ∀ q ∈ insert p tasks, q ≠ p → q ∈ tasks := fun q hq hne => hq.resolve_left hne
  refine ⟨by rw [hc₁, hc₂], by rw [hh₁, hh₂], by rw [ht₁, ht₂], by rw [hs₁, hs₂, h.started],
    by rw [he₁, he₂, h.esp0], fun q hq => ?_, fun q hq => ?_, fun q hq hu => ?_, fun _ => ?_,
    fun _ => ?_, fun q hq hn => ?_⟩
  · rw [hnext₁, hnext₂]
    split
    · rfl
    · next hne => exact h.next q (hmem q hq hne)
  · rw [huser₁, huser₂]
    by_cases hqp : q = p
    · rw [hqp]
      exact huser
    · exact h.isUser q (hmem q hq hqp)
  · rw [huser₁] at hu
    rw [hbase₁, hbase₂]
    by_cases hqp : q = p
    · rw [hqp] at hu ⊢
      exact hbase hu
    · exact h.base q (hmem q hq hqp) hu
  · rw [hc₁]
    exact Set.mem_insert _ _
  · rw [hh₁]
    exact Set.mem_insert _ _
  · rw [hnext₁] at hn ⊢
    split at hn
    · next hqp =>
      rw [if_pos hqp]
      exact Set.mem_insert _ _
    · next hqp =>
      rw [if_neg hqp]
      exact Set.mem_insert_of_mem _ (h.next_mem q (hmem q hq hqp) hn)

theorem schedulerCall_eq (k : Kernel) : Interrupt.schedulerCall k =
    if k.schedulerInitialized = false ∨ k.currentTask = 0 ∨ k.next k.currentTask = 0 then none
    else some (k.next k.currentTask, { k with
      esp0 := if (k.task (k.next k.currentTask)).isUser then
        (k.task (k.next k.currentTask)).kernelStackBase else k.esp0 }) := by
  rw [Interrupt.schedulerCall]
  by_cases hs : k.schedulerInitialized = false
  · rw [if_pos hs, if_pos (Or.inl hs)]
  · rw [if_neg hs]
    by_cases hc : k.currentTask = 0 ∨ k.next k.currentTask = 0
    · rw [if_pos hc, if_pos (Or.inr hc)]
    · rw [if_neg hc, if_neg (not_or.mpr ⟨hs, hc⟩)]
      dsimp only
      split <;> rfl

/-- **The scheduler switches to the same task.** -/
theorem Agree.scheduler (h : Agree tasks k₁ k₂) :
    Agree tasks (scheduler k₁) (scheduler k₂) ∧ switchOf k₁ = switchOf k₂ := by
  rw [Interrupt.scheduler_eq_call, Interrupt.scheduler_eq_call, switchOf, switchOf,
    schedulerCall_eq, schedulerCall_eq, ← h.started, ← h.current]
  by_cases hc : k₁.currentTask = 0
  · rw [if_pos (Or.inr (Or.inl hc)), if_pos (Or.inr (Or.inl hc))]
    exact ⟨h, rfl⟩
  · have hcur := h.current_mem hc
    rw [← h.next _ hcur]
    by_cases hcall : k₁.schedulerInitialized = false ∨ k₁.currentTask = 0 ∨
        k₁.next k₁.currentTask = 0
    · rw [if_pos hcall, if_pos hcall]
      exact ⟨h, rfl⟩
    · rw [if_neg hcall, if_neg hcall]
      have hnext := h.next_mem _ hcur fun h => hcall (Or.inr (Or.inr h))
      -- the flag and the stack of the next task are the same
      have hesp : (if (k₁.task (k₁.next k₁.currentTask)).isUser then
            (k₁.task (k₁.next k₁.currentTask)).kernelStackBase else k₁.esp0) =
          if (k₂.task (k₁.next k₁.currentTask)).isUser then
            (k₂.task (k₁.next k₁.currentTask)).kernelStackBase else k₂.esp0 := by
        rw [← h.isUser _ hnext, h.esp0]
        split
        · next hu => exact h.base _ hnext hu
        · rfl
      refine ⟨⟨rfl, h.head, h.tail, rfl, hesp, h.next, h.isUser, h.base, fun _ => hnext,
        h.head_mem, h.next_mem⟩, ?_⟩
      dsimp only
      rw [hesp]

/-! ### Two runs -/

/-- The relation between the two runs. -/
def TwinInv (s : Trace × Trace) : Prop :=
  (∃ tasks, Agree tasks s.1.kernel s.2.kernel) ∧ s.1.switches = s.2.switches

theorem Twins.inv {a b : Trace} (h : Twins a b) : TwinInv (a, b) := by
  refine ⟨⟨∅, ?_⟩, h.switches⟩
  show Agree ∅ a.kernel b.kernel
  rw [h.same]
  exact ⟨rfl, rfl, rfl, rfl, rfl, fun _ hq => hq.elim, fun _ hq => hq.elim, fun _ hq => hq.elim,
    fun hc => absurd h.current hc, fun hh => absurd h.head hh, fun _ hq => hq.elim⟩

/-- **A step of both runs** with the same stale bytes keeps the relation. -/
theorem TwinInv.step {s s' : Trace × Trace} {call : Call} (h : TwinInv s)
    (hs : Within (Both (CallStep entries)) SameStale s call s') : TwinInv s' := by
  obtain ⟨a, b⟩ := s
  obtain ⟨a', b'⟩ := s'
  obtain ⟨⟨tasks, hagree⟩, hswitches⟩ := h
  obtain ⟨hstale, h₁, h₂⟩ := hs
  dsimp only at hagree hswitches h₁ h₂
  cases h₁ with
  | taskInit h₁ =>
    cases h₂ with
    | taskInit h₂ => exact ⟨⟨_, hagree.taskInit h₁ h₂ hstale.1 hstale.2⟩, hswitches⟩
  | @createKernel p _ _ h₁ =>
    cases h₂ with
    | createKernel h₂ =>
      have hcreate₂ := (taskCreateKernel_appended h₂).2
      have hstale' : (a.kernel.task p).isUser = (b.kernel.task p).isUser := hstale
      rw [← hstale'] at hcreate₂
      exact ⟨⟨_, hagree.append (taskCreateKernel_appended h₁).2 hcreate₂⟩, hswitches⟩
  | createUser h₁ =>
    cases h₂ with
    | createUser h₂ =>
      exact ⟨⟨_, hagree.append (taskCreateUser_appended h₁).2 (taskCreateUser_appended h₂).2⟩,
        hswitches⟩
  | schedulerInit h₁ =>
    cases h₂ with
    | schedulerInit h₂ =>
      injection h₁ with _ hk₁
      injection h₂ with _ hk₂
      rw [← hk₁, ← hk₂]
      exact ⟨⟨tasks, hagree.current, hagree.head, hagree.tail, rfl, hagree.esp0, hagree.next,
        hagree.isUser, hagree.base, hagree.current_mem, hagree.head_mem, hagree.next_mem⟩, hswitches⟩
  | scheduler =>
    cases h₂ with
    | scheduler =>
      obtain ⟨hagree', hswitch⟩ := hagree.scheduler
      refine ⟨⟨tasks, hagree'⟩, ?_⟩
      dsimp only
      rw [hswitches, hswitch]

/-- **Scheduling does not depend on the other stale bytes.**  Two runs with the same flags in the
blocks of the boot task and of the kernel tasks have the same switches, with the same `esp0`. -/
theorem switches_eq_of_run {a₀ b₀ a b : Trace} {calls : List Call} (h₀ : Twins a₀ b₀)
    (h : Run (Within (Both (CallStep entries)) SameStale) (a₀, b₀) calls (a, b)) :
    a.switches = b.switches :=
  (h.invariant (I := TwinInv) (fun hi hs => hi.step hs) h₀.inv).2

end Twins

/-- The boot task and a kernel task, with a switch to the latter. -/
def bootCalls : List Call :=
  [.taskInit 0xC0160F38, .createKernel 0xC0160F08 0xC0200000, .schedulerInit, .scheduler]

/-- The kernel at power-on, with stale bytes in the block of the kernel task. -/
def staleTrace (t : Task) : Trace :=
  ⟨{ kernelStatic with task := Function.update kernelStatic.task 0xC0160F08 t }, []⟩

theorem twins_staleTrace (t t' : Task) : Twins (staleTrace t) (staleTrace t') :=
  ⟨rfl, rfl, rfl, rfl, rfl⟩

/-- The kernels in a run of the calls: the flag in the block decides about `esp0`. -/
theorem exists_bootCalls (entries : Entries) (t : Task) : ∃ k₁ k₂,
    taskInit 0xC0160F38 (staleTrace t).kernel = .ok () k₁ ∧
    taskCreateKernel entries 0xC0160F08 0xC0200000 k₁ = .ok () k₂ ∧
    (k₁.task 0xC0160F08).isUser = t.isUser ∧
    switchOf { k₂ with schedulerInitialized := true } =
      [(0xC0160F08, if t.isUser then 0xC0201000 else 0)] := by
  have hinit : ∃ k, taskInit 0xC0160F38 (staleTrace t).kernel = .ok () k :=
    ⟨_, if_neg (by decide)⟩
  obtain ⟨k₁, hinit⟩ := hinit
  have hcreate : ∃ k, taskCreateKernel entries 0xC0160F08 0xC0200000 k₁ = .ok () k :=
    ⟨_, if_neg (by decide)⟩
  obtain ⟨k₂, hcreate⟩ := hcreate
  obtain ⟨-, huser, -, hcurrent, -, htail, -, hesp0⟩ := taskInit_fields hinit
  have happ := (taskCreateKernel_appended hcreate).2
  have hstale : (staleTrace t).kernel.task 0xC0160F08 = t := by
    show Function.update kernelStatic.task 0xC0160F08 t 0xC0160F08 = t
    rw [Function.update_self]
  have hflag : (k₁.task 0xC0160F08).isUser = t.isUser := by rw [huser, hstale]
  have hcur : k₂.currentTask = 0xC0160F38 := happ.current.trans hcurrent
  have hnext : k₂.next 0xC0160F38 = 0xC0160F08 := by
    rw [happ.next, htail, if_pos ⟨by decide, rfl⟩]
  have hflag₂ : (k₂.task 0xC0160F08).isUser = t.isUser := by
    rw [happ.isUser, if_pos rfl, hflag]
  have hbase : (k₂.task 0xC0160F08).kernelStackBase = 0xC0201000 := by
    rw [happ.base, if_pos rfl]
    rfl
  have hesp : k₂.esp0 = 0 := (happ.esp0.trans hesp0).trans rfl
  refine ⟨k₁, k₂, hinit, hcreate, hflag, ?_⟩
  rw [switchOf, schedulerCall_eq]
  show (match (if true = false ∨ k₂.currentTask = 0 ∨ k₂.next k₂.currentTask = 0 then none
    else some (k₂.next k₂.currentTask, { k₂ with
      schedulerInitialized := true
      esp0 := if (k₂.task (k₂.next k₂.currentTask)).isUser then
        (k₂.task (k₂.next k₂.currentTask)).kernelStackBase else k₂.esp0 })) with
    | none => []
    | some (next_task, k') => [(next_task, k'.esp0)]) = _
  rw [hcur, hnext, hflag₂, hbase, hesp, if_neg (by decide)]

theorem run_bootCalls {entries : Entries} {t t' : Task} {a₁ a₂ b₁ b₂ : Kernel}
    {C : Trace × Trace → Call → Prop} (ha₁ : taskInit 0xC0160F38 (staleTrace t).kernel = .ok () a₁)
    (ha₂ : taskCreateKernel entries 0xC0160F08 0xC0200000 a₁ = .ok () a₂)
    (hb₁ : taskInit 0xC0160F38 (staleTrace t').kernel = .ok () b₁)
    (hb₂ : taskCreateKernel entries 0xC0160F08 0xC0200000 b₁ = .ok () b₂)
    (h₁ : C (staleTrace t, staleTrace t') (.taskInit 0xC0160F38))
    (h₂ : C (⟨a₁, []⟩, ⟨b₁, []⟩) (.createKernel 0xC0160F08 0xC0200000))
    (h₃ : ∀ s, C s .schedulerInit ∧ C s .scheduler) :
    Run (Within (Both (CallStep entries)) C) (staleTrace t, staleTrace t') bootCalls
      (⟨scheduler { a₂ with schedulerInitialized := true },
        switchOf { a₂ with schedulerInitialized := true }⟩,
      ⟨scheduler { b₂ with schedulerInitialized := true },
        switchOf { b₂ with schedulerInitialized := true }⟩) := by
  have hinit : Within (Both (CallStep entries)) C (staleTrace t, staleTrace t')
      (.taskInit 0xC0160F38) (⟨a₁, []⟩, ⟨b₁, []⟩) := ⟨h₁, .taskInit ha₁, .taskInit hb₁⟩
  have hcreate : Within (Both (CallStep entries)) C (⟨a₁, []⟩, ⟨b₁, []⟩)
      (.createKernel 0xC0160F08 0xC0200000) (⟨a₂, []⟩, ⟨b₂, []⟩) :=
    ⟨h₂, .createKernel ha₂, .createKernel hb₂⟩
  have hstart : Within (Both (CallStep entries)) C (⟨a₂, []⟩, ⟨b₂, []⟩) .schedulerInit
      (⟨{ a₂ with schedulerInitialized := true }, []⟩,
        ⟨{ b₂ with schedulerInitialized := true }, []⟩) :=
    ⟨(h₃ _).1, .schedulerInit rfl, .schedulerInit rfl⟩
  exact (((Run.single hinit).snoc hcreate).snoc hstart).snoc ⟨(h₃ _).2, .scheduler, .scheduler⟩

/-- Stale bytes in other members of the task make no difference. -/
theorem switches_eq_stalePid : ∃ a b : Trace, a.switches = [(0xC0160F08, 0)] ∧
    Run (Both (CallStep ⟨0xC0101000, 0x100010⟩))
      (staleTrace ⟨0, 0, 7, false, 0, 0⟩, staleTrace ⟨0, 0, 8, false, 5, 0⟩) bootCalls (a, b) ∧
    a.switches = b.switches := by
  obtain ⟨a₁, a₂, ha₁, ha₂, hau, ha⟩ :=
    exists_bootCalls ⟨0xC0101000, 0x100010⟩ ⟨0, 0, 7, false, 0, 0⟩
  obtain ⟨b₁, b₂, hb₁, hb₂, hbu, -⟩ :=
    exists_bootCalls ⟨0xC0101000, 0x100010⟩ ⟨0, 0, 8, false, 5, 0⟩
  have hrun := run_bootCalls (C := SameStale) ha₁ ha₂ hb₁ hb₂ ⟨rfl, fun _ => rfl⟩
    (hau.trans hbu.symm) fun _ => ⟨trivial, trivial⟩
  exact ⟨_, _, ha, hrun.mono fun h => h.2, switches_eq_of_run (twins_staleTrace _ _) hrun⟩

/-- A stale `is_user` in the block of the kernel task lets the switch to it change
`tss_region.esp0`. -/
theorem switches_ne_stale : ∃ a₀ b₀ a b : Trace, Twins a₀ b₀ ∧
    Run (Both (CallStep ⟨0xC0101000, 0x100010⟩)) (a₀, b₀) bootCalls (a, b) ∧
    a.switches ≠ b.switches := by
  obtain ⟨a₁, a₂, ha₁, ha₂, -, ha⟩ :=
    exists_bootCalls ⟨0xC0101000, 0x100010⟩ ⟨0, 0, 0, true, 0, 0⟩
  obtain ⟨b₁, b₂, hb₁, hb₂, -, hb⟩ :=
    exists_bootCalls ⟨0xC0101000, 0x100010⟩ ⟨0, 0, 0, false, 0, 0⟩
  have hrun := run_bootCalls (C := fun _ _ => True) ha₁ ha₂ hb₁ hb₂ trivial trivial
    fun _ => ⟨trivial, trivial⟩
  refine ⟨_, _, _, _, twins_staleTrace _ _, hrun.mono fun h => h.2, ?_⟩
  dsimp only
  rw [ha, hb]
  decide

end Aosis.Scheduler
