import Aosis.Common.Word
import Mathlib.Logic.Function.Basic

/-!
# Tasks and the scheduler

`kernel/task/task.c`, `kernel/task/scheduler.c` and `gdt_update_tss` of `kernel/memory/gdt.c`.  The
tasks form a ring along `next_task`; `task_list_head` and `task_list_tail` are its first and last
task in the order of creation.

`kmalloc` and `vmm_alloc_page` are called once by each function that creates a task; what they
return is an argument here.  The block of a new task holds what was in memory before, because
`kmalloc` does not clear it.

Of `task_switch_asm` this file has the change of `current_task`; what it does to the registers
is not visible to the scheduler, which never continues after the call.
-/

namespace Aosis.Scheduler

/-- `struct task`, with the members that the kernel uses. -/
structure Task where
  trapframe : Word
  pageDirectoryPhys : Word
  pid : Nat
  isUser : Bool
  kernelStackBase : Word
  nextTask : Nat

/-- The task structures by their addresses, the words of memory (the kernel stacks), and the
variables of `task.c`, `scheduler.c`, `gdt.c` and `paging.c`. -/
structure Kernel where
  task : Nat → Task
  mem : Word → Word
  currentTask : Nat
  taskListHead : Nat
  taskListTail : Nat
  schedulerInitialized : Bool
  esp0 : Word
  kernelPageDirectory : Word

/-- The addresses of `task_test` and `task_userspace`. -/
structure Entries where
  taskTest : Word
  taskUserspace : Word

/-! ### Constants -/

/-- `sizeof(struct task)`. -/
def sizeofTask : Nat := 40

/-- `sizeof(struct trapframe)`. -/
def sizeofTrapframe : Word := 64

/-- `GDT_KERNEL_CODE_SEG`. -/
def gdtKernelCodeSeg : Word := 0x08

/-- `GDT_KERNEL_DATA_SEG`. -/
def gdtKernelDataSeg : Word := 0x10

/-- `GDT_USER_CODE_SEG`. -/
def gdtUserCodeSeg : Word := 0x23

/-- `GDT_USER_DATA_SEG`. -/
def gdtUserDataSeg : Word := 0x2B

/-- `KERNEL_VIRT_BASE`. -/
def kernelVirtBase : Word := 0xC0000000

namespace Kernel

/-- Assign to members of the structure at `p`. -/
def modifyTask (s : Kernel) (p : Nat) (f : Task → Task) : Kernel :=
  { s with task := Function.update s.task p (f (s.task p)) }

/-- Store the word `v` at the address `a`. -/
def store (s : Kernel) (a v : Word) : Kernel := { s with mem := Function.update s.mem a v }

/-- `memset(page, 0, PAGE_SIZE)`. -/
def clearPage (s : Kernel) (page : Word) : Kernel :=
  { s with mem := fun a => if (a - page).toNat < pageSize then 0 else s.mem a }

/-- `next_task`. -/
def next (s : Kernel) (p : Nat) : Nat := (s.task p).nextTask

end Kernel

/-! ### The source -/

/-- `task_init`, with the block that `kmalloc` returned. -/
def taskInit (boot_task : Nat) : Kern Kernel Unit := fun s =>
  if boot_task = 0 then .error (.pageFault 0) s
  else
    let s := s.modifyTask boot_task fun t =>
      { t with pid := 0, nextTask := boot_task, pageDirectoryPhys := s.kernelPageDirectory }
    .ok () { s with currentTask := boot_task, taskListHead := boot_task, taskListTail := boot_task }

/-- `scheduler_init`. -/
def schedulerInit : Kern Kernel Unit := fun s => .ok () { s with schedulerInitialized := true }

/-- `task_update_trapframe`. -/
def taskUpdateTrapframe (tf : Word) (s : Kernel) : Kernel :=
  if s.currentTask ≠ 0 then s.modifyTask s.currentTask fun t => { t with trapframe := tf } else s

/-- The end of `task_create_kernel` and of `task_create_user`, which appends the task. -/
def taskAppend (new_task : Nat) (s : Kernel) : Kernel :=
  let s := if s.taskListTail ≠ 0 then
    let pid := u32 ((s.task s.taskListTail).pid + 1)
    let s := s.modifyTask new_task fun t => { t with pid := pid }
    s.modifyTask s.taskListTail fun t => { t with nextTask := new_task }
  else s
  { s with taskListTail := new_task }

/-- `task_create_kernel`, with the block that `kmalloc` returned and the page that
`vmm_alloc_page` returned. -/
def taskCreateKernel (entries : Entries) (new_task : Nat) (alloc_stack : Word) :
    Kern Kernel Unit := fun s =>
  if new_task = 0 then .error (.pageFault 0) s
  else
    let s := s.modifyTask new_task fun t =>
      { t with nextTask := s.taskListHead, pageDirectoryPhys := s.kernelPageDirectory }
    let s := s.clearPage alloc_stack
    let base := alloc_stack + 4096
    let tf := base - (sizeofTrapframe - 8)
    let s := s.modifyTask new_task fun t => { t with kernelStackBase := base, trapframe := tf }
    let s := (((s.store (tf + 44) entries.taskTest).store (tf + 52) 0x2).store (tf + 48)
      gdtKernelCodeSeg).store tf gdtKernelDataSeg
    .ok () (taskAppend new_task s)

/-- `task_create_user`, with the block that `kmalloc` returned and the page that
`vmm_alloc_page` returned. -/
def taskCreateUser (entries : Entries) (new_task : Nat) (alloc_stack : Word) :
    Kern Kernel Unit := fun s =>
  if new_task = 0 then .error (.pageFault 0) s
  else
    let s := s.modifyTask new_task fun t => { t with isUser := true, nextTask := s.taskListHead }
    let base := alloc_stack + 4096
    let s := s.modifyTask new_task fun t => { t with kernelStackBase := base }
    let s := s.clearPage (base - 4096)
    let tf := base - sizeofTrapframe
    let s := s.modifyTask new_task fun t => { t with trapframe := tf }
    let s := (((s.store (tf + 44) entries.taskUserspace).store (tf + 52) 0x2).store (tf + 48)
      gdtUserCodeSeg).store tf gdtUserDataSeg
    let s := (s.store (tf + 60) gdtUserDataSeg).store (tf + 56) kernelVirtBase
    .ok () (taskAppend new_task s)

/-- `gdt_update_tss`. -/
def gdtUpdateTss (user_kernel_stack : Word) (s : Kernel) : Kernel :=
  { s with esp0 := user_kernel_stack }

/-- The assignment to `current_task` in `task_switch_asm`. -/
def taskSwitch (next_task : Nat) (s : Kernel) : Kernel := { s with currentTask := next_task }

/-- `scheduler`. -/
def scheduler (s : Kernel) : Kernel :=
  if s.schedulerInitialized = false then s
  else if s.currentTask = 0 ∨ s.next s.currentTask = 0 then s
  else
    let next_task := s.next s.currentTask
    let s := if (s.task next_task).isUser then gdtUpdateTss (s.task next_task).kernelStackBase s
      else s
    taskSwitch (s.next s.currentTask) s

/-! ### Fields -/

namespace Kernel

variable {s : Kernel} {p q : Nat} {f : Task → Task} {a v : Word}

theorem task_modifyTask_self : (s.modifyTask p f).task p = f (s.task p) :=
  Function.update_self p _ s.task

theorem task_modifyTask_ne (h : q ≠ p) : (s.modifyTask p f).task q = s.task q :=
  Function.update_of_ne h _ s.task

theorem field_modifyTask {α : Type} (field : Task → α) (hf : ∀ t, field (f t) = field t)
    (s : Kernel) (p q : Nat) : field ((s.modifyTask p f).task q) = field (s.task q) := by
  by_cases hq : q = p
  · rw [hq, task_modifyTask_self, hf]
  · rw [task_modifyTask_ne hq]

@[simp] theorem task_store : (s.store a v).task = s.task := rfl

@[simp] theorem task_clearPage : (s.clearPage a).task = s.task := rfl

@[simp] theorem mem_modifyTask : (s.modifyTask p f).mem = s.mem := rfl

end Kernel

end Aosis.Scheduler
