import Aosis.Task.Switch
import Mathlib.Data.Set.Disjoint
import Mathlib.Order.CompletePartialOrder

/-!
# Preemption

The processor, the kernel and the tasks together.  The running task executes as it likes on its own
stack, the timer interrupts it anywhere, the stub saves its registers in a frame on its kernel stack,
and `task_switch_asm` goes on with the next task from the frame that lies there.

* `SavedAs.step`: a frame stays as it is until its task is resumed.
* `resumed_of_run`: a task that was preempted goes on with the registers that it had, whatever
  happens in between.

What a step may do is what the law assumes: a task and the C functions of the timer interrupt leave
the kernel stacks of the other tasks and the variables of `task.c`, `scheduler.c` and `gdt.c` alone,
the C functions also the frame of the interrupted task, and new tasks get new blocks and pages.
-/

namespace Aosis.Interrupt

open Aosis.Lib Aosis.Scheduler Machine

/-! ### Stacks -/

/-- The addresses of a page. -/
def pageSet (page : Word) : Set Word := {a | (a - page).toNat < pageSize}

/-- The kernel stack of a task: the page under its `kernel_stack_base`, and for the boot task the
stack that it was started on. -/
def kernelStack (boot_task : Nat) (boot_stack : Set Word) (k : Kernel) (p : Nat) : Set Word :=
  if p = boot_task then boot_stack else pageSet ((k.task p).kernelStackBase - 4096)

/-- A task may have these registers: in kernel mode there is room for an interrupt on its stack, only
a user task is in user mode, and the processor let it have its `ds`. -/
structure MayRun (stack : Set Word) (user : Prop) (c : Cpu) : Prop where
  room : c.kernelMode = true → ∀ i, 0 < i → i ≤ 16 → c.esp - BitVec.ofNat 32 (4 * i) ∈ stack
  user : c.kernelMode = false → user
  ds : keptSelector c.cs c.ds = c.ds

/-! ### The system -/

/-- The registers, the kernel with its tasks, and whether the handler of the timer runs. -/
structure System (H : Type) where
  cpu : Cpu
  sys : Sys H
  handling : Bool

namespace System

variable {H : Type}

/-- The kernel. -/
abbrev kernel (s : System H) : Kernel := s.sys.kernel

/-- The processor and the kernel. -/
def machine (s : System H) : Machine := ⟨s.cpu, s.kernel⟩

/-- The system with another machine. -/
def withMachine (s : System H) (m : Machine) (handling : Bool) : System H :=
  ⟨m.cpu, { s.sys with kernel := m.kernel }, handling⟩

end System

/-- What can happen: a call of `scheduler_init` or of a function that creates a task, the code of the
running task, a timer interrupt, a switch, or the return of the timer's handler. -/
inductive Event where
  | call (op : Op)
  | run
  | timer
  | switch (next_task : Nat)
  | ret

/-- The kernel with another memory and another trapframe of the current task. -/
def withTrapframe (k : Kernel) (mem : Word → Word) (tf : Word) : Kernel :=
  { k with
    mem := mem
    task := Function.update k.task k.currentTask { k.task k.currentTask with trapframe := tf } }

/-- The number of words in the frame at `tf`. -/
def savedLength (mem : Word → Word) (tf : Word) : Nat :=
  if ring0 ((mem (tf + 48)).setWidth 16) then 14 else 16

section Step

variable {H : Type} (entries : Entries) (kmalloc : Kern H Nat) (boot_task : Nat)
  (boot_stack : Set Word)

/-- The C functions from the call of `irq_handler` on: they leave the machine `m`, with the variables
of `k`, the saved frame and the kernel stacks of the other tasks as they were. -/
structure CCode (s : System H) (k : Kernel) (m : Machine) : Prop where
  kernel : m.kernel = { k with mem := m.kernel.mem }
  frame : ∀ i < savedLength s.kernel.mem (s.kernel.task s.kernel.currentTask).trapframe,
    m.kernel.mem ((s.kernel.task s.kernel.currentTask).trapframe + BitVec.ofNat 32 (4 * i)) =
      s.kernel.mem ((s.kernel.task s.kernel.currentTask).trapframe + BitVec.ofNat 32 (4 * i))
  others : ∀ q ∈ s.sys.tasks, q ≠ s.kernel.currentTask →
    ∀ a ∈ kernelStack boot_task boot_stack s.kernel q, m.kernel.mem a = s.kernel.mem a

/-- A new task gets a block of its own and a page that is apart from the stacks of the others. -/
def NewStack (s : System H) (alloc_stack : Word) : Prop :=
  ∀ p heap, kmalloc s.sys.heap = .ok p heap → p ∉ s.sys.tasks ∧ p < 2 ^ 32 ∧
    ∀ q ∈ s.sys.tasks, Disjoint (kernelStack boot_task boot_stack s.kernel q) (pageSet alloc_stack)

/-- The calls that the running task may make. -/
def MayCall (s : System H) : Op → Prop
  | .schedulerInit => True
  | .createKernel alloc_stack => NewStack kmalloc boot_task boot_stack s alloc_stack
  | .createUser alloc_stack => NewStack kmalloc boot_task boot_stack s alloc_stack
  | .scheduler _ => False

/-- The steps of the system. -/
inductive PreemptStep : System H → Event → System H → Prop
  | call {s : System H} {op : Op} {sys : Sys H} (hr : s.handling = false)
      (hop : MayCall kmalloc boot_task boot_stack s op) (h : Step entries kmalloc s.sys op sys) :
      PreemptStep s (.call op) { s with sys := sys }
  | run {s : System H} {cpu : Cpu} {mem : Word → Word} {tf : Word} (hr : s.handling = false)
      (hcpu : MayRun (kernelStack boot_task boot_stack s.kernel s.kernel.currentTask)
        (s.kernel.currentTask ∈ s.sys.users) cpu)
      (hmem : ∀ q ∈ s.sys.tasks, q ≠ s.kernel.currentTask →
        ∀ a ∈ kernelStack boot_task boot_stack s.kernel q, mem a = s.kernel.mem a) :
      PreemptStep s .run (s.withMachine ⟨cpu, withTrapframe s.kernel mem tf⟩ false)
  | timer {s : System H} (hr : s.handling = false) :
      PreemptStep s .timer (s.withMachine (s.machine.irqEntry 32) true)
  | switch {s : System H} {p : Nat} {k : Kernel} {m : Machine} (hr : s.handling = true)
      (hcall : schedulerCall s.kernel = some (p, k)) (hc : CCode boot_task boot_stack s k m)
      (harg : m.word 4 = BitVec.ofNat 32 p) :
      PreemptStep s (.switch p) (s.withMachine m.taskSwitchAsm false)
  | ret {s : System H} {m : Machine} (hr : s.handling = true)
      (hcall : schedulerCall s.kernel = none) (hc : CCode boot_task boot_stack s s.kernel m)
      (hesp : m.cpu.esp = s.cpu.esp) :
      PreemptStep s .ret (s.withMachine m.irqReturn.iret false)

/-- The state after `task_init`: the boot task runs on its stack. -/
structure Booted (s : System H) : Prop where
  init : AfterInit boot_task s.sys
  lt : boot_task < 2 ^ 32
  handling : s.handling = false
  running : MayRun boot_stack False s.cpu

end Step

/-! ### The variables of the scheduler -/

/-- The kernels differ in their memory and in the trapframes only. -/
structure SameTasks (k k' : Kernel) : Prop where
  next : k'.next = k.next
  pid : ∀ q, (k'.task q).pid = (k.task q).pid
  isUser : ∀ q, (k'.task q).isUser = (k.task q).isUser
  base : ∀ q, (k'.task q).kernelStackBase = (k.task q).kernelStackBase
  current : k'.currentTask = k.currentTask
  head : k'.taskListHead = k.taskListHead
  tail : k'.taskListTail = k.taskListTail
  esp0 : k'.esp0 = k.esp0

section Same

variable {k k' : Kernel}

theorem sameTasks_withTrapframe (k : Kernel) (mem : Word → Word) (tf : Word) :
    SameTasks k (withTrapframe k mem tf) := by
  have hfield : ∀ {α : Type} (f : Task → α) q,
      (∀ t : Task, f { t with trapframe := tf } = f t) →
      f ((withTrapframe k mem tf).task q) = f (k.task q) := fun f q hf =>
    Kernel.field_modifyTask f hf k k.currentTask q
  exact ⟨funext fun q => hfield Task.nextTask q fun _ => rfl, fun q => hfield Task.pid q fun _ => rfl,
    fun q => hfield Task.isUser q fun _ => rfl, fun q => hfield Task.kernelStackBase q fun _ => rfl,
    rfl, rfl, rfl, rfl⟩

theorem SameTasks.kernelStack_eq (h : SameTasks k k') (boot_task : Nat) (boot_stack : Set Word)
    (q : Nat) : kernelStack boot_task boot_stack k' q = kernelStack boot_task boot_stack k q := by
  rw [kernelStack, kernelStack, h.base]

theorem EspInv.congr {H : Type} {sys : Sys H} (hi : EspInv sys) (h : SameTasks sys.kernel k') :
    EspInv { sys with kernel := k' } := by
  obtain ⟨⟨h0, hnd, hpath, ⟨l, hl⟩, hpid, hcur⟩, husers, hlaw⟩ := hi
  refine ⟨⟨h0, hnd, ?_, ⟨l, ?_⟩, fun i hi => (h.pid _).trans (hpid i hi), ?_⟩,
    fun p hp => ⟨(husers p hp).1, (h.isUser p).trans (husers p hp).2⟩, ?_⟩
  · dsimp only
    rw [h.next, h.head]
    exact hpath
  · dsimp only
    rw [h.tail]
    exact hl
  · dsimp only
    rw [h.current]
    exact hcur
  · intro hp
    dsimp only at hp ⊢
    rw [h.current] at hp
    rw [h.esp0, h.current, h.base]
    exact hlaw hp

end Same

theorem schedulerCall_some {k k' : Kernel} {p : Nat} (h : schedulerCall k = some (p, k')) :
    k'.task = k.task ∧ k'.mem = k.mem ∧ k'.currentTask = k.currentTask ∧
      taskSwitch p k' = scheduler k := by
  have heq := scheduler_eq_call k
  rw [h] at heq
  rw [schedulerCall] at h
  split at h
  · cases h
  · split at h
    · cases h
    · dsimp only at h
      cases h
      refine ⟨?_, ?_, ?_, heq.symm⟩ <;> split <;> rfl

theorem schedulerCall_ne_none {k : Kernel} {tasks : List Nat} (hr : Ring k tasks)
    (hs : k.schedulerInitialized = true) : schedulerCall k ≠ none := by
  have hc : k.currentTask ≠ 0 := fun h => hr.nonzero (h ▸ hr.current)
  have hn : k.next k.currentTask ≠ 0 := fun h => hr.nonzero (h ▸ hr.next_mem)
  rw [schedulerCall, if_neg (by rw [hs]; exact Bool.noConfusion), if_neg (not_or.mpr ⟨hc, hn⟩)]
  exact Option.some_ne_none _

/-! ### New tasks -/

section Create

variable {entries : Entries} {k k' : Kernel} {p : Nat} {alloc_stack : Word}

/-- What a task starts with. -/
structure NewFrame (k k' : Kernel) (alloc_stack : Word) (p : Nat) (c : Cpu) : Prop where
  frame : FrameAt k'.mem (k'.task p).trapframe c
  top : (k'.task p).trapframe = alloc_stack + 4096 - BitVec.ofNat 32 (4 * frameLength c)
  mem : ∀ a, a ∉ pageSet alloc_stack → k'.mem a = k.mem a

theorem mem_pageSet_sub (page : Word) {i : Nat} (h0 : 0 < i) (hi : i ≤ 1024) :
    page + 4096 - BitVec.ofNat 32 (4 * i) ∈ pageSet page := by
  show (page + 4096 - BitVec.ofNat 32 (4 * i) - page).toNat < 4096
  bv_omega

theorem mem_taskAppend (p : Nat) (k : Kernel) : (taskAppend p k).mem = k.mem := by
  rw [taskAppend]
  split <;> rfl

theorem trapframe_taskAppend (hne : p ≠ k.taskListTail) :
    ((taskAppend p k).task p).trapframe = (k.task p).trapframe := by
  rw [taskAppend]
  split
  · simp [Kernel.modifyTask, hne]
  · rfl

theorem mem_store (k : Kernel) (a v x : Word) :
    (k.store a v).mem x = if x = a then v else k.mem x := Function.update_apply k.mem a v x

theorem mem_clearPage (k : Kernel) (page x : Word) :
    (k.clearPage page).mem x = if (x - page).toNat < pageSize then 0 else k.mem x := rfl

theorem clearPage_of_pageSet {mem : Word → Word} {page tf : Word}
    (htf : tf = page + 4096 - 56 ∨ tf = page + 4096 - 64) {o : Word} (ho : o.toNat < 56) :
    (if (tf + o - page).toNat < pageSize then 0 else mem (tf + o)) = 0 := by
  apply if_pos
  rw [show pageSize = 4096 from rfl]
  bv_omega

theorem add_eq_self_iff {a o : Word} : a + o = a ↔ o = 0 := by
  constructor
  · intro h
    bv_omega
  · rintro rfl
    exact BitVec.add_zero a

/-- The frame that a new task starts from. -/
def newCpu (esp eip : Word) (cs ss ds : BitVec 16) : Cpu :=
  ⟨⟨0, 0, 0, 0, 0, 0, 0⟩, esp, eip, 2, cs, ss, ds, 0, 0, 0⟩

theorem frameAt_newCpu {mem : Word → Word} {tf esp eip cs ds : Word} {ss : BitVec 16}
    (hread : ∀ o : Word, o.toNat < 56 → mem (tf + o) =
      if o = 0 then ds else if o = 48 then cs else if o = 52 then 2 else if o = 44 then eip else 0)
    (hesp : ring0 (cs.setWidth 16) = true → tf + 56 = esp)
    (huser : ring0 (cs.setWidth 16) = false →
      mem (tf + 56) = esp ∧ (mem (tf + 60)).setWidth 16 = ss) :
    FrameAt mem tf (newCpu esp eip (cs.setWidth 16) ss (ds.setWidth 16)) := by
  have h0 : mem tf = ds := by simpa using hread 0 (by decide)
  have h4 : mem (tf + 4) = 0 := hread 4 (by decide)
  have h8 : mem (tf + 8) = 0 := hread 8 (by decide)
  have h12 : mem (tf + 12) = 0 := hread 12 (by decide)
  have h20 : mem (tf + 20) = 0 := hread 20 (by decide)
  have h24 : mem (tf + 24) = 0 := hread 24 (by decide)
  have h28 : mem (tf + 28) = 0 := hread 28 (by decide)
  have h32 : mem (tf + 32) = 0 := hread 32 (by decide)
  have h44 : mem (tf + 44) = eip := hread 44 (by decide)
  have h48 : mem (tf + 48) = cs := hread 48 (by decide)
  have h52 : mem (tf + 52) = 2 := hread 52 (by decide)
  refine ⟨by rw [h0]; rfl, ?_, h44, by rw [h48]; rfl, h52, hesp, huser⟩
  rw [h4, h8, h12, h20, h24, h28, h32]
  rfl

theorem taskCreateKernel_frame (hne : p ≠ k.taskListTail)
    (h : taskCreateKernel entries p alloc_stack k = .ok () k') :
    NewFrame k k' alloc_stack p (newCpu (alloc_stack + 4096) entries.taskTest
      (gdtKernelCodeSeg.setWidth 16) 0 (gdtKernelDataSeg.setWidth 16)) := by
  rw [taskCreateKernel] at h
  split at h
  · cases h
  · cases h
    have hlen : frameLength (newCpu (alloc_stack + 4096) entries.taskTest
        (gdtKernelCodeSeg.setWidth 16) 0 (gdtKernelDataSeg.setWidth 16)) = 14 :=
      if_pos (show ring0 (gdtKernelCodeSeg.setWidth 16) = true by decide)
    generalize htf : alloc_stack + 4096 - (sizeofTrapframe - 8) = tf
    have htop : tf = alloc_stack + 4096 - 56 := htf.symm
    refine ⟨?_, ?_, ?_⟩
    · rw [mem_taskAppend, trapframe_taskAppend (by exact hne)]
      simp only [Kernel.task_store, Kernel.task_modifyTask_self]
      refine frameAt_newCpu ?_ ?_ (fun hmode => absurd hmode (by decide))
      · intro o ho
        rw [mem_store, mem_store, mem_store, mem_store, Kernel.mem_modifyTask, mem_clearPage,
          clearPage_of_pageSet (Or.inl htop) ho]
        simp only [add_eq_self_iff, BitVec.add_right_inj]
      · intro _
        rw [htop]
        exact BitVec.sub_add_cancel _ _
    · rw [trapframe_taskAppend (by exact hne), hlen]
      simp only [Kernel.task_store, Kernel.task_modifyTask_self]
      exact htop
    · intro a ha
      have hout : ¬ (a - alloc_stack).toNat < 4096 := ha
      rw [mem_taskAppend, mem_store, mem_store, mem_store, mem_store, Kernel.mem_modifyTask,
        mem_clearPage, if_neg (by bv_omega), if_neg (by bv_omega), if_neg (by bv_omega),
        if_neg (by bv_omega), if_neg (show ¬ _ < pageSize from hout)]
      rfl

theorem taskCreateUser_frame (hne : p ≠ k.taskListTail)
    (h : taskCreateUser entries p alloc_stack k = .ok () k') :
    NewFrame k k' alloc_stack p (newCpu kernelVirtBase entries.taskUserspace
      (gdtUserCodeSeg.setWidth 16) (gdtUserDataSeg.setWidth 16) (gdtUserDataSeg.setWidth 16)) := by
  rw [taskCreateUser] at h
  split at h
  · cases h
  · cases h
    have hlen : frameLength (newCpu kernelVirtBase entries.taskUserspace
        (gdtUserCodeSeg.setWidth 16) (gdtUserDataSeg.setWidth 16)
        (gdtUserDataSeg.setWidth 16)) = 16 :=
      if_neg (show ¬ ring0 (gdtUserCodeSeg.setWidth 16) = true by decide)
    have hpage : alloc_stack + 4096 - 4096 = alloc_stack := BitVec.add_sub_cancel _ _
    generalize htf : alloc_stack + 4096 - sizeofTrapframe = tf
    have htop : tf = alloc_stack + 4096 - 64 := htf.symm
    rw [hpage]
    refine ⟨?_, ?_, ?_⟩
    · rw [mem_taskAppend, trapframe_taskAppend (by exact hne)]
      simp only [Kernel.task_store, Kernel.task_modifyTask_self]
      refine frameAt_newCpu ?_ (fun hmode => absurd hmode (by decide)) ?_
      · intro o ho
        rw [mem_store, mem_store, if_neg (by bv_omega), if_neg (by bv_omega), mem_store, mem_store,
          mem_store, mem_store, Kernel.mem_modifyTask, mem_clearPage,
          clearPage_of_pageSet (Or.inr htop) ho]
        simp only [add_eq_self_iff, BitVec.add_right_inj]
      · intro _
        rw [mem_store, if_pos rfl, mem_store, if_neg (by bv_omega), mem_store, if_pos rfl]
        exact ⟨rfl, rfl⟩
    · rw [trapframe_taskAppend (by exact hne), hlen]
      simp only [Kernel.task_store, Kernel.task_modifyTask_self]
      exact htop
    · intro a ha
      have hout : ¬ (a - alloc_stack).toNat < 4096 := ha
      rw [mem_taskAppend, mem_store, mem_store, mem_store, mem_store, mem_store, mem_store,
        Kernel.mem_modifyTask, mem_clearPage, if_neg (by bv_omega), if_neg (by bv_omega),
        if_neg (by bv_omega), if_neg (by bv_omega), if_neg (by bv_omega), if_neg (by bv_omega),
        if_neg (show ¬ _ < pageSize from hout)]
      rfl

end Create

/-! ### Saved frames -/

section Saved

variable {H : Type} {entries : Entries} {kmalloc : Kern H Nat} {boot_task : Nat}
  {boot_stack : Set Word} {s s' : System H} {q p : Nat} {c : Cpu} {k : Kernel} {m : Machine}

/-- The frame of the task lies on its stack and holds the registers that it goes on with. -/
structure SavedAs (boot_task : Nat) (boot_stack : Set Word) (s : System H) (q : Nat) (c : Cpu) :
    Prop where
  frame : FrameAt s.kernel.mem (s.kernel.task q).trapframe c
  within : ∀ i < frameLength c, (s.kernel.task q).trapframe + BitVec.ofNat 32 (4 * i) ∈
    kernelStack boot_task boot_stack s.kernel q
  mayRun : MayRun (kernelStack boot_task boot_stack s.kernel q) (q ∈ s.sys.users) c

/-- The task does not run. -/
def Waits (s : System H) (q : Nat) : Prop := q ≠ s.kernel.currentTask ∨ s.handling = true

/-- The tasks form the ring with their stacks apart, each task that does not run has a frame, and
the one that runs may have its registers. -/
structure PreemptInv (boot_task : Nat) (boot_stack : Set Word) (s : System H) : Prop where
  esp : EspInv s.sys
  lt : ∀ q ∈ s.sys.tasks, q < 2 ^ 32
  boot : boot_task ∈ s.sys.tasks ∧ boot_task ∉ s.sys.users
  apart : ∀ q ∈ s.sys.tasks, ∀ r ∈ s.sys.tasks, q ≠ r →
    Disjoint (kernelStack boot_task boot_stack s.kernel q)
      (kernelStack boot_task boot_stack s.kernel r)
  saved : ∀ q ∈ s.sys.tasks, Waits s q → ∃ c, SavedAs boot_task boot_stack s q c
  running : s.handling = false →
    MayRun (kernelStack boot_task boot_stack s.kernel s.kernel.currentTask)
      (s.kernel.currentTask ∈ s.sys.users) s.cpu
  /-- The handler was called with the stack pointer at the frame. -/
  handled : s.handling = true → (s.kernel.task s.kernel.currentTask).trapframe = s.cpu.esp

theorem SavedAs.congr (h : SavedAs boot_task boot_stack s q c)
    (hmem : ∀ i < frameLength c,
      s'.kernel.mem ((s.kernel.task q).trapframe + BitVec.ofNat 32 (4 * i)) =
        s.kernel.mem ((s.kernel.task q).trapframe + BitVec.ofNat 32 (4 * i)))
    (htf : (s'.kernel.task q).trapframe = (s.kernel.task q).trapframe)
    (hstack : kernelStack boot_task boot_stack s'.kernel q =
      kernelStack boot_task boot_stack s.kernel q)
    (husers : q ∈ s.sys.users → q ∈ s'.sys.users) : SavedAs boot_task boot_stack s' q c := by
  refine ⟨?_, ?_, ?_, ?_, h.mayRun.ds⟩
  · rw [htf]
    exact h.frame.congr hmem
  · rw [htf, hstack]
    exact h.within
  · rw [hstack]
    exact h.mayRun.room
  · exact fun hmode => husers (h.mayRun.user hmode)

theorem CCode.mem_frame (hc : CCode boot_task boot_stack s k m) (hq : q ∈ s.sys.tasks)
    (h : SavedAs boot_task boot_stack s q c) : ∀ i < frameLength c,
      m.kernel.mem ((s.kernel.task q).trapframe + BitVec.ofNat 32 (4 * i)) =
        s.kernel.mem ((s.kernel.task q).trapframe + BitVec.ofNat 32 (4 * i)) := by
  intro i hi
  by_cases hcur : q = s.kernel.currentTask
  · rw [hcur] at h ⊢
    apply hc.frame i
    rw [savedLength, h.frame.cs]
    exact hi
  · exact hc.others q hq hcur _ (h.within i hi)

/-- **What a switch does.**  The next task gets the registers of its frame; otherwise the step is the
one of the scheduler, with a store into that frame. -/
theorem PreemptInv.switch_spec (hi : PreemptInv boot_task boot_stack s)
    (hcall : schedulerCall s.kernel = some (p, k)) (hc : CCode boot_task boot_stack s k m)
    (harg : m.word 4 = BitVec.ofNat 32 p) :
    p ∈ s.sys.tasks ∧ (scheduler s.kernel).currentTask = p ∧
      ∀ c, SavedAs boot_task boot_stack s p c → Resumed c m.taskSwitchAsm.cpu ∧
        ∃ v, m.taskSwitchAsm.kernel = { scheduler s.kernel with
          mem := Function.update m.kernel.mem ((s.kernel.task p).trapframe + 52) v } := by
  obtain ⟨htask, -, -, hsched⟩ := schedulerCall_some hcall
  have hcur : (scheduler s.kernel).currentTask = p := by
    rw [← hsched]
    rfl
  have hp : p ∈ s.sys.tasks := by
    have hmem := hi.esp.ring.scheduler.current
    rwa [hcur] at hmem
  have hword : (m.word 4).toNat = p := by
    rw [harg, BitVec.toNat_ofNat, Nat.mod_eq_of_lt (hi.lt p hp)]
  have hmtask : m.kernel.task = s.kernel.task := by
    rw [hc.kernel]
    exact htask
  refine ⟨hp, hcur, ?_⟩
  intro c h
  have hframe : FrameAt m.kernel.mem (m.kernel.task p).trapframe c := by
    rw [hmtask]
    exact h.frame.congr (hc.mem_frame hp h)
  obtain ⟨hres, v, hv⟩ := hframe.taskSwitchAsm hword h.mayRun.ds
  refine ⟨hres, v, hv.trans ?_⟩
  rw [hmtask, ← hsched, hc.kernel]
  rfl

theorem PreemptInv.stackTop_sub (hi : PreemptInv boot_task boot_stack s) (hr : s.handling = false)
    {i : Nat} (h0 : 0 < i) (hlen : i ≤ frameLength s.cpu + 1) :
    s.machine.stackTop - BitVec.ofNat 32 (4 * i) ∈
      kernelStack boot_task boot_stack s.kernel s.kernel.currentTask := by
  have hrun := hi.running hr
  rw [frameLength] at hlen
  rw [stackTop]
  cases hmode : s.cpu.kernelMode with
  | true =>
    rw [hmode, if_pos rfl] at hlen
    rw [show s.machine.cpu.kernelMode = true from hmode, if_pos rfl]
    exact hrun.room hmode i h0 (by omega)
  | false =>
    rw [hmode] at hlen
    rw [show s.machine.cpu.kernelMode = false from hmode, if_neg Bool.noConfusion]
    -- the processor changes to the kernel stack of the running user task
    have huser := hrun.user hmode
    have hne : s.kernel.currentTask ≠ boot_task := fun h => hi.boot.2 (h ▸ huser)
    have hesp : s.kernel.esp0 = (s.kernel.task s.kernel.currentTask).kernelStackBase :=
      hi.esp.law huser
    have hpage := mem_pageSet_sub ((s.kernel.task s.kernel.currentTask).kernelStackBase - 4096) h0 (by
        have hlen' : i ≤ 16 + 1 := hlen
        omega)
    rw [BitVec.sub_add_cancel] at hpage
    rw [kernelStack, if_neg hne]
    show s.kernel.esp0 - BitVec.ofNat 32 (4 * i) ∈ _
    rw [hesp]
    exact hpage

/-- **What a timer interrupt does**: it writes on the stack of the running task, which gets a frame
with its registers. -/
theorem PreemptInv.timer_spec (hi : PreemptInv boot_task boot_stack s) (hr : s.handling = false) :
    ∃ mem tf, (s.machine.irqEntry 32).kernel = withTrapframe s.kernel mem tf ∧
      tf = (s.machine.irqEntry 32).cpu.esp ∧
      (∀ a, a ∉ kernelStack boot_task boot_stack s.kernel s.kernel.currentTask →
        mem a = s.kernel.mem a) ∧
      FrameAt mem tf s.cpu ∧
      ∀ i < frameLength s.cpu, tf + BitVec.ofNat 32 (4 * i) ∈
        kernelStack boot_task boot_stack s.kernel s.kernel.currentTask := by
  obtain ⟨esp, hsaved⟩ := irqEntry_saved 32 s.machine
  obtain ⟨hframe, htop⟩ := irqEntry_frameAt 32 s.machine
  have hle : frameLength s.cpu ≤ 16 := by
    rw [frameLength]
    split <;> decide
  have hlen : (contextWords s.machine.cpu esp
      (32 :: 0 :: interruptWords s.machine.cpu none)).length = frameLength s.cpu := by
    rw [contextWords, interruptWords, stackWords, frameLength]
    show _ = if s.machine.cpu.kernelMode = true then 14 else 16
    split <;> rfl
  have hne : s.kernel.currentTask ≠ 0 := fun h => hi.esp.ring.nonzero (h ▸ hi.esp.ring.current)
  refine ⟨_, _, ?_, rfl, fun a ha => hsaved.other a fun i h0 hi' heq => ha ?_, hframe, ?_⟩
  · apply hsaved.kernel.trans
    rw [taskUpdateTrapframe, if_pos (by exact hne)]
    rfl
  · rw [heq]
    rw [hlen] at hi'
    exact hi.stackTop_sub hr h0 hi'
  · intro i hilt
    have htf : (s.machine.irqEntry 32).cpu.esp + BitVec.ofNat 32 (4 * i) =
        s.machine.stackTop - BitVec.ofNat 32 (4 * (frameLength s.cpu - i)) := by
      rw [htop, show s.machine.cpu = s.cpu from rfl]
      bv_omega
    rw [htf]
    exact hi.stackTop_sub hr (by omega) (by omega)

end Saved

/-! ### Steps -/

section Steps

variable {H : Type} {entries : Entries} {kmalloc : Kern H Nat} {boot_task : Nat}
  {boot_stack : Set Word} {s s' : System H} {e : Event} {q p : Nat} {c : Cpu}

theorem trapframe_withTrapframe {k : Kernel} (hq : q ≠ k.currentTask) (mem : Word → Word)
    (tf : Word) : ((withTrapframe k mem tf).task q).trapframe = (k.task q).trapframe := by
  show (Function.update k.task k.currentTask _ q).trapframe = _
  rw [Function.update_of_ne hq]

theorem Created.trapframe_eq {k k' : Kernel} {t : Task} (hc : Created k p t k') (hq : q ≠ p) :
    (k'.task q).trapframe = (k.task q).trapframe := by
  rw [hc.task, Function.update_apply]
  split
  · next hqt => rw [hqt]
  · rw [Function.update_of_ne hq]

theorem SavedAs.create
    (h : SavedAs boot_task boot_stack s q c) (hq : q ∈ s.sys.tasks) {k : Kernel} {t : Task}
    {alloc_stack : Word} {heap : H} {users : List Nat} {c' : Cpu} (hp : p ∉ s.sys.tasks)
    (hdis : Disjoint (kernelStack boot_task boot_stack s.kernel q) (pageSet alloc_stack))
    (hc : Created s.kernel p t k) (hnew : NewFrame s.kernel k alloc_stack p c')
    (husers : q ∈ s.sys.users → q ∈ users) :
    SavedAs boot_task boot_stack ⟨s.cpu, ⟨heap, k, s.sys.tasks ++ [p], users⟩, s.handling⟩ q c := by
  have hne : q ≠ p := fun he => hp (he ▸ hq)
  refine h.congr ?_ (Created.trapframe_eq hc hne) ?_ husers
  · intro i hlt
    apply hnew.mem _
    intro hmem
    exact Set.disjoint_left.mp hdis (h.within i hlt) hmem
  · rw [kernelStack, kernelStack]
    show (if q = boot_task then boot_stack else pageSet ((k.task q).kernelStackBase - 4096)) = _
    rw [(hc.task_eq hne).2]

/-- **A frame stays as it is** until its task is resumed. -/
theorem SavedAs.step (hi : PreemptInv boot_task boot_stack s)
    (hs : PreemptStep entries kmalloc boot_task boot_stack s e s') (hq : q ∈ s.sys.tasks)
    (hw : Waits s q) (hne : e ≠ .switch q) (hret : e = .ret → q ≠ s.kernel.currentTask)
    (h : SavedAs boot_task boot_stack s q c) :
    SavedAs boot_task boot_stack s' q c ∧ q ∈ s'.sys.tasks ∧ Waits s' q := by
  have htail : s.kernel.taskListTail ≠ 0 :=
    fun h => hi.esp.ring.nonzero (h ▸ hi.esp.ring.tail_mem)
  cases hs with
  | @call op sys hr hop hstep =>
    have hcur : q ≠ s.kernel.currentTask := hw.resolve_right (by rw [hr]; exact Bool.noConfusion)
    cases hstep with
    | schedulerInit hk =>
      cases hk
      exact ⟨h.congr (fun _ _ => rfl) rfl rfl id, hq, Or.inl hcur⟩
    | @createKernel p _ _ k hp hk =>
      obtain ⟨hmem, -, hdis⟩ := hop _ _ hp
      have hpt : p ≠ s.kernel.taskListTail := fun he => hmem (he ▸ hi.esp.ring.tail_mem)
      obtain ⟨-, t, hc, -⟩ := taskCreateKernel_created htail hpt hk
      refine ⟨h.create hq hmem (hdis q hq) hc (taskCreateKernel_frame hpt hk) id,
        List.mem_append_left _ hq, Or.inl ?_⟩
      show q ≠ Kernel.currentTask _
      rw [hc.current]
      exact hcur
    | @createUser p _ _ k hp hk =>
      obtain ⟨hmem, -, hdis⟩ := hop _ _ hp
      have hpt : p ≠ s.kernel.taskListTail := fun he => hmem (he ▸ hi.esp.ring.tail_mem)
      obtain ⟨-, t, hc, -⟩ := taskCreateUser_created htail hpt hk
      refine ⟨h.create hq hmem (hdis q hq) hc (taskCreateUser_frame hpt hk)
        (List.mem_cons_of_mem _), List.mem_append_left _ hq, Or.inl ?_⟩
      show q ≠ Kernel.currentTask _
      rw [hc.current]
      exact hcur
    | scheduler => exact absurd hop id
  | @run cpu mem tf hr hcpu hmem =>
    have hcur : q ≠ s.kernel.currentTask := hw.resolve_right (by rw [hr]; exact Bool.noConfusion)
    exact ⟨h.congr (fun i hlt => hmem q hq hcur _ (h.within i hlt))
      (trapframe_withTrapframe hcur mem tf)
      ((sameTasks_withTrapframe s.kernel mem tf).kernelStack_eq _ _ _) id, hq, Or.inl hcur⟩
  | timer hr =>
    have hcur : q ≠ s.kernel.currentTask := hw.resolve_right (by rw [hr]; exact Bool.noConfusion)
    obtain ⟨mem, tf, hk, -, hmem, -⟩ := hi.timer_spec hr
    have hdis := hi.apart q hq _ hi.esp.ring.current hcur
    refine ⟨h.congr ?_ ?_ ?_ id, hq, Or.inr rfl⟩
    · intro i hlt
      show (irqEntry 32 s.machine).kernel.mem _ = _
      rw [hk]
      exact hmem _ (Set.disjoint_left.mp hdis (h.within i hlt))
    · show ((irqEntry 32 s.machine).kernel.task q).trapframe = _
      rw [hk]
      exact trapframe_withTrapframe hcur mem tf
    · show kernelStack _ _ (irqEntry 32 s.machine).kernel q = _
      rw [hk]
      exact (sameTasks_withTrapframe s.kernel mem tf).kernelStack_eq _ _ _
  | @switch p k m hr hcall hc harg =>
    have hqp : q ≠ p := fun he => hne (by rw [he])
    obtain ⟨hp, hcur, hspec⟩ := hi.switch_spec hcall hc harg
    obtain ⟨cp, hcp⟩ := hi.saved p hp (Or.inr hr)
    obtain ⟨-, v, hv⟩ := hspec cp hcp
    obtain ⟨htask, -, -, hsched⟩ := schedulerCall_some hcall
    have hstask : (scheduler s.kernel).task = s.kernel.task := by
      rw [← hsched]
      exact htask
    -- the store into the frame of the next task hits no other stack
    have hmiss : (s.kernel.task p).trapframe + 52 ∈ kernelStack boot_task boot_stack s.kernel p :=
      hcp.within 13 (by rw [frameLength]; split <;> decide)
    have hdis := hi.apart q hq p hp hqp
    refine ⟨h.congr ?_ ?_ ?_ id, hq, Or.inl ?_⟩
    · intro i hlt
      show m.taskSwitchAsm.kernel.mem _ = _
      rw [hv]
      refine (Function.update_of_ne ?_ _ _).trans (hc.mem_frame hq h i hlt)
      intro heq
      exact Set.disjoint_left.mp hdis (h.within i hlt) (heq ▸ hmiss)
    · show (m.taskSwitchAsm.kernel.task q).trapframe = _
      rw [hv]
      show ((scheduler s.kernel).task q).trapframe = _
      rw [hstask]
    · show kernelStack _ _ m.taskSwitchAsm.kernel q = _
      rw [hv, kernelStack, kernelStack]
      show (if q = boot_task then boot_stack
        else pageSet (((scheduler s.kernel).task q).kernelStackBase - 4096)) = _
      rw [hstask]
    · show q ≠ m.taskSwitchAsm.kernel.currentTask
      rw [hv]
      show q ≠ (scheduler s.kernel).currentTask
      rw [hcur]
      exact hqp
  | @ret m hr hcall hc hesp =>
    have hcur := hret rfl
    have hk : m.irqReturn.iret.kernel = m.kernel := by
      rw [iret_kernel, irqReturn_eq]
    refine ⟨h.congr ?_ ?_ ?_ id, hq, Or.inl ?_⟩
    · intro i hlt
      show m.irqReturn.iret.kernel.mem _ = _
      rw [hk]
      exact hc.mem_frame hq h i hlt
    · show (m.irqReturn.iret.kernel.task q).trapframe = _
      rw [hk, hc.kernel]
    · show kernelStack _ _ m.irqReturn.iret.kernel q = _
      rw [hk, hc.kernel]
      rfl
    · show q ≠ m.irqReturn.iret.kernel.currentTask
      rw [hk, hc.kernel]
      exact hcur

/-! ### The invariant -/

theorem MayRun.mono {stack : Set Word} {user user' : Prop} (h : MayRun stack user c)
    (huser : user → user') : MayRun stack user' c :=
  ⟨h.room, fun hmode => huser (h.user hmode), h.ds⟩

theorem MayRun.resumed {stack : Set Word} {user : Prop} {c' : Cpu} (h : MayRun stack user c)
    (hr : Resumed c c') : MayRun stack user c' := by
  have hmode : c'.kernelMode = c.kernelMode := congrArg ring0 hr.cs
  refine ⟨?_, fun hu => h.user (hmode.symm.trans hu), ?_⟩
  · intro hk
    rw [hr.esp]
    exact h.room (hmode.symm.trans hk)
  · rw [hr.cs, hr.ds]
    exact h.ds

theorem frameLength_le (c : Cpu) : frameLength c ≤ 16 := by
  rw [frameLength]
  split <;> decide

theorem NewFrame.savedAs {k : Kernel} {alloc_stack : Word} (hnew : NewFrame k s'.kernel
    alloc_stack p c) (hstack : kernelStack boot_task boot_stack s'.kernel p = pageSet alloc_stack)
    (hrun : MayRun (pageSet alloc_stack) (p ∈ s'.sys.users) c) :
    SavedAs boot_task boot_stack s' p c := by
  have hle := frameLength_le c
  refine ⟨hnew.frame, ?_, ?_⟩
  · intro i hi
    have htf : (s'.kernel.task p).trapframe + BitVec.ofNat 32 (4 * i) =
        alloc_stack + 4096 - BitVec.ofNat 32 (4 * (frameLength c - i)) := by
      rw [hnew.top]
      bv_omega
    rw [htf, hstack]
    exact mem_pageSet_sub alloc_stack (by omega) (by omega)
  · rw [hstack]
    exact hrun

theorem mayRun_newKernel (alloc_stack eip : Word) (user : Prop) :
    MayRun (pageSet alloc_stack) user (newCpu (alloc_stack + 4096) eip
      (gdtKernelCodeSeg.setWidth 16) 0 (gdtKernelDataSeg.setWidth 16)) := by
  refine ⟨?_, fun hmode => absurd hmode ?_, ?_⟩
  · intro _ i h0 hi
    exact mem_pageSet_sub alloc_stack h0 (by omega)
  · show ¬ ring0 (gdtKernelCodeSeg.setWidth 16) = false
    decide
  · show keptSelector (gdtKernelCodeSeg.setWidth 16) (gdtKernelDataSeg.setWidth 16) =
      gdtKernelDataSeg.setWidth 16
    decide

theorem mayRun_newUser (stack : Set Word) (esp eip : Word) {user : Prop} (huser : user) :
    MayRun stack user (newCpu esp eip (gdtUserCodeSeg.setWidth 16) (gdtUserDataSeg.setWidth 16)
      (gdtUserDataSeg.setWidth 16)) := by
  refine ⟨fun hmode => absurd hmode ?_, fun _ => huser, ?_⟩
  · show ¬ ring0 (gdtUserCodeSeg.setWidth 16) = true
    decide
  · show keptSelector (gdtUserCodeSeg.setWidth 16) (gdtUserDataSeg.setWidth 16) =
      gdtUserDataSeg.setWidth 16
    decide

theorem PreemptInv.create (hi : PreemptInv boot_task boot_stack s) (hr : s.handling = false)
    {k : Kernel} {t : Task} {alloc_stack : Word} {heap : H} {users : List Nat}
    (hesp : EspInv ⟨heap, k, s.sys.tasks ++ [p], users⟩) (hp : p ∉ s.sys.tasks) (hlt : p < 2 ^ 32)
    (hdis : ∀ q ∈ s.sys.tasks,
      Disjoint (kernelStack boot_task boot_stack s.kernel q) (pageSet alloc_stack))
    (hc : Created s.kernel p t k) (hbase : t.kernelStackBase = alloc_stack + 4096)
    (hnew : NewFrame s.kernel k alloc_stack p c)
    (hrun : MayRun (pageSet alloc_stack) (p ∈ users) c) (husers : ∀ q ∈ s.sys.users, q ∈ users)
    (hnot : ∀ q ∈ users, q = p ∨ q ∈ s.sys.users) :
    PreemptInv boot_task boot_stack ⟨s.cpu, ⟨heap, k, s.sys.tasks ++ [p], users⟩, s.handling⟩ := by
  have hpt : p ≠ s.kernel.taskListTail := fun he => hp (he ▸ hi.esp.ring.tail_mem)
  have hpb : p ≠ boot_task := fun he => hp (he ▸ hi.boot.1)
  have hold : ∀ q ∈ s.sys.tasks, kernelStack boot_task boot_stack k q =
      kernelStack boot_task boot_stack s.kernel q := by
    intro q hq
    rw [kernelStack, kernelStack, (hc.task_eq (fun he => hp (he ▸ hq))).2]
  have hstack : kernelStack boot_task boot_stack k p = pageSet alloc_stack := by
    rw [kernelStack, if_neg hpb, hc.task, Function.update_of_ne hpt, Function.update_self, hbase,
      BitVec.add_sub_cancel]
  refine ⟨hesp, ?_, ⟨List.mem_append_left _ hi.boot.1, ?_⟩, ?_, ?_, ?_, ?_⟩
  · intro q hq
    rcases List.mem_append.mp hq with hq | hq
    · exact hi.lt q hq
    · rw [List.mem_singleton.mp hq]
      exact hlt
  · intro hb
    rcases hnot _ hb with hb | hb
    · exact hpb hb.symm
    · exact hi.boot.2 hb
  · intro q hq r hr hqr
    show Disjoint (kernelStack boot_task boot_stack k q) (kernelStack boot_task boot_stack k r)
    rcases List.mem_append.mp hq with hq | hq <;> rcases List.mem_append.mp hr with hr | hr
    · rw [hold q hq, hold r hr]
      exact hi.apart q hq r hr hqr
    · rw [List.mem_singleton.mp hr, hold q hq, hstack]
      exact hdis q hq
    · rw [List.mem_singleton.mp hq, hold r hr, hstack]
      exact (hdis r hr).symm
    · exact absurd ((List.mem_singleton.mp hq).trans (List.mem_singleton.mp hr).symm) hqr
  · intro q hq hw
    rcases List.mem_append.mp hq with hq | hq
    · have hw' : Waits s q := by
        refine hw.imp ?_ id
        intro hne
        rw [← hc.current]
        exact hne
      obtain ⟨c, h⟩ := hi.saved q hq hw'
      exact ⟨c, h.create hq hp (hdis q hq) hc hnew (husers q)⟩
    · rw [List.mem_singleton.mp hq]
      exact ⟨c, hnew.savedAs hstack hrun⟩
  · intro hr
    show MayRun (kernelStack boot_task boot_stack k k.currentTask) (k.currentTask ∈ users) s.cpu
    rw [hc.current, hold _ hi.esp.ring.current]
    exact (hi.running hr).mono (husers _)
  · intro h
    exact absurd (h.symm.trans hr) Bool.noConfusion

theorem MayCall.fresh {op : Op} (hop : MayCall kmalloc boot_task boot_stack s op) :
    Fresh kmalloc s.sys op := by
  cases op with
  | schedulerInit => trivial
  | createKernel alloc_stack => exact fun p heap h => (hop p heap h).1
  | createUser alloc_stack => exact fun p heap h => (hop p heap h).1
  | scheduler => trivial

theorem PreemptInv.of_tasks (hi : PreemptInv boot_task boot_stack s) {m : Machine} {handling : Bool}
    (hesp : EspInv { s.sys with kernel := m.kernel })
    (hbase : ∀ q, (m.kernel.task q).kernelStackBase = (s.kernel.task q).kernelStackBase)
    (hsaved : ∀ q ∈ s.sys.tasks, Waits (s.withMachine m handling) q →
      ∃ c, SavedAs boot_task boot_stack (s.withMachine m handling) q c)
    (hrunning : handling = false →
      MayRun (kernelStack boot_task boot_stack s.kernel m.kernel.currentTask)
        (m.kernel.currentTask ∈ s.sys.users) m.cpu)
    (hhandled : handling = true → (m.kernel.task m.kernel.currentTask).trapframe = m.cpu.esp) :
    PreemptInv boot_task boot_stack (s.withMachine m handling) := by
  have hstack : ∀ q, kernelStack boot_task boot_stack m.kernel q =
      kernelStack boot_task boot_stack s.kernel q := by
    intro q
    rw [kernelStack, kernelStack, hbase]
  refine ⟨hesp, hi.lt, hi.boot, ?_, hsaved, ?_, hhandled⟩
  · intro q hq r hr hqr
    show Disjoint (kernelStack boot_task boot_stack m.kernel q)
      (kernelStack boot_task boot_stack m.kernel r)
    rw [hstack, hstack]
    exact hi.apart q hq r hr hqr
  · intro h
    show MayRun (kernelStack boot_task boot_stack m.kernel m.kernel.currentTask) _ _
    rw [hstack]
    exact hrunning h

theorem trapframe_withTrapframe_self (k : Kernel) (mem : Word → Word) (tf : Word) :
    ((withTrapframe k mem tf).task k.currentTask).trapframe = tf := by
  show (Function.update k.task k.currentTask _ k.currentTask).trapframe = tf
  rw [Function.update_self]

theorem PreemptInv.savedAs_timer (hi : PreemptInv boot_task boot_stack s)
    (hr : s.handling = false) :
    SavedAs boot_task boot_stack (s.withMachine (s.machine.irqEntry 32) true)
      s.kernel.currentTask s.cpu := by
  obtain ⟨mem, tf, hk, -, -, hframe, hwithin⟩ := hi.timer_spec hr
  have hsame := sameTasks_withTrapframe s.kernel mem tf
  have hstack := hsame.kernelStack_eq boot_task boot_stack s.kernel.currentTask
  have htf := trapframe_withTrapframe_self s.kernel mem tf
  rw [← hk] at hstack htf
  refine ⟨?_, ?_, ?_⟩
  · show FrameAt (irqEntry 32 s.machine).kernel.mem
      ((irqEntry 32 s.machine).kernel.task s.kernel.currentTask).trapframe s.cpu
    rw [htf, hk]
    exact hframe
  · intro i hlt
    show ((irqEntry 32 s.machine).kernel.task s.kernel.currentTask).trapframe +
      BitVec.ofNat 32 (4 * i) ∈
      kernelStack boot_task boot_stack (irqEntry 32 s.machine).kernel s.kernel.currentTask
    rw [htf, hstack]
    exact hwithin i hlt
  · show MayRun (kernelStack boot_task boot_stack (irqEntry 32 s.machine).kernel
      s.kernel.currentTask) (s.kernel.currentTask ∈ s.sys.users) s.cpu
    rw [hstack]
    exact hi.running hr

/-- **Every step keeps the invariant.** -/
theorem PreemptInv.step (hi : PreemptInv boot_task boot_stack s)
    (hs : PreemptStep entries kmalloc boot_task boot_stack s e s') :
    PreemptInv boot_task boot_stack s' := by
  have htail : s.kernel.taskListTail ≠ 0 :=
    fun h => hi.esp.ring.nonzero (h ▸ hi.esp.ring.tail_mem)
  have hkept := fun q (hq : q ∈ s.sys.tasks) (hw : Waits s q) (hne : e ≠ .switch q)
      (hret : e = .ret → q ≠ s.kernel.currentTask) =>
    (hi.saved q hq hw).imp fun c h => (h.step hi hs hq hw hne hret).1
  cases hs with
  | @call op sys hr hop hstep =>
    have hesp := hi.esp.step ⟨hop.fresh, hstep⟩
    cases hstep with
    | schedulerInit hk =>
      cases hk
      exact ⟨hesp, hi.lt, hi.boot, hi.apart, fun q hq hw => hkept q hq hw (by simp) (by simp),
        hi.running, hi.handled⟩
    | @createKernel p _ _ k hp hk =>
      obtain ⟨hmem, hlt, hdis⟩ := hop _ _ hp
      have hpt : p ≠ s.kernel.taskListTail := fun he => hmem (he ▸ hi.esp.ring.tail_mem)
      obtain ⟨-, t, hc, hbase⟩ := taskCreateKernel_created htail hpt hk
      exact hi.create hr hesp hmem hlt hdis hc hbase (taskCreateKernel_frame hpt hk)
        (mayRun_newKernel _ _ _) (fun _ => id) fun _ => Or.inr
    | @createUser p _ _ k hp hk =>
      obtain ⟨hmem, hlt, hdis⟩ := hop _ _ hp
      have hpt : p ≠ s.kernel.taskListTail := fun he => hmem (he ▸ hi.esp.ring.tail_mem)
      obtain ⟨-, t, hc, hbase, -⟩ := taskCreateUser_created htail hpt hk
      exact hi.create hr hesp hmem hlt hdis hc hbase (taskCreateUser_frame hpt hk)
        (mayRun_newUser _ _ _ List.mem_cons_self) (fun _ => List.mem_cons_of_mem _)
        fun _ => List.mem_cons.mp
    | scheduler => exact absurd hop id
  | @run cpu mem tf hr hcpu hmem =>
    have hsame := sameTasks_withTrapframe s.kernel mem tf
    exact hi.of_tasks (EspInv.congr hi.esp hsame) hsame.base
      (fun q hq hw => hkept q hq (hw.imp id fun h => absurd h Bool.noConfusion) (by simp) (by simp))
      (fun _ => hcpu) fun h => absurd h Bool.noConfusion
  | timer hr =>
    obtain ⟨mem, tf, hk, htf, -⟩ := hi.timer_spec hr
    have hsame := sameTasks_withTrapframe s.kernel mem tf
    have hcurtf := trapframe_withTrapframe_self s.kernel mem tf
    rw [← hk] at hsame hcurtf
    refine hi.of_tasks (EspInv.congr hi.esp hsame) hsame.base (fun q hq hw => ?_)
      (fun h => absurd h Bool.noConfusion) fun _ => ?_
    · by_cases hcur : q = s.kernel.currentTask
      · -- the interrupted task has a frame now
        subst hcur
        exact ⟨s.cpu, hi.savedAs_timer hr⟩
      · exact hkept q hq (Or.inl hcur) (by simp) (by simp)
    · rw [hsame.current, hcurtf]
      exact htf
  | @switch p k m hr hcall hc harg =>
    obtain ⟨hp, hcur, hspec⟩ := hi.switch_spec hcall hc harg
    obtain ⟨cp, hcp⟩ := hi.saved p hp (Or.inr hr)
    obtain ⟨hres, v, hv⟩ := hspec cp hcp
    obtain ⟨htask, -, -, hsched⟩ := schedulerCall_some hcall
    have hstask : (scheduler s.kernel).task = s.kernel.task := by
      rw [← hsched]
      exact htask
    have hfresh : Fresh kmalloc s.sys (.scheduler (scheduler s.kernel).currentTask) := trivial
    have hesp : EspInv { s.sys with kernel := scheduler s.kernel } :=
      hi.esp.step ⟨hfresh, @Step.scheduler H entries kmalloc s.sys⟩
    have hcurrent : m.taskSwitchAsm.kernel.currentTask = p := by
      rw [hv]
      exact hcur
    have hsame : SameTasks (scheduler s.kernel) m.taskSwitchAsm.kernel := by
      rw [hv]
      exact ⟨rfl, fun _ => rfl, fun _ => rfl, fun _ => rfl, rfl, rfl, rfl, rfl⟩
    have hesp' := EspInv.congr hesp hsame
    refine hi.of_tasks hesp' (fun q => ?_)
      (fun q hq hw => ?_) (fun _ => ?_) fun h => absurd h Bool.noConfusion
    · rw [hv]
      show ((scheduler s.kernel).task q).kernelStackBase = _
      rw [hstask]
    · refine hkept q hq (Or.inr hr) ?_ (by simp)
      intro he
      injection he with he
      rcases hw with hw | hw
      · exact hw (he.symm.trans hcurrent.symm)
      · exact absurd hw Bool.noConfusion
    · rw [hcurrent]
      exact hcp.mayRun.resumed hres
  | @ret m hr hcall hc hesp =>
    have hk : m.irqReturn.iret.kernel = { s.kernel with mem := m.kernel.mem } := by
      rw [iret_kernel, irqReturn_eq]
      exact hc.kernel
    have hsame : SameTasks s.kernel m.irqReturn.iret.kernel := by
      rw [hk]
      exact ⟨rfl, fun _ => rfl, fun _ => rfl, fun _ => rfl, rfl, rfl, rfl, rfl⟩
    obtain ⟨c, h⟩ := hi.saved _ hi.esp.ring.current (Or.inr hr)
    have hframe : FrameAt m.kernel.mem m.cpu.esp c := by
      rw [hesp, ← hi.handled hr]
      exact h.frame.congr (hc.mem_frame hi.esp.ring.current h)
    refine hi.of_tasks (EspInv.congr hi.esp hsame) hsame.base (fun q hq hw => ?_) (fun _ => ?_)
      fun h => absurd h Bool.noConfusion
    · apply hkept q hq (Or.inr hr) (by simp)
      intro _
      rcases hw with hw | hw
      · intro he
        refine hw (he.trans ?_)
        exact hsame.current.symm
      · exact absurd hw Bool.noConfusion
    · rw [hsame.current]
      exact h.mayRun.resumed (hframe.irqReturn h.mayRun.ds)

theorem PreemptInv.started (hi : PreemptInv boot_task boot_stack s)
    (hs : PreemptStep entries kmalloc boot_task boot_stack s e s')
    (hstarted : s.kernel.schedulerInitialized = true) :
    s'.kernel.schedulerInitialized = true := by
  cases hs with
  | call hr hop hstep => exact started_step hi.esp.ring hstarted ⟨hop.fresh, hstep⟩
  | run => exact hstarted
  | timer hr =>
    obtain ⟨mem, tf, hk, -⟩ := hi.timer_spec hr
    show (irqEntry 32 s.machine).kernel.schedulerInitialized = true
    rw [hk]
    exact hstarted
  | @switch p k m hr hcall hc harg =>
    obtain ⟨hp, -, hspec⟩ := hi.switch_spec hcall hc harg
    obtain ⟨cp, hcp⟩ := hi.saved p hp (Or.inr hr)
    obtain ⟨-, v, hv⟩ := hspec cp hcp
    show m.taskSwitchAsm.kernel.schedulerInitialized = true
    rw [hv, hi.esp.ring.scheduler_eq hstarted]
    exact hstarted
  | @ret m hr hcall hc hesp =>
    show m.irqReturn.iret.kernel.schedulerInitialized = true
    rw [iret_kernel, irqReturn_eq, hc.kernel]
    exact hstarted

theorem Booted.inv (h : Booted boot_task boot_stack s) : PreemptInv boot_task boot_stack s := by
  have hring := h.init.ring
  obtain ⟨-, htasks, husers⟩ := id h.init
  have hmem : ∀ q ∈ s.sys.tasks, q = boot_task := by
    intro q hq
    rw [htasks] at hq
    exact List.mem_singleton.mp hq
  have hnot : ∀ q, q ∉ s.sys.users := by
    intro q
    rw [husers]
    exact List.not_mem_nil
  have hcur : s.kernel.currentTask = boot_task := hmem _ hring.current
  refine ⟨⟨hring, fun p hp => absurd hp (hnot p), fun hp => absurd hp (hnot _)⟩, fun q hq => ?_,
    ⟨?_, hnot _⟩, fun q hq r hr hqr => ?_, fun q hq hw => ?_, fun _ => ?_, fun hr => ?_⟩
  · rw [hmem q hq]
    exact h.lt
  · rw [htasks]
    exact List.mem_cons_self
  · exact absurd ((hmem q hq).trans (hmem r hr).symm) hqr
  · rcases hw with hw | hw
    · exact absurd ((hmem q hq).trans hcur.symm) hw
    · exact absurd (hw.symm.trans h.handling) Bool.noConfusion
  · rw [hcur, kernelStack, if_pos rfl]
    exact h.running.mono False.elim
  · exact absurd (hr.symm.trans h.handling) Bool.noConfusion

/-- **The invariant in every run.** -/
theorem preemptInv_of_run {s₀ : System H} {es : List Event} (hs₀ : Booted boot_task boot_stack s₀)
    (h : Run (PreemptStep entries kmalloc boot_task boot_stack) s₀ es s) :
    PreemptInv boot_task boot_stack s :=
  h.invariant (I := PreemptInv boot_task boot_stack) (fun hi hs => hi.step hs) hs₀.inv

theorem savedAs_of_run {es : List Event} (hi : PreemptInv boot_task boot_stack s)
    (hstarted : s.kernel.schedulerInitialized = true) (hq : q ∈ s.sys.tasks) (hw : Waits s q)
    (hsaved : SavedAs boot_task boot_stack s q c)
    (h : Run (PreemptStep entries kmalloc boot_task boot_stack) s es s')
    (hne : Event.switch q ∉ es) :
    PreemptInv boot_task boot_stack s' ∧ s'.kernel.schedulerInitialized = true ∧
      q ∈ s'.sys.tasks ∧ Waits s' q ∧ SavedAs boot_task boot_stack s' q c := by
  induction h with
  | nil => exact ⟨hi, hstarted, hq, hw, hsaved⟩
  | @snoc es t e u _ hstep ih =>
    obtain ⟨hi', hstarted', hq', hw', hsaved'⟩ := ih fun hmem =>
      hne (List.mem_append_left _ hmem)
    have he : e ≠ .switch q := fun he => hne (he ▸ List.mem_append_right _ List.mem_cons_self)
    -- the handler does not return any more
    have hret : e = .ret → q ≠ t.kernel.currentTask := by
      rintro rfl
      cases hstep with
      | ret hr hcall => exact absurd hcall (schedulerCall_ne_none hi'.esp.ring hstarted')
    obtain ⟨h₁, h₂, h₃⟩ := hsaved'.step hi' hstep hq' hw' he hret
    exact ⟨hi'.step hstep, hi'.started hstep hstarted', h₂, h₃, h₁⟩

/-- **Preemption is transparent.**  A task that is interrupted by the timer after `scheduler_init`
is resumed with the registers that it had, whatever happens in between. -/
theorem resumed_of_run {s₀ s₁ s₂ s₃ s₄ : System H} {es₁ es₂ : List Event}
    (hs₀ : Booted boot_task boot_stack s₀)
    (h₁ : Run (PreemptStep entries kmalloc boot_task boot_stack) s₀ es₁ s₁)
    (hstarted : s₁.kernel.schedulerInitialized = true)
    (htimer : PreemptStep entries kmalloc boot_task boot_stack s₁ .timer s₂)
    (h₂ : Run (PreemptStep entries kmalloc boot_task boot_stack) s₂ es₂ s₃)
    (hne : Event.switch s₁.kernel.currentTask ∉ es₂)
    (hswitch : PreemptStep entries kmalloc boot_task boot_stack s₃
      (.switch s₁.kernel.currentTask) s₄) : Resumed s₁.cpu s₄.cpu := by
  have hi₁ := preemptInv_of_run hs₀ h₁
  have hi₂ := hi₁.step htimer
  have hstarted₂ := hi₁.started htimer hstarted
  have hsaved : Waits s₂ s₁.kernel.currentTask ∧ s₁.kernel.currentTask ∈ s₂.sys.tasks ∧
      SavedAs boot_task boot_stack s₂ s₁.kernel.currentTask s₁.cpu := by
    cases htimer with
    | timer hr => exact ⟨Or.inr rfl, hi₁.esp.ring.current, hi₁.savedAs_timer hr⟩
  obtain ⟨hw, hq, hsaved⟩ := hsaved
  obtain ⟨hi₃, -, -, -, hsaved₃⟩ := savedAs_of_run hi₂ hstarted₂ hq hw hsaved h₂ hne
  cases hswitch with
  | switch hr hcall hc harg => exact ((hi₃.switch_spec hcall hc harg).2.2 _ hsaved₃).1

/-- The C functions that push the argument of `task_switch_asm` and the return address. -/
def callSwitch (s : System H) (p : Nat) (k : Kernel) : Machine :=
  ⟨{ s.cpu with esp := s.cpu.esp - 8 },
    { k with mem := Function.update s.kernel.mem (s.cpu.esp - 4) (BitVec.ofNat 32 p) }⟩

theorem word_callSwitch (s : System H) (p : Nat) (k : Kernel) :
    (callSwitch s p k).word 4 = BitVec.ofNat 32 p := by
  have hesp : s.cpu.esp - 8 + 4 = s.cpu.esp - 4 := by bv_omega
  show Function.update s.kernel.mem (s.cpu.esp - 4) (BitVec.ofNat 32 p) (s.cpu.esp - 8 + 4) = _
  rw [hesp, Function.update_self]

theorem PreemptInv.callSwitch (hi : PreemptInv boot_task boot_stack s) (hr : s.handling = true)
    (harg : s.cpu.esp - 4 ∈ kernelStack boot_task boot_stack s.kernel s.kernel.currentTask)
    (p : Nat) (k : Kernel) : CCode boot_task boot_stack s k (callSwitch s p k) := by
  refine ⟨rfl, fun i hlt => Function.update_of_ne ?_ _ _, fun q hq hne a ha =>
    Function.update_of_ne ?_ _ _⟩
  · rw [savedLength] at hlt
    have hle : i < 16 := by
      split at hlt <;> omega
    rw [hi.handled hr]
    bv_omega
  · rintro rfl
    exact Set.disjoint_left.mp (hi.apart q hq _ hi.esp.ring.current hne) ha harg

theorem PreemptInv.room_timer (hi : PreemptInv boot_task boot_stack s) (hr : s.handling = false) :
    (s.machine.irqEntry 32).cpu.esp - 4 ∈
      kernelStack boot_task boot_stack s.kernel s.kernel.currentTask := by
  have hsub := hi.stackTop_sub hr (Nat.succ_pos (frameLength s.cpu)) (Nat.le_refl _)
  have heq : s.machine.stackTop - BitVec.ofNat 32 (4 * frameLength s.machine.cpu) - 4 =
      s.machine.stackTop - BitVec.ofNat 32 (4 * (frameLength s.cpu + 1)) := by
    rw [show s.machine.cpu = s.cpu from rfl]
    bv_omega
  rw [(irqEntry_frameAt 32 s.machine).2, heq]
  exact hsub

/-- **The timer passes the turn** to the next task. -/
theorem PreemptInv.exists_preemption (hi : PreemptInv boot_task boot_stack s)
    (entries : Entries) (kmalloc : Kern H Nat) (hr : s.handling = false)
    (hstarted : s.kernel.schedulerInitialized = true) :
    ∃ s₁ s₂, PreemptStep entries kmalloc boot_task boot_stack s .timer s₁ ∧
      PreemptStep entries kmalloc boot_task boot_stack s₁
        (.switch (s.kernel.next s.kernel.currentTask)) s₂ ∧
      s₂.handling = false ∧ s₂.kernel.next = s.kernel.next ∧
      s₂.kernel.currentTask = s.kernel.next s.kernel.currentTask := by
  have htimer : PreemptStep entries kmalloc boot_task boot_stack s .timer _ := .timer hr
  have hi₁ := hi.step htimer
  have hstarted₁ := hi.started htimer hstarted
  have harg := hi.room_timer hr
  obtain ⟨mem, tf, hk, -⟩ := hi.timer_spec hr
  have hsame := sameTasks_withTrapframe s.kernel mem tf
  rw [← hk] at hsame
  rw [← hsame.kernelStack_eq, ← hsame.current] at harg
  generalize hs₁ : s.withMachine (irqEntry 32 s.machine) true = s₁ at htimer hi₁ hstarted₁
  have hkernel : (irqEntry 32 s.machine).kernel = s₁.kernel := by rw [← hs₁]; rfl
  have hcpu : (irqEntry 32 s.machine).cpu = s₁.cpu := by rw [← hs₁]; rfl
  have hhandling : s₁.handling = true := by rw [← hs₁]; rfl
  rw [hkernel, hcpu] at harg
  rw [hkernel] at hsame
  cases hcall : schedulerCall s₁.kernel with
  | none => exact absurd hcall (schedulerCall_ne_none hi₁.esp.ring hstarted₁)
  | some call =>
    obtain ⟨p, k⟩ := call
    have hcc := hi₁.callSwitch hhandling harg p k
    obtain ⟨hp, hcur, hspec⟩ := hi₁.switch_spec hcall hcc (word_callSwitch s₁ p k)
    obtain ⟨cp, hcp⟩ := hi₁.saved p hp (Or.inr hhandling)
    obtain ⟨-, v, hv⟩ := hspec cp hcp
    have hsched := hi₁.esp.ring.scheduler_eq hstarted₁
    have hnext : s.kernel.next s.kernel.currentTask = p := by
      rw [← hcur, hsched, hsame.next, hsame.current]
    rw [hnext]
    refine ⟨s₁, _, htimer, .switch hhandling hcall hcc (word_callSwitch s₁ p k), rfl, ?_, ?_⟩
    · show Kernel.next (taskSwitchAsm _).kernel = _
      rw [hv, hsched]
      exact hsame.next
    · show (taskSwitchAsm _).kernel.currentTask = p
      rw [hv]
      exact hcur

end Steps

/-! ### A run -/

/-- The boot task in the kernel, with its stack on the page at `0xC0150000`. -/
def bootCpu : Cpu :=
  ⟨⟨7, 0, 0, 0, 0, 0, 0⟩, 0xC0150F00, 0xC0100000, 0x202,
    gdtKernelCodeSeg.setWidth 16, gdtKernelDataSeg.setWidth 16, gdtKernelDataSeg.setWidth 16,
    gdtKernelDataSeg.setWidth 16, gdtKernelDataSeg.setWidth 16, gdtKernelDataSeg.setWidth 16⟩

theorem mayRun_bootCpu : MayRun (pageSet 0xC0150000) False bootCpu := by
  refine ⟨?_, ?_, by decide⟩
  · intro _ i h0 hi
    show (0xC0150F00 - BitVec.ofNat 32 (4 * i) - 0xC0150000 : Word).toNat < 4096
    bv_omega
  · intro hmode
    exact absurd hmode (by decide)

theorem disjoint_pageSet : Disjoint (pageSet 0xC0150000) (pageSet 0xC0200000) := by
  apply Set.disjoint_left.mpr
  intro a h₁ h₂
  have h₁' : (a - 0xC0150000).toNat < 4096 := h₁
  have h₂' : (a - 0xC0200000).toNat < 4096 := h₂
  bv_omega

theorem next_next_of_two {k : Kernel} {p q : Nat} (hr : Ring k [p, q]) :
    k.next (k.next k.currentTask) = k.currentTask ∧ k.next k.currentTask ≠ k.currentTask := by
  obtain ⟨hhead, hrest⟩ := Path.cons_iff.mp hr.path
  obtain ⟨hnext, hback⟩ := Path.cons_iff.mp hrest
  have hback' : k.next q = k.taskListHead := hback
  have hne : p ≠ q := fun he => (List.nodup_cons.mp hr.nodup).1 (he ▸ List.mem_cons_self)
  rcases List.mem_cons.mp hr.current with hcur | hcur
  · rw [hcur, hnext, hback', hhead]
    exact ⟨rfl, hne.symm⟩
  · rw [List.mem_singleton.mp hcur, hback', hhead, hnext]
    exact ⟨rfl, hne⟩

/-- The boot task and a user task take turns: the boot task goes on with its registers after the
turn of the user task. -/
theorem resumed_bootTask : ∃ s₁ s₄ : System Memory.Kmalloc.Heap, s₁.cpu.eax = 7 ∧
    Resumed s₁.cpu s₄.cpu := by
  obtain ⟨sys₀, used, ⟨_, _, boot_task, _, _, hinit⟩, hf, htasks, -, -⟩ :=
    exists_afterBoot freshPage_kernel
  obtain rfl : boot_task = 0xC0160F38 := List.singleton_inj.mp (hinit.2.1.symm.trans htasks)
  have hbooted : Booted 0xC0160F38 (pageSet 0xC0150000) ⟨bootCpu, sys₀, false⟩ :=
    ⟨hinit, by decide, rfl, mayRun_bootCpu⟩
  -- `task_create_user` and `scheduler_init`
  obtain ⟨sys₁, -, hcreate, -, -, htasks₁, -, hfresh⟩ := createUser_firstBlock
    ⟨0xC0101000, 0x100010⟩ hf (Or.inl (by decide)) 0xC0200000
  have hfresh' := hfresh (by rw [htasks]; decide)
  have hnew : NewStack kmallocTask 0xC0160F38 (pageSet 0xC0150000) ⟨bootCpu, sys₀, false⟩
      0xC0200000 := by
    cases hcreate with
    | createUser hp₁ =>
      intro p heap hp
      refine ⟨hfresh' p heap hp, ?_, ?_⟩
      · rw [hp₁] at hp
        injection hp with hp
        have heq := List.singleton_inj.mp (List.append_cancel_left htasks₁)
        rw [← hp, heq]
        decide
      · intro q hq
        rw [htasks] at hq
        rw [List.mem_singleton.mp hq, kernelStack, if_pos rfl]
        exact disjoint_pageSet
  have hcall : PreemptStep ⟨0xC0101000, 0x100010⟩ kmallocTask 0xC0160F38 (pageSet 0xC0150000)
      ⟨bootCpu, sys₀, false⟩ (.call (.createUser 0xC0200000)) ⟨bootCpu, sys₁, false⟩ :=
    .call rfl hnew hcreate
  have hstart : PreemptStep ⟨0xC0101000, 0x100010⟩ kmallocTask 0xC0160F38 (pageSet 0xC0150000)
      ⟨bootCpu, sys₁, false⟩ (.call .schedulerInit)
      ⟨bootCpu, { sys₁ with kernel := { sys₁.kernel with schedulerInitialized := true } }, false⟩ :=
    .call rfl trivial (.schedulerInit rfl)
  have hrun := (Run.single hcall).snoc hstart
  have hi := preemptInv_of_run hbooted hrun
  have hring : Ring _ sys₁.tasks := hi.esp.ring
  rw [htasks₁, htasks] at hring
  obtain ⟨hback, hne⟩ := next_next_of_two hring
  -- the turns of the two tasks
  obtain ⟨s₂, s₃, htimer, hswitch, hhandling, hnext, hcur⟩ :=
    hi.exists_preemption ⟨0xC0101000, 0x100010⟩ kmallocTask rfl rfl
  have hi₂ := hi.step htimer
  have hi₃ := hi₂.step hswitch
  obtain ⟨s₄, s₅, htimer', hswitch', -⟩ := hi₃.exists_preemption ⟨0xC0101000, 0x100010⟩ kmallocTask
    hhandling (hi₂.started hswitch (hi.started htimer rfl))
  rw [hcur, hnext, hback] at hswitch'
  exact ⟨_, s₅, rfl, resumed_of_run hbooted hrun rfl htimer ((Run.single hswitch).snoc htimer')
    (by simpa using fun he => hne he.symm) hswitch'⟩

end Aosis.Interrupt
