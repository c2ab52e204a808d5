import Aosis.Memory.GdtTable
import Aosis.Task.Preempt

/-!
# The protection of the tasks

The segment registers of the tasks under the descriptor table of `gdt_init`, and the ports that a
user task reaches.  The code of a task loads segment registers as the processor lets it; the stubs, the
C functions and `task_switch_asm` do what they do in the other files.

* `protected_of_run`: no return to a task faults on a selector.
* `nullSegments_of_run`: a user task finds null in `es`, `fs` and `gs` whenever it goes on.
* `ports_of_run`: a user task reaches the ports that the task state segment leaves open, and no others.
-/

namespace Aosis.Interrupt

open Aosis.Lib Aosis.Scheduler Aosis.Memory.Gdt Machine

/-! ### Registers -/

/-- The privilege level. -/
def Cpu.cpl (c : Cpu) : BitVec 2 := rpl c.cs

/-- The I/O privilege level. -/
def Cpu.iopl (c : Cpu) : BitVec 2 := c.eflags.extractLsb' 12 2

/-- The data segment registers. -/
def dataRegisters : List (Cpu → BitVec 16) := [Cpu.ds, Cpu.es, Cpu.fs, Cpu.gs]

/-- An instruction accesses the ports when its level allows it or the map of the task state segment
does. -/
def Cpu.mayAccess (c : Cpu) (limit : Nat) (byte : Nat → BitVec 8) (port width : Nat) : Bool :=
  decide (c.cpl ≤ c.iopl) || portsOpen limit byte port width

/-- The tables after `gdt_init_asm`. -/
def bootTables (addr : Addresses) : Tables := (gdtInit addr .zero).2

/-- What the code of a task can do to the segment registers: it loads what the processor takes, and
code in user mode cannot change its I/O privilege level. -/
structure Executes (g : Tables) (c c' : Cpu) : Prop where
  cs : c'.cs = c.cs ∨
    ∃ sel, g.takes jumpRule c.cpl sel = true ∧ c'.cs = sel &&& 0xFFFC ||| c.cpl.setWidth 16
  ss : c'.ss = c.ss ∨ g.takes stackRule c.cpl c'.ss = true
  data : ∀ r ∈ dataRegisters, r c' = r c ∨ g.takesData c.cpl (r c') = true
  iopl : c.kernelMode = false → c'.iopl = c.iopl

/-- C code does not load segment registers. -/
structure KeepsSegments (c c' : Cpu) : Prop where
  ss : c'.ss = c.ss
  data : ∀ r ∈ dataRegisters, r c' = r c

/-! ### The system -/

section Step

variable {H : Type} (addr : Addresses) (entries : Entries) (kmalloc : Kern H Nat) (boot_task : Nat)
  (boot_stack : Set Word)

/-- The steps of the system, with the segment registers. -/
inductive ProtectedStep : System H → Event → System H → Prop
  | call {s s' : System H} {op : Op}
      (h : PreemptStep entries kmalloc boot_task boot_stack s (.call op) s') :
      ProtectedStep s (.call op) s'
  | run {s s' : System H} (h : PreemptStep entries kmalloc boot_task boot_stack s .run s')
      (hcpu : Executes (bootTables addr) s.cpu s'.cpu) : ProtectedStep s .run s'
  | timer {s s' : System H} (h : PreemptStep entries kmalloc boot_task boot_stack s .timer s') :
      ProtectedStep s .timer s'
  | switch {s : System H} {p : Nat} {k : Kernel} {m : Machine} (hr : s.handling = true)
      (hcall : schedulerCall s.kernel = some (p, k)) (hc : CCode boot_task boot_stack s k m)
      (harg : m.word 4 = BitVec.ofNat 32 p) (hcpu : KeepsSegments s.cpu m.cpu) :
      ProtectedStep s (.switch p) (s.withMachine m.taskSwitchAsm false)
  | ret {s : System H} {m : Machine} (hr : s.handling = true)
      (hcall : schedulerCall s.kernel = none) (hc : CCode boot_task boot_stack s s.kernel m)
      (hesp : m.cpu.esp = s.cpu.esp) (hcpu : KeepsSegments s.cpu m.cpu) :
      ProtectedStep s .ret (s.withMachine m.irqReturn.iret false)

variable {addr entries kmalloc boot_task boot_stack} {s s' : System H} {e : Event}

theorem ProtectedStep.preempt (h : ProtectedStep addr entries kmalloc boot_task boot_stack s e s') :
    PreemptStep entries kmalloc boot_task boot_stack s e s' := by
  cases h with
  | call h => exact h
  | run h => exact h
  | timer h => exact h
  | switch hr hcall hc harg => exact .switch hr hcall hc harg
  | ret hr hcall hc hesp => exact .ret hr hcall hc hesp

end Step

/-! ### The selectors of a task -/

/-- The registers that a frame keeps are such as the processor gives to code of their level, which is
not one of the I/O in user mode. -/
structure Framed (g : Tables) (c : Cpu) : Prop where
  cs : g.takes returnRule c.cpl c.cs = true
  ss : c.kernelMode = false → g.takes stackRule c.cpl c.ss = true
  ds : g.takesData c.cpl c.ds = true
  iopl : c.kernelMode = false → c.iopl = 0

/-- All segment registers are such. -/
structure Protected (g : Tables) (c : Cpu) : Prop where
  framed : Framed g c
  ss : g.takes stackRule c.cpl c.ss = true
  data : ∀ r ∈ dataRegisters, g.takesData c.cpl (r c) = true

/-- The handler of the timer runs with the segments of the kernel. -/
structure KernelSegments (c : Cpu) : Prop where
  ss : c.ss = 0x10
  data : ∀ r ∈ dataRegisters, r c = 0x10

section Selectors

variable {addr : Addresses} {c c' : Cpu} {cpl : BitVec 2} {sel : BitVec 16}

theorem takes_bootTables (addr : Addresses) (rule : BitVec 2 → BitVec 2 → AccessByte → Bool)
    (cpl : BitVec 2) (sel : BitVec 16) : (bootTables addr).takes rule cpl sel = taken rule cpl sel :=
  takes_gdtInit addr .zero rule cpl sel

theorem Framed.mode (h : Framed (bootTables addr) c) :
    c.cs = 0x08 ∧ c.cpl = 0 ∧ c.kernelMode = true ∨ c.cs = 0x23 ∧ c.cpl = 3 ∧ c.kernelMode = false := by
  have hcs := h.cs
  rw [takes_bootTables, taken_returnRule] at hcs
  rcases hcs with ⟨-, hcs⟩ | hcs
  · refine Or.inl ⟨hcs, ?_, ?_⟩
    · rw [Cpu.cpl, hcs]
      decide
    · rw [Cpu.kernelMode, hcs]
      decide
  · refine Or.inr ⟨hcs, ?_, ?_⟩
    · rw [Cpu.cpl, hcs]
      decide
    · rw [Cpu.kernelMode, hcs]
      decide

theorem takesData_zero (h : (bootTables addr).takesData cpl sel = true) :
    (bootTables addr).takesData 0 sel = true := by
  rw [bootTables, takesData_iff] at h ⊢
  rcases h with h | ⟨-, h⟩ | h
  · exact Or.inl h
  · exact Or.inr (Or.inl ⟨rfl, h⟩)
  · exact Or.inr (Or.inr h)

theorem Framed.congr {g : Tables} (h : Framed g c) (hcs : c'.cs = c.cs) (hds : c'.ds = c.ds)
    (hss : c.kernelMode = false → c'.ss = c.ss) (hiopl : c.kernelMode = false → c'.iopl = c.iopl) :
    Framed g c' := by
  have hcpl : c'.cpl = c.cpl := congrArg rpl hcs
  have hmode : c'.kernelMode = c.kernelMode := congrArg ring0 hcs
  refine ⟨?_, fun hm => ?_, ?_, fun hm => ?_⟩
  · rw [hcpl, hcs]
    exact h.cs
  · rw [hcpl, hss (hmode.symm.trans hm)]
    exact h.ss (hmode.symm.trans hm)
  · rw [hcpl, hds]
    exact h.ds
  · rw [hiopl (hmode.symm.trans hm)]
    exact h.iopl (hmode.symm.trans hm)

theorem iopl_congr (h : c'.eflags &&& ~~~0x200 = c.eflags &&& ~~~0x200) : c'.iopl = c.iopl := by
  have hbits : ∀ i < 2, ∀ v : Word, v.getLsbD (12 + i) = (v &&& ~~~0x200).getLsbD (12 + i) := by
    intro i hi v
    have hmask : ∀ i < 2, (~~~0x200 : Word).getLsbD (12 + i) = true := by decide
    rw [BitVec.getLsbD_and, hmask i hi, Bool.and_true]
  apply BitVec.eq_of_getLsbD_eq
  intro i hi
  rw [Cpu.iopl, Cpu.iopl, BitVec.getLsbD_extractLsb', BitVec.getLsbD_extractLsb', hbits i hi, h,
    ← hbits i hi]

theorem Framed.of_frameAt {g : Tables} {mem : Word → Word} {tf : Word} (hf : Framed g c)
    (h : FrameAt mem tf c) (h' : FrameAt mem tf c') : Framed g c' := by
  have hcs : c'.cs = c.cs := h'.cs.symm.trans h.cs
  have hmode : c'.kernelMode = c.kernelMode := congrArg ring0 hcs
  refine hf.congr hcs (h'.ds.symm.trans h.ds) (fun hm => ?_) fun _ => ?_
  · exact (h'.user (hmode.trans hm)).2.symm.trans (h.user hm).2
  · rw [Cpu.iopl, Cpu.iopl, ← h'.eflags, ← h.eflags]

theorem Framed.resumed {g : Tables} (hf : Framed g c) (h : Resumed c c') : Framed g c' :=
  hf.congr h.cs h.ds h.ss fun _ => iopl_congr h.eflags

theorem Executes.cs_eq (h : Executes (bootTables addr) c c') (hf : Framed (bootTables addr) c) :
    c'.cs = c.cs := by
  rcases h.cs with heq | ⟨sel, hsel, heq⟩
  · exact heq
  · rw [takes_bootTables, taken_jumpRule] at hsel
    rcases hf.mode with ⟨hcs, hcpl, -⟩ | ⟨hcs, hcpl, -⟩
    · rw [hcpl] at hsel heq
      rcases hsel with ⟨-, rfl⟩ | ⟨h3, -⟩
      · rw [heq, hcs]
        decide
      · exact absurd h3 (by decide)
    · rw [hcpl] at hsel heq
      rcases hsel with ⟨h0, -⟩ | ⟨-, hlo, hhi⟩
      · exact absurd h0 (by decide)
      · obtain ⟨n, hn, rfl⟩ : ∃ n < 4, sel = BitVec.ofNat 16 (0x20 + n) :=
          ⟨sel.toNat - 0x20, by omega, BitVec.eq_of_toNat_eq (by rw [BitVec.toNat_ofNat]; omega)⟩
        have hcode : ∀ n < 4,
            BitVec.ofNat 16 (0x20 + n) &&& 0xFFFC ||| (3 : BitVec 2).setWidth 16 = 0x23 := by decide
        rw [heq, hcs]
        exact hcode n hn

/-- **The code of a task keeps to the selectors of its level.** -/
theorem Protected.executes (h : Protected (bootTables addr) c) (he : Executes (bootTables addr) c c') :
    Protected (bootTables addr) c' := by
  have hcs := he.cs_eq h.framed
  have hcpl : c'.cpl = c.cpl := congrArg rpl hcs
  have hmode : c'.kernelMode = c.kernelMode := congrArg ring0 hcs
  have hss : (bootTables addr).takes stackRule c'.cpl c'.ss = true := by
    rw [hcpl]
    rcases he.ss with heq | htakes
    · rw [heq]
      exact h.ss
    · exact htakes
  have hdata : ∀ r ∈ dataRegisters, (bootTables addr).takesData c'.cpl (r c') = true := by
    intro r hr
    rw [hcpl]
    rcases he.data r hr with heq | htakes
    · rw [heq]
      exact h.data r hr
    · exact htakes
  refine ⟨⟨?_, fun _ => hss, hdata Cpu.ds List.mem_cons_self, fun hm => ?_⟩, hss, hdata⟩
  · rw [hcpl, hcs]
    exact h.framed.cs
  · rw [he.iopl (hmode.symm.trans hm)]
    exact h.framed.iopl (hmode.symm.trans hm)

/-- A return from the segments of the kernel gives a task the selectors of its frame, and the kernel's
or null in the registers that the frame does not keep. -/
theorem Framed.protected (hf : Framed (bootTables addr) c) (hss : c.kernelMode = true → c.ss = 0x10)
    (hdata : ∀ r ∈ [Cpu.es, Cpu.fs, Cpu.gs], r c = keptSelector c.cs 0x10) :
    Protected (bootTables addr) c := by
  have hkept : (bootTables addr).takesData c.cpl (keptSelector c.cs 0x10) = true := by
    rw [bootTables, takesData_iff]
    rcases hf.mode with ⟨hcs, hcpl, -⟩ | ⟨hcs, hcpl, -⟩
    · rw [hcs, hcpl]
      decide
    · rw [hcs, hcpl]
      decide
  refine ⟨hf, ?_, fun r hr => ?_⟩
  · rcases hf.mode with ⟨-, hcpl, hmode⟩ | ⟨-, -, hmode⟩
    · rw [takes_bootTables, taken_stackRule, hcpl, hss hmode]
      exact Or.inl ⟨rfl, rfl⟩
    · exact hf.ss hmode
  · rcases List.mem_cons.mp hr with rfl | hr
    · exact hf.ds
    · rw [hdata r hr]
      exact hkept

theorem iopl_newCpu (esp eip : Word) (cs ss ds : BitVec 16) : (newCpu esp eip cs ss ds).iopl = 0 := by
  show (2 : Word).extractLsb' 12 2 = 0
  decide

theorem framed_newKernel (esp eip : Word) : Framed (bootTables addr)
    (newCpu esp eip (gdtKernelCodeSeg.setWidth 16) 0 (gdtKernelDataSeg.setWidth 16)) := by
  have hmode : ring0 (gdtKernelCodeSeg.setWidth 16) = true := by decide
  have hcpl : rpl (gdtKernelCodeSeg.setWidth 16) = 0 := by decide
  refine ⟨?_, fun hm => absurd (hmode.symm.trans hm) (by decide), ?_, fun _ => iopl_newCpu _ _ _ _ _⟩
  · rw [takes_bootTables, taken_returnRule]
    exact Or.inl ⟨hcpl, rfl⟩
  · rw [bootTables, takesData_iff]
    exact Or.inr (Or.inl ⟨hcpl, Or.inr rfl⟩)

theorem framed_newUser (esp eip : Word) : Framed (bootTables addr) (newCpu esp eip
    (gdtUserCodeSeg.setWidth 16) (gdtUserDataSeg.setWidth 16) (gdtUserDataSeg.setWidth 16)) := by
  have hcpl : rpl (gdtUserCodeSeg.setWidth 16) = 3 := by decide
  have hds : 0x28 ≤ (gdtUserDataSeg.setWidth 16 : BitVec 16).toNat ∧
      (gdtUserDataSeg.setWidth 16 : BitVec 16).toNat < 0x2C := by decide
  refine ⟨?_, fun _ => ?_, ?_, fun _ => iopl_newCpu _ _ _ _ _⟩
  · rw [takes_bootTables, taken_returnRule]
    exact Or.inr rfl
  · rw [takes_bootTables, taken_stackRule]
    exact Or.inr ⟨hcpl, rfl⟩
  · rw [bootTables, takesData_iff]
    exact Or.inr (Or.inr (Or.inr hds))

end Selectors

/-! ### The handler -/

theorem irqEntry_ss (n : Word) (m : Machine) :
    (irqEntry n m).cpu.ss = if m.cpu.kernelMode then m.cpu.ss else 0x10 := by
  have hstub (m : Machine) : m.stubEntry.cpu.ss = m.cpu.ss := rfl
  have hdeliver : (m.deliver none).cpu.ss = m.changeStack.cpu.ss := rfl
  have hirq : ((m.deliver none).irq n).cpu.ss = (m.deliver none).cpu.ss := rfl
  rw [irqEntry, hstub, hirq, hdeliver, changeStack]
  split <;> rfl

/-- **The stub loads the segments of the kernel.** -/
theorem kernelSegments_irqEntry {addr : Addresses} {m : Machine} (h : Protected (bootTables addr) m.cpu)
    (n : Word) : KernelSegments (irqEntry n m).cpu := by
  refine ⟨?_, fun r hr => ?_⟩
  · rw [irqEntry_ss]
    rcases h.framed.mode with ⟨-, hcpl, hmode⟩ | ⟨-, -, hmode⟩
    · have hss := h.ss
      rw [takes_bootTables, taken_stackRule, hcpl] at hss
      rw [hmode, if_pos rfl]
      rcases hss with ⟨-, hss⟩ | ⟨h3, -⟩
      · exact hss
      · exact absurd h3 (by decide)
    · rw [hmode, if_neg Bool.false_ne_true]
  · have hax := setWidth_movAx ((m.deliver none).irq n).pushad.pushDs.cpu.eax
      (gdtKernelDataSeg.setWidth 16)
    simp only [dataRegisters, List.mem_cons, List.not_mem_nil, or_false] at hr
    rcases hr with rfl | rfl | rfl | rfl
    · exact hax
    · exact hax
    · exact hax
    · exact hax

theorem KeepsSegments.kernelSegments {c c' : Cpu} (hk : KeepsSegments c c') (h : KernelSegments c) :
    KernelSegments c' :=
  ⟨hk.ss.trans h.ss, fun r hr => (hk.data r hr).trans (h.data r hr)⟩

theorem iret_ss {m : Machine} (h : m.iret.cpu.kernelMode = true) : m.iret.cpu.ss = m.cpu.ss := by
  have hcs : ring0 ((m.word 4).setWidth 16) = true := by
    rw [← (iret_frame m).2.2.1]
    exact h
  rw [iret_ring0 hcs]

theorem iret_kernelSegments {m : Machine} (h : m.cpu.ss = 0x10)
    (hdata : ∀ r ∈ [Cpu.es, Cpu.fs, Cpu.gs], r m.cpu = 0x10) :
    (m.iret.cpu.kernelMode = true → m.iret.cpu.ss = 0x10) ∧
      ∀ r ∈ [Cpu.es, Cpu.fs, Cpu.gs], r m.iret.cpu = keptSelector m.iret.cpu.cs 0x10 := by
  refine ⟨fun hm => (iret_ss hm).trans h, fun r hr => ?_⟩
  obtain ⟨-, hes, hfs, hgs⟩ := iret_segments m
  have hr' := hdata r hr
  simp only [List.mem_cons, List.not_mem_nil, or_false] at hr
  rcases hr with rfl | rfl | rfl
  · rw [hes, hr']
  · rw [hfs, hr']
  · rw [hgs, hr']

theorem taskSwitchAsm_segments {m : Machine} (h : KernelSegments m.cpu) :
    (m.taskSwitchAsm.cpu.kernelMode = true → m.taskSwitchAsm.cpu.ss = 0x10) ∧
      ∀ r ∈ [Cpu.es, Cpu.fs, Cpu.gs],
        r m.taskSwitchAsm.cpu = keptSelector m.taskSwitchAsm.cpu.cs 0x10 := by
  rw [m.taskSwitchAsm_eq rfl rfl]
  refine iret_kernelSegments h.ss fun r hr => ?_
  have hr' := h.data r (List.mem_cons_of_mem _ hr)
  simp only [List.mem_cons, List.not_mem_nil, or_false] at hr
  rcases hr with rfl | rfl | rfl <;> exact hr'

theorem irqReturn_kernelSegments {m : Machine} (h : KernelSegments m.cpu) :
    (m.irqReturn.iret.cpu.kernelMode = true → m.irqReturn.iret.cpu.ss = 0x10) ∧
      ∀ r ∈ [Cpu.es, Cpu.fs, Cpu.gs],
        r m.irqReturn.iret.cpu = keptSelector m.irqReturn.iret.cpu.cs 0x10 := by
  rw [irqReturn_eq]
  refine iret_kernelSegments h.ss fun r hr => ?_
  have hr' := h.data r (List.mem_cons_of_mem _ hr)
  simp only [List.mem_cons, List.not_mem_nil, or_false] at hr
  rcases hr with rfl | rfl | rfl <;> exact hr'

/-! ### The invariant -/

section Steps

variable {H : Type} {addr : Addresses} {entries : Entries} {kmalloc : Kern H Nat} {boot_task : Nat}
  {boot_stack : Set Word} {s s' : System H} {e : Event} {q : Nat}

/-- The frame of a task keeps the selectors of its level. -/
def FrameProtected (addr : Addresses) (k : Kernel) (q : Nat) : Prop :=
  ∀ c, FrameAt k.mem (k.task q).trapframe c → Framed (bootTables addr) c

/-- The frames of the tasks that do not run, the registers of the one that runs, and those of the
handler. -/
structure ProtectedInv (addr : Addresses) (boot_task : Nat) (boot_stack : Set Word) (s : System H) :
    Prop where
  preempt : PreemptInv boot_task boot_stack s
  saved : ∀ q ∈ s.sys.tasks, Waits s q → FrameProtected addr s.kernel q
  running : s.handling = false → Protected (bootTables addr) s.cpu
  handled : s.handling = true → KernelSegments s.cpu

theorem PreemptInv.call_spec (addr : Addresses) (hi : PreemptInv boot_task boot_stack s) {op : Op}
    {sys : Sys H} (hop : MayCall kmalloc boot_task boot_stack s op)
    (hstep : Step entries kmalloc s.sys op sys) :
    sys.kernel.currentTask = s.kernel.currentTask ∧ (sys.tasks = s.sys.tasks ∨
      ∃ p, sys.tasks = s.sys.tasks ++ [p] ∧ FrameProtected addr sys.kernel p) := by
  have htail : s.kernel.taskListTail ≠ 0 := fun h => hi.esp.ring.nonzero (h ▸ hi.esp.ring.tail_mem)
  cases hstep with
  | schedulerInit hk =>
    cases hk
    exact ⟨rfl, Or.inl rfl⟩
  | @createKernel p _ _ k hp hk =>
    obtain ⟨hmem, -⟩ := hop _ _ hp
    have hpt : p ≠ s.kernel.taskListTail := fun he => hmem (he ▸ hi.esp.ring.tail_mem)
    obtain ⟨-, t, hc, -⟩ := taskCreateKernel_created htail hpt hk
    refine ⟨hc.current, Or.inr ⟨p, rfl, fun c h => ?_⟩⟩
    exact (framed_newKernel _ _).of_frameAt (taskCreateKernel_frame hpt hk).frame h
  | @createUser p _ _ k hp hk =>
    obtain ⟨hmem, -⟩ := hop _ _ hp
    have hpt : p ≠ s.kernel.taskListTail := fun he => hmem (he ▸ hi.esp.ring.tail_mem)
    obtain ⟨-, t, hc, -⟩ := taskCreateUser_created htail hpt hk
    refine ⟨hc.current, Or.inr ⟨p, rfl, fun c h => ?_⟩⟩
    exact (framed_newUser _ _).of_frameAt (taskCreateUser_frame hpt hk).frame h
  | scheduler => exact absurd hop id

theorem PreemptInv.current_switch (hi : PreemptInv boot_task boot_stack s) (hr : s.handling = true)
    {p : Nat} {k : Kernel} {m : Machine} (hcall : schedulerCall s.kernel = some (p, k))
    (hc : CCode boot_task boot_stack s k m) (harg : m.word 4 = BitVec.ofNat 32 p) :
    m.taskSwitchAsm.kernel.currentTask = p := by
  obtain ⟨hp, hcur, hspec⟩ := hi.switch_spec hcall hc harg
  obtain ⟨c, h⟩ := hi.saved p hp (Or.inr hr)
  obtain ⟨-, v, hv⟩ := hspec c h
  rw [hv]
  exact hcur

theorem PreemptInv.waits_step (hi : PreemptInv boot_task boot_stack s)
    (hs : PreemptStep entries kmalloc boot_task boot_stack s e s') (hw : Waits s' q) :
    e = .timer ∧ q = s.kernel.currentTask ∨
      Waits s q ∧ e ≠ .switch q ∧ (e = .ret → q ≠ s.kernel.currentTask) := by
  cases hs with
  | @call op sys hr hop hstep =>
    obtain ⟨hcur, -⟩ := hi.call_spec ⟨0, 0, 0⟩ hop hstep
    refine Or.inr ⟨hw.imp (fun hne => ?_) id, Event.noConfusion, fun h => Event.noConfusion h⟩
    rw [← hcur]
    exact hne
  | run hr =>
    exact Or.inr ⟨hw.imp id fun h => Bool.noConfusion h, Event.noConfusion, fun h => Event.noConfusion h⟩
  | timer hr =>
    by_cases hcur : q = s.kernel.currentTask
    · exact Or.inl ⟨rfl, hcur⟩
    · exact Or.inr ⟨Or.inl hcur, Event.noConfusion, fun h => Event.noConfusion h⟩
  | @switch p k m hr hcall hc harg =>
    have hne : q ≠ p := by
      rw [← hi.current_switch hr hcall hc harg]
      exact hw.resolve_right Bool.false_ne_true
    refine Or.inr ⟨Or.inr hr, fun he => ?_, fun h => Event.noConfusion h⟩
    injection he with he
    exact hne he.symm
  | @ret m hr hcall hc hesp =>
    have hcur : m.irqReturn.iret.kernel.currentTask = s.kernel.currentTask := by
      rw [iret_kernel, irqReturn_eq, hc.kernel]
    refine Or.inr ⟨Or.inr hr, Event.noConfusion, fun _ => ?_⟩
    rw [← hcur]
    exact hw.resolve_right Bool.false_ne_true

/-- **A frame keeps its selectors** until its task is resumed. -/
theorem ProtectedInv.kept (hi : ProtectedInv addr boot_task boot_stack s)
    (hs : PreemptStep entries kmalloc boot_task boot_stack s e s') (hq : q ∈ s.sys.tasks)
    (hw : Waits s' q) : FrameProtected addr s'.kernel q := by
  intro c h
  rcases hi.preempt.waits_step hs hw with ⟨rfl, rfl⟩ | ⟨hw', hne, hret⟩
  · cases hs with
    | timer hr => exact (hi.running hr).framed.of_frameAt (hi.preempt.savedAs_timer hr).frame h
  · obtain ⟨c', h'⟩ := hi.preempt.saved q hq hw'
    obtain ⟨hkept, -⟩ := h'.step hi.preempt hs hq hw' hne hret
    exact (hi.saved q hq hw' c' h'.frame).of_frameAt hkept.frame h

/-- **Every step keeps the invariant.** -/
theorem ProtectedInv.step (hi : ProtectedInv addr boot_task boot_stack s)
    (hs : ProtectedStep addr entries kmalloc boot_task boot_stack s e s') :
    ProtectedInv addr boot_task boot_stack s' := by
  have hpreempt := hi.preempt.step hs.preempt
  have hkept := fun q (hq : q ∈ s.sys.tasks) => hi.kept (q := q) hs.preempt hq
  cases hs with
  | @call _ op h =>
    cases h with
    | @call _ sys hr hop hstep =>
      obtain ⟨-, htasks⟩ := hi.preempt.call_spec addr hop hstep
      refine ⟨hpreempt, fun q hq hw => ?_, hi.running, hi.handled⟩
      rcases htasks with htasks | ⟨p, htasks, hp⟩
      · exact hkept q (htasks ▸ hq) hw
      · rcases List.mem_append.mp (htasks ▸ hq) with hq | hq
        · exact hkept q hq hw
        · rw [List.mem_singleton.mp hq]
          exact hp
  | run h hcpu =>
    cases h with
    | run hr hmay hmem =>
      exact ⟨hpreempt, hkept, fun _ => (hi.running hr).executes hcpu, fun h => Bool.noConfusion h⟩
  | timer h =>
    cases h with
    | timer hr =>
      exact ⟨hpreempt, hkept, fun h => Bool.noConfusion h,
        fun _ => kernelSegments_irqEntry (hi.running hr) 32⟩
  | @switch p k m hr hcall hc harg hcpu =>
    obtain ⟨hp, -, hspec⟩ := hi.preempt.switch_spec hcall hc harg
    obtain ⟨c, h⟩ := hi.preempt.saved p hp (Or.inr hr)
    have hf := (hi.saved p hp (Or.inr hr) c h.frame).resumed (hspec c h).1
    obtain ⟨hss, hdata⟩ := taskSwitchAsm_segments (hcpu.kernelSegments (hi.handled hr))
    exact ⟨hpreempt, hkept, fun _ => hf.protected hss hdata, fun h => Bool.noConfusion h⟩
  | @ret m hr hcall hc hesp hcpu =>
    have hcur := hi.preempt.esp.ring.current
    obtain ⟨c, h⟩ := hi.preempt.saved _ hcur (Or.inr hr)
    have hframe : FrameAt m.kernel.mem m.cpu.esp c := by
      rw [hesp, ← hi.preempt.handled hr]
      exact h.frame.congr (hc.mem_frame hcur h)
    have hf := (hi.saved _ hcur (Or.inr hr) c h.frame).resumed (hframe.irqReturn h.mayRun.ds)
    obtain ⟨hss, hdata⟩ := irqReturn_kernelSegments (hcpu.kernelSegments (hi.handled hr))
    exact ⟨hpreempt, hkept, fun _ => hf.protected hss hdata, fun h => Bool.noConfusion h⟩

theorem ProtectedInv.of_booted {s₀ : System H} (hs₀ : Booted boot_task boot_stack s₀)
    (hcpu : Protected (bootTables addr) s₀.cpu) : ProtectedInv addr boot_task boot_stack s₀ := by
  refine ⟨hs₀.inv, fun q hq hw => ?_, fun _ => hcpu, fun hr => ?_⟩
  · -- the boot task is the only one, and it runs
    have htasks := hs₀.init.2.1
    have hcur := hs₀.init.ring.current
    rw [htasks] at hq hcur
    have heq := (List.mem_singleton.mp hq).trans (List.mem_singleton.mp hcur).symm
    rcases hw with hw | hw
    · exact absurd heq hw
    · exact absurd (hw.symm.trans hs₀.handling) Bool.noConfusion
  · exact absurd (hr.symm.trans hs₀.handling) Bool.noConfusion

theorem protectedInv_of_run {s₀ : System H} {es : List Event} (hs₀ : Booted boot_task boot_stack s₀)
    (hcpu : Protected (bootTables addr) s₀.cpu)
    (h : Run (ProtectedStep addr entries kmalloc boot_task boot_stack) s₀ es s) :
    ProtectedInv addr boot_task boot_stack s :=
  h.invariant (I := ProtectedInv addr boot_task boot_stack) (fun hi hs => hi.step hs)
    (.of_booted hs₀ hcpu)

/-! ### The laws -/

/-- **No return to a task faults on a selector**: in every run, the kernel can load the `ds` of each
frame that waits, and `iret` takes its code segment and, on the way to user mode, its stack segment. 
The code that runs has selectors of its level. -/
theorem protected_of_run {s₀ : System H} {es : List Event} (hs₀ : Booted boot_task boot_stack s₀)
    (hcpu : Protected (bootTables addr) s₀.cpu)
    (h : Run (ProtectedStep addr entries kmalloc boot_task boot_stack) s₀ es s) :
    (∀ q ∈ s.sys.tasks, Waits s q →
      let word := fun i => (s.kernel.mem ((s.kernel.task q).trapframe + i)).setWidth 16
      (bootTables addr).takesData 0 (word 0) = true ∧
        (bootTables addr).takes returnRule 0 (word 48) = true ∧
        (ring0 (word 48) = false →
          (bootTables addr).takes stackRule (rpl (word 48)) (word 60) = true)) ∧
      (s.handling = false → Protected (bootTables addr) s.cpu) := by
  have hi := protectedInv_of_run hs₀ hcpu h
  refine ⟨fun q hq hw => ?_, hi.running⟩
  obtain ⟨c, hc⟩ := hi.preempt.saved q hq hw
  have hf := hi.saved q hq hw c hc.frame
  have hds := hc.frame.ds
  have hcs := hc.frame.cs
  have hzero : (s.kernel.task q).trapframe + (0 : Word) = (s.kernel.task q).trapframe := BitVec.add_zero _
  dsimp only
  rw [hzero, hds, hcs]
  refine ⟨takesData_zero hf.ds, ?_, fun hm => ?_⟩
  · rw [takes_bootTables, taken_returnRule]
    rcases hf.mode with ⟨hcs, -⟩ | ⟨hcs, -⟩
    · exact Or.inl ⟨rfl, hcs⟩
    · exact Or.inr hcs
  · rw [(hc.frame.user hm).2]
    exact hf.ss hm

/-- **A user task finds null in `es`, `fs` and `gs`** whenever it goes on after the handler, by a
switch or not; a task in kernel mode finds the data segment of the kernel there. -/
theorem nullSegments_of_run {s₀ : System H} {es : List Event} (hs₀ : Booted boot_task boot_stack s₀)
    (hcpu : Protected (bootTables addr) s₀.cpu)
    (h : Run (ProtectedStep addr entries kmalloc boot_task boot_stack) s₀ es s) (hr : s.handling = true)
    (hstep : ProtectedStep addr entries kmalloc boot_task boot_stack s e s') :
    s'.handling = false ∧ ∀ r ∈ [Cpu.es, Cpu.fs, Cpu.gs], r s'.cpu = leftSelector s'.cpu := by
  have hi := protectedInv_of_run hs₀ hcpu h
  have hk := hi.handled hr
  cases hstep with
  | call h => cases h with | call hr' => exact absurd (hr.symm.trans hr') Bool.noConfusion
  | run h => cases h with | run hr' => exact absurd (hr.symm.trans hr') Bool.noConfusion
  | timer h => cases h with | timer hr' => exact absurd (hr.symm.trans hr') Bool.noConfusion
  | @switch _ _ m _ _ _ _ hcpu =>
    refine ⟨rfl, fun r hr => ?_⟩
    rw [← keptSelector_kernelData]
    exact (taskSwitchAsm_segments (hcpu.kernelSegments hk)).2 r hr
  | @ret m _ _ _ _ hcpu =>
    refine ⟨rfl, fun r hr => ?_⟩
    rw [← keptSelector_kernelData]
    exact (irqReturn_kernelSegments (hcpu.kernelSegments hk)).2 r hr

/-- The bytes of `tss_region`, whose `esp0` the scheduler sets. -/
def tssByte (addr : Addresses) (k : Kernel) : (Nat → BitVec 8) → Nat → BitVec 8 :=
  Tss.byte { (bootTables addr).tssRegion with esp0 := k.esp0 }

/-- **The ports that a user task reaches**: with the task register that `gdt_load_tss_asm` loads,
those below 1024 apart from the ones whose bits are set in `tss_region`, which are some of 32 to 63,
as the kernel stack of the task lies, and 68.  So it reaches the interrupt controllers, the timer and
the keyboard. -/
theorem ports_of_run {s₀ : System H} {es : List Event} (hs₀ : Booted boot_task boot_stack s₀)
    (hcpu : Protected (bootTables addr) s₀.cpu)
    (h : Run (ProtectedStep addr entries kmalloc boot_task boot_stack) s₀ es s) (hr : s.handling = false)
    (hmode : s.cpu.kernelMode = false) (behind : Nat → BitVec 8) (port : Nat) {width : Nat}
    (hw : width ≤ 4) :
    ∃ d, (bootTables addr).descriptor 0x18 = some d ∧ d.base = addr.tssRegion ∧
      (s.cpu.mayAccess d.lastByte (tssByte addr s.kernel behind) port width = true ↔
        port < 1024 ∧ ∀ i < width, port + i ≠ 68 ∧
          (32 ≤ port + i → port + i < 64 →
            (s.kernel.task s.kernel.currentTask).kernelStackBase.getLsbD (port + i - 32) = false) ∧
          (1024 ≤ port + i → (behind 128).getLsbD (port + i - 1024) = false)) := by
  have hi := protectedInv_of_run hs₀ hcpu h
  have hframed := (hi.running hr).framed
  have hesp : s.kernel.esp0 = (s.kernel.task s.kernel.currentTask).kernelStackBase :=
    hi.preempt.esp.law ((hi.preempt.running hr).user hmode)
  have hlevel : decide (s.cpu.cpl ≤ s.cpu.iopl) = false := by
    rcases hframed.mode with ⟨-, -, hk⟩ | ⟨-, hcpl, -⟩
    · exact absurd (hk.symm.trans hmode) Bool.noConfusion
    · rw [hcpl, hframed.iopl hmode]
      decide
  have htss : tssByte addr s.kernel = (kernelTss s.kernel.esp0).byte := rfl
  refine ⟨⟨128, addr.tssRegion, 0b10001001, 0⟩, ?_, rfl, ?_⟩
  · rw [bootTables, descriptor_gdtInit]
    rfl
  · rw [Cpu.mayAccess, hlevel, Bool.false_or, htss, lastByte_tss, ← hesp]
    exact portsOpen_kernelTss s.kernel.esp0 behind hw

theorem keepsSegments_callSwitch (s : System H) (p : Nat) (k : Kernel) :
    KeepsSegments s.cpu (Interrupt.callSwitch s p k).cpu := by
  refine ⟨rfl, fun r hr => ?_⟩
  simp only [dataRegisters, List.mem_cons, List.not_mem_nil, or_false] at hr
  rcases hr with rfl | rfl | rfl | rfl <;> rfl

/-- **The timer passes the turn** to the next task, which goes on from its frame. -/
theorem ProtectedInv.exists_turn (hi : ProtectedInv addr boot_task boot_stack s) (entries : Entries)
    (kmalloc : Kern H Nat) (hr : s.handling = false) (hstarted : s.kernel.schedulerInitialized = true)
    (hnext : s.kernel.next s.kernel.currentTask = q) (hne : q ≠ s.kernel.currentTask)
    (hmem : q ∈ s.sys.tasks) {c : Cpu} (hc : SavedAs boot_task boot_stack s q c) :
    ∃ s₁ s₂, ProtectedStep addr entries kmalloc boot_task boot_stack s .timer s₁ ∧ s₁.handling = true ∧
      ProtectedStep addr entries kmalloc boot_task boot_stack s₁ (.switch q) s₂ ∧
      q ∈ s₁.sys.tasks ∧ s₂.handling = false ∧ Resumed c s₂.cpu := by
  have htimer : PreemptStep entries kmalloc boot_task boot_stack s .timer _ := .timer hr
  have hi₁ := hi.step (.timer htimer)
  have hstarted₁ := hi.preempt.started htimer hstarted
  obtain ⟨hc₁, hmem₁, -⟩ := hc.step hi.preempt htimer hmem (Or.inl hne) Event.noConfusion
    fun h => Event.noConfusion h
  have harg := hi.preempt.room_timer hr
  obtain ⟨mem, tf, hk, -⟩ := hi.preempt.timer_spec hr
  have hsame := sameTasks_withTrapframe s.kernel mem tf
  rw [← hk] at hsame
  rw [← hsame.kernelStack_eq, ← hsame.current] at harg
  generalize hs₁ : s.withMachine (irqEntry 32 s.machine) true = s₁ at htimer hi₁ hstarted₁ hc₁ hmem₁
  have hkernel : (irqEntry 32 s.machine).kernel = s₁.kernel := by rw [← hs₁]; rfl
  have hcpu : (irqEntry 32 s.machine).cpu = s₁.cpu := by rw [← hs₁]; rfl
  have hhandling : s₁.handling = true := by rw [← hs₁]; rfl
  rw [hkernel, hcpu] at harg
  rw [hkernel] at hsame
  cases hcall : schedulerCall s₁.kernel with
  | none => exact absurd hcall (schedulerCall_ne_none hi₁.preempt.esp.ring hstarted₁)
  | some call =>
    obtain ⟨p, k⟩ := call
    have hcc := hi₁.preempt.callSwitch hhandling harg p k
    obtain ⟨-, hcur, hspec⟩ := hi₁.preempt.switch_spec hcall hcc (word_callSwitch s₁ p k)
    obtain rfl : q = p := by
      rw [← hnext, ← hcur, hi₁.preempt.esp.ring.scheduler_eq hstarted₁, hsame.next, hsame.current]
    exact ⟨s₁, _, .timer htimer, hhandling, .switch hhandling hcall hcc (word_callSwitch s₁ _ k)
      (keepsSegments_callSwitch s₁ _ k), hmem₁, rfl, (hspec c hc₁).1⟩

end Steps

/-! ### A run -/

theorem protected_bootCpu (addr : Addresses) : Protected (bootTables addr) bootCpu := by
  have hcpl : bootCpu.cpl = 0 := by decide
  have hmode : bootCpu.kernelMode = true := by decide
  have hdata : ∀ r ∈ dataRegisters, (bootTables addr).takesData bootCpu.cpl (r bootCpu) = true := by
    intro r hr
    have hds : r bootCpu = 0x10 := by
      simp only [dataRegisters, List.mem_cons, List.not_mem_nil, or_false] at hr
      rcases hr with rfl | rfl | rfl | rfl <;> rfl
    rw [bootTables, takesData_iff, hds, hcpl]
    exact Or.inr (Or.inl ⟨rfl, Or.inr rfl⟩)
  have hss : (bootTables addr).takes stackRule bootCpu.cpl bootCpu.ss = true := by
    rw [takes_bootTables, taken_stackRule, hcpl]
    exact Or.inl ⟨rfl, rfl⟩
  refine ⟨⟨?_, fun _ => hss, hdata Cpu.ds List.mem_cons_self, fun hm => ?_⟩, hss, hdata⟩
  · rw [takes_bootTables, taken_returnRule, hcpl]
    exact Or.inl ⟨rfl, rfl⟩
  · exact absurd (hmode.symm.trans hm) Bool.noConfusion

/-- A run in which the boot task creates a user task and starts the scheduler, and the timer passes
the turn to the user task. -/
structure UserTurn (addr : Addresses) (s₀ s₁ s₂ : System Memory.Kmalloc.Heap) : Prop where
  booted : Booted 0xC0160F38 (pageSet 0xC0150000) s₀
  cpu : Protected (bootTables addr) s₀.cpu
  run : ∃ es, Run (ProtectedStep addr ⟨0xC0101000, 0x100010⟩ kmallocTask 0xC0160F38
    (pageSet 0xC0150000)) s₀ es s₁
  handling : s₁.handling = true
  mem : 0xC0160F08 ∈ s₁.sys.tasks
  switch : ProtectedStep addr ⟨0xC0101000, 0x100010⟩ kmallocTask 0xC0160F38 (pageSet 0xC0150000) s₁
    (.switch 0xC0160F08) s₂
  running : s₂.handling = false
  user : s₂.cpu.kernelMode = false

theorem exists_userTurn (addr : Addresses) : ∃ s₀ s₁ s₂, UserTurn addr s₀ s₁ s₂ := by
  obtain ⟨sys₀, used, ⟨_, _, boot_task, _, _, hinit⟩, hf, htasks, -, -⟩ :=
    exists_afterBoot freshPage_kernel
  obtain rfl : boot_task = 0xC0160F38 := List.singleton_inj.mp (hinit.2.1.symm.trans htasks)
  have hbooted : Booted 0xC0160F38 (pageSet 0xC0150000) ⟨bootCpu, sys₀, false⟩ :=
    ⟨hinit, by decide, rfl, mayRun_bootCpu⟩
  -- `task_create_user` and `scheduler_init`
  obtain ⟨sys₁, -, hcreate, -, hkernel, htasks₁, husers, hfresh⟩ := createUser_firstBlock
    ⟨0xC0101000, 0x100010⟩ hf (Or.inl (by decide)) 0xC0200000
  have hfresh' := hfresh (by rw [htasks]; decide)
  have hnew : NewStack kmallocTask 0xC0160F38 (pageSet 0xC0150000) ⟨bootCpu, sys₀, false⟩
      0xC0200000 := by
    cases hcreate with
    | createUser hp₁ =>
      intro p heap hp
      refine ⟨hfresh' p heap hp, ?_, ?_⟩
      · rw [hp₁] at hp
        injection hp with hp
        have heq := List.singleton_inj.mp (List.append_cancel_left htasks₁)
        rw [← hp, heq]
        decide
      · intro q hq
        rw [htasks] at hq
        rw [List.mem_singleton.mp hq, kernelStack, if_pos rfl]
        exact disjoint_pageSet
  have hcall : PreemptStep ⟨0xC0101000, 0x100010⟩ kmallocTask 0xC0160F38 (pageSet 0xC0150000)
      ⟨bootCpu, sys₀, false⟩ (.call (.createUser 0xC0200000)) ⟨bootCpu, sys₁, false⟩ :=
    .call rfl hnew hcreate
  have hstart : PreemptStep ⟨0xC0101000, 0x100010⟩ kmallocTask 0xC0160F38 (pageSet 0xC0150000)
      ⟨bootCpu, sys₁, false⟩ (.call .schedulerInit)
      ⟨bootCpu, { sys₁ with kernel := { sys₁.kernel with schedulerInitialized := true } }, false⟩ :=
    .call rfl trivial (.schedulerInit rfl)
  have hrun : Run (ProtectedStep addr ⟨0xC0101000, 0x100010⟩ kmallocTask 0xC0160F38 (pageSet 0xC0150000))
      ⟨bootCpu, sys₀, false⟩ _ _ := (Run.single (.call hcall)).snoc (.call hstart)
  have hi := protectedInv_of_run hbooted (protected_bootCpu addr) hrun
  -- the user task is the next one
  have hlist : sys₁.tasks = [0xC0160F38, 0xC0160F08] := by
    rw [htasks₁, htasks]
    rfl
  have hring : Ring { sys₁.kernel with schedulerInitialized := true } sys₁.tasks := hi.preempt.esp.ring
  rw [hlist] at hring
  obtain ⟨-, hrest⟩ := Path.cons_iff.mp hring.path
  obtain ⟨hlink, -⟩ := Path.cons_iff.mp hrest
  have hnext : sys₁.kernel.next 0xC0160F38 = 0xC0160F08 := hlink
  have hring₀ := hinit.ring
  have htail₀ : sys₀.kernel.taskListTail = 0xC0160F38 := by
    have hmem := hring₀.tail_mem
    rw [htasks] at hmem
    exact List.mem_singleton.mp hmem
  have hpt : 0xC0160F08 ≠ sys₀.kernel.taskListTail := by
    rw [htail₀]
    decide
  have hcur : sys₁.kernel.currentTask = 0xC0160F38 := by
    obtain ⟨-, t, hc, -⟩ := taskCreateUser_created (by rw [htail₀]; decide) hpt hkernel
    have hmem := hring₀.current
    rw [htasks] at hmem
    exact hc.current.trans (List.mem_singleton.mp hmem)
  have hmem : 0xC0160F08 ∈ sys₁.tasks := by
    rw [hlist]
    decide
  have hwait : 0xC0160F08 ≠ sys₁.kernel.currentTask := by
    rw [hcur]
    decide
  obtain ⟨c, hc⟩ := hi.preempt.saved 0xC0160F08 hmem (Or.inl hwait)
  have hcs := hc.frame.cs.symm.trans (taskCreateUser_frame hpt hkernel).frame.cs
  have huser : c.kernelMode = false := by
    rw [Cpu.kernelMode, hcs]
    decide
  obtain ⟨s₁, s₂, htimer, hhandling, hswitch, hmem₁, hrunning, hres⟩ :=
    hi.exists_turn ⟨0xC0101000, 0x100010⟩ kmallocTask rfl rfl
      ((congrArg sys₁.kernel.next hcur).trans hnext) hwait hmem hc
  exact ⟨_, s₁, s₂, hbooted, protected_bootCpu addr, ⟨_, hrun.snoc htimer⟩, hhandling, hmem₁, hswitch,
    hrunning, (congrArg ring0 hres.cs).trans huser⟩

/-- The frame of the user task before its first turn. -/
theorem protected_userTurn : ∃ s : System Memory.Kmalloc.Heap, s.handling = true ∧
    (bootTables ⟨0xC0107000, 0xC0107200, 0xC0107280⟩).takesData 0
      ((s.kernel.mem ((s.kernel.task 0xC0160F08).trapframe + 0)).setWidth 16) = true := by
  obtain ⟨s₀, s₁, s₂, h⟩ := exists_userTurn ⟨0xC0107000, 0xC0107200, 0xC0107280⟩
  obtain ⟨es, hrun⟩ := h.run
  obtain ⟨hframes, -⟩ := protected_of_run h.booted h.cpu hrun
  exact ⟨s₁, h.handling, (hframes _ h.mem (Or.inr h.handling)).1⟩

/-- The first turn of the user task. -/
theorem nullSegments_userTurn : ∃ s : System Memory.Kmalloc.Heap,
    s.cpu.kernelMode = false ∧ s.cpu.es = 0 := by
  obtain ⟨s₀, s₁, s₂, h⟩ := exists_userTurn ⟨0xC0107000, 0xC0107200, 0xC0107280⟩
  obtain ⟨es, hrun⟩ := h.run
  obtain ⟨-, hnull⟩ := nullSegments_of_run h.booted h.cpu hrun h.handling h.switch
  refine ⟨s₂, h.user, (hnull Cpu.es List.mem_cons_self).trans ?_⟩
  rw [leftSelector, h.user]
  rfl

/-- In its first turn the user task reaches the keyboard. -/
theorem ports_userTurn : ∃ (s : System Memory.Kmalloc.Heap) (d : Descriptor),
    s.cpu.kernelMode = false ∧ s.cpu.mayAccess d.lastByte
      (tssByte ⟨0xC0107000, 0xC0107200, 0xC0107280⟩ s.kernel fun _ => 0) 0x60 1 = true := by
  obtain ⟨s₀, s₁, s₂, h⟩ := exists_userTurn ⟨0xC0107000, 0xC0107200, 0xC0107280⟩
  obtain ⟨es, hrun⟩ := h.run
  obtain ⟨d, -, -, hport⟩ := ports_of_run h.booted h.cpu (hrun.snoc h.switch) h.running h.user
    (fun _ => 0) 0x60 (show 1 ≤ 4 by decide)
  refine ⟨s₂, d, h.user, hport.mpr ⟨by decide, fun i hi => ?_⟩⟩
  exact ⟨by omega, fun _ h64 => absurd h64 (by omega), fun hge => absurd hge (by omega)⟩

end Aosis.Interrupt
