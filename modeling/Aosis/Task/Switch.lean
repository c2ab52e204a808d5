import Aosis.Interrupt.IrqReturn
import Aosis.Task.Tss

/-!
# The switch to another task

`kernel/task/task_switch.asm`, and the call of it in `scheduler`.

* `scheduler_eq_call`: what `scheduler` does up to the call, followed by the change of
  `current_task`, is the scheduler of the other files.
* `FrameAt.taskSwitchAsm`: the task goes on with the registers that lie in its frame.
-/

namespace Aosis.Interrupt

open Aosis.Lib Aosis.Scheduler

/-- `scheduler` up to the call of `task_switch_asm`: the argument of the call and the kernel, or
nothing when it returns without the call. -/
def schedulerCall (k : Kernel) : Option (Nat × Kernel) :=
  if k.schedulerInitialized = false then none
  else if k.currentTask = 0 ∨ k.next k.currentTask = 0 then none
  else
    let next_task := k.next k.currentTask
    let k := if (k.task next_task).isUser then gdtUpdateTss (k.task next_task).kernelStackBase k
      else k
    some (k.next k.currentTask, k)

theorem scheduler_eq_call (k : Kernel) : scheduler k =
    match schedulerCall k with
    | none => k
    | some (p, k') => taskSwitch p k' := by
  rw [scheduler, schedulerCall]
  split
  · rfl
  · split
    · rfl
    · rfl

namespace Machine

/-- `task_switch_asm`. -/
def taskSwitchAsm (m : Machine) : Machine :=
  let m := m.cli
  -- the argument is above the return address
  let m : Machine := { m with cpu := { m.cpu with esi := m.word 4 } }
  let m : Machine := { m with kernel := taskSwitch m.cpu.esi.toNat m.kernel }
  -- restore the trapframe
  let m : Machine := { m with cpu := { m.cpu with
    esp := (m.kernel.task m.cpu.esi.toNat).trapframe } }
  let m := (m.popDs.popad).addEsp 8
  -- set eflags to enable interrupts
  let m : Machine := { m with kernel := m.kernel.store (m.cpu.esp + 8) (m.word 8 ||| 0x200) }
  m.iret

theorem taskSwitchAsm_eq (m : Machine) {p : Nat} {tf : Word} (hp : (m.word 4).toNat = p)
    (htf : (m.kernel.task p).trapframe = tf) : m.taskSwitchAsm = iret ⟨{ m.cpu with
      ds := (m.kernel.mem tf).setWidth 16
      toRegs := ⟨m.kernel.mem (tf + 32), m.kernel.mem (tf + 28), m.kernel.mem (tf + 24),
        m.kernel.mem (tf + 20), m.kernel.mem (tf + 12), m.kernel.mem (tf + 8),
        m.kernel.mem (tf + 4)⟩
      esp := tf + 44
      eflags := m.cpu.eflags &&& ~~~0x200 },
      (taskSwitch p m.kernel).store (tf + 52) (m.kernel.mem (tf + 52) ||| 0x200)⟩ := by
  subst hp htf
  obtain ⟨c, k⟩ := m
  simp [taskSwitchAsm, cli, popDs, pop_eq, popad_eq, addEsp, word, taskSwitch, BitVec.add_assoc]

theorem setInterruptFlag (v : Word) : (v ||| 0x200) &&& ~~~0x200 = v &&& ~~~0x200 := by
  ext i hi
  simp only [BitVec.getElem_and, BitVec.getElem_or, BitVec.getElem_not]
  cases (0x200 : Word)[i] <;> simp

/-- **The task goes on with the registers that lie in its frame**, and the only store is the one
that sets the interrupt flag in the frame. -/
theorem FrameAt.taskSwitchAsm {m : Machine} {c : Cpu} {p : Nat} (hp : (m.word 4).toNat = p)
    (h : FrameAt m.kernel.mem (m.kernel.task p).trapframe c)
    (hds : keptSelector c.cs c.ds = c.ds) :
    Resumed c m.taskSwitchAsm.cpu ∧ ∃ v, m.taskSwitchAsm.kernel =
      (taskSwitch p m.kernel).store ((m.kernel.task p).trapframe + 52) v := by
  have hsw := m.taskSwitchAsm_eq hp rfl
  generalize (m.kernel.task p).trapframe = tf at h hsw ⊢
  generalize hn : (⟨{ m.cpu with
      ds := (m.kernel.mem tf).setWidth 16
      toRegs := ⟨m.kernel.mem (tf + 32), m.kernel.mem (tf + 28), m.kernel.mem (tf + 24),
        m.kernel.mem (tf + 20), m.kernel.mem (tf + 12), m.kernel.mem (tf + 8),
        m.kernel.mem (tf + 4)⟩
      esp := tf + 44
      eflags := m.cpu.eflags &&& ~~~0x200 },
      (taskSwitch p m.kernel).store (tf + 52) (m.kernel.mem (tf + 52) ||| 0x200)⟩ : Machine) = n
    at hsw
  have hesp : n.cpu.esp = tf + 44 := by rw [← hn]
  have hregs : n.cpu.toRegs = c.toRegs := by
    rw [← hn]
    exact h.regs
  have hseg : n.cpu.ds = c.ds := by
    rw [← hn]
    exact h.ds
  have hword : ∀ i, i ≠ 8 → n.word i = m.kernel.mem (tf + 44 + i) := by
    intro i hi
    rw [word, hesp, ← hn]
    refine Function.update_of_ne ?_ _ _
    bv_omega
  have hflags : n.word 8 = m.kernel.mem (tf + 52) ||| 0x200 := by
    rw [word, hesp, BitVec.add_assoc, ← hn]
    exact Function.update_self _ _ _
  have h0 : n.word 0 = m.kernel.mem (tf + 44) := by
    rw [hword 0 (by decide)]
    simp
  have h4 : n.word 4 = m.kernel.mem (tf + 48) := by
    rw [hword 4 (by decide), BitVec.add_assoc]
    rfl
  have h12 : n.word 12 = m.kernel.mem (tf + 56) := by
    rw [hword 12 (by decide), BitVec.add_assoc]
    rfl
  have h16 : n.word 16 = m.kernel.mem (tf + 60) := by
    rw [hword 16 (by decide), BitVec.add_assoc]
    rfl
  -- `iret`
  obtain ⟨hr, heip, hcs, heflags⟩ := iret_frame n
  obtain ⟨hs, -⟩ := iret_segments n
  obtain ⟨hkernel, huser⟩ := iret_stack n
  rw [h0] at heip
  rw [h4] at hcs
  rw [h12, h16] at huser
  have hcs' : n.iret.cpu.cs = c.cs := hcs.trans h.cs
  have hmode : n.iret.cpu.kernelMode = c.kernelMode := congrArg ring0 hcs'
  rw [hsw]
  refine ⟨⟨heip.trans h.eip, hcs', ?_, ?_, hr.trans hregs, ?_, ?_⟩, ?_⟩
  · rw [heflags, hflags, setInterruptFlag, h.eflags]
  · rw [hs, hcs', hseg, hds]
  · cases hc : c.kernelMode with
    | true =>
      rw [hkernel (hmode.trans hc), hesp, BitVec.add_assoc]
      exact h.esp hc
    | false => exact (huser (hmode.trans hc)).1.trans (h.user hc).1
  · intro hc
    exact (huser (hmode.trans hc)).2.trans (h.user hc).2
  · refine ⟨m.kernel.mem (tf + 52) ||| 0x200, ?_⟩
    rw [iret_kernel, ← hn]

end Machine

end Aosis.Interrupt
