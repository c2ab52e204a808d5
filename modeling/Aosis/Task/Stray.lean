import Aosis.Interrupt.Dispatch
import Aosis.Task.Protection

/-!
# The interrupts without a stub

`interrupt_init` puts the C function `other_interrupt` into the gates from 47 on, the one of interrupt
line 15 among them.  The processor goes to it as if it were a stub, and it returns as a function does.

* `stray_of_run`: what was interrupted goes on at the privilege level of the kernel, with its
  interrupts disabled.
-/

namespace Aosis.Interrupt

open Aosis.Lib Aosis.Lib.Pic8259 Aosis.Scheduler Aosis.Memory.Gdt Machine

/-- The interrupt flag. -/
def Cpu.interrupts (c : Cpu) : Bool := c.eflags.getLsbD 9

/-- `ret`. -/
def Machine.ret (m : Machine) : Machine := m.pop fun v c => { c with eip := v }

/-- A C function before its `ret`: the stack is as at the call, with the return address, and neither
the segment registers nor the interrupt flag have changed. -/
structure BeforeRet (m m' : Machine) : Prop where
  esp : m'.cpu.esp = m.cpu.esp
  address : m'.word 0 = m.word 0
  cs : m'.cpu.cs = m.cpu.cs
  segments : KeepsSegments m.cpu m'.cpu
  interrupts : m'.cpu.interrupts = m.cpu.interrupts

/-- What the processor leaves for `other_interrupt`: the address of the interrupted code lies where a
function finds its return address. -/
theorem deliver_spec (m : Machine) : (m.deliver none).word 0 = m.cpu.eip ∧
    (m.deliver none).cpu.esp = m.stackTop - (if m.cpu.kernelMode then 12 else 20) ∧
    (m.deliver none).cpu.cs = 0x08 ∧ (m.deliver none).cpu.interrupts = false ∧
    ∀ r ∈ dataRegisters, r (m.deliver none).cpu = r m.cpu := by
  have h := deliver_entered m none
  have hlen : (interruptWords m.cpu none).length = if m.cpu.kernelMode then 3 else 5 := by
    rw [interruptWords, stackWords]
    split <;> rfl
  have hflags (v : Word) : (v &&& ~~~0x200).getLsbD 9 = false := by
    have hmask : (~~~0x200 : Word).getLsbD 9 = false := by decide
    rw [BitVec.getLsbD_and, hmask, Bool.and_false]
  refine ⟨?_, ?_, rfl, hflags _, fun r hr => ?_⟩
  · have hget :
        (m.deliver none).kernel.mem ((m.deliver none).cpu.esp + BitVec.ofNat 32 (4 * 0)) = m.cpu.eip :=
      h.stack.words.get rfl
    exact hget
  · rw [h.stack.top, hlen]
    split <;> rfl
  · have hstack : ∀ r ∈ dataRegisters, r m.changeStack.cpu = r m.cpu := by
      intro r hr
      simp only [dataRegisters, List.mem_cons, List.not_mem_nil, or_false] at hr
      rw [changeStack]
      split <;> rcases hr with rfl | rfl | rfl | rfl <;> rfl
    rw [← hstack r hr]
    simp only [dataRegisters, List.mem_cons, List.not_mem_nil, or_false] at hr
    rcases hr with rfl | rfl | rfl | rfl <;> rfl

theorem ret_spec {m m' : Machine} (h : BeforeRet (m.deliver none) m') : m'.ret.cpu.eip = m.cpu.eip ∧
    m'.ret.cpu.cs = 0x08 ∧ m'.ret.cpu.interrupts = false ∧
    m'.ret.cpu.esp = m.stackTop - (if m.cpu.kernelMode then 8 else 16) ∧
    ∀ r ∈ dataRegisters, r m'.ret.cpu = r m.cpu := by
  obtain ⟨haddress, hesp, hcs, hflag, hdata⟩ := deliver_spec m
  have hret : m'.ret.cpu = { m'.cpu with esp := m'.cpu.esp + 4, eip := m'.word 0 } := rfl
  refine ⟨?_, ?_, ?_, ?_, fun r hr => ?_⟩
  · rw [hret]
    exact h.address.trans haddress
  · rw [hret]
    exact h.cs.trans hcs
  · rw [hret]
    exact h.interrupts.trans hflag
  · rw [hret]
    dsimp only
    rw [h.esp, hesp]
    split <;> bv_omega
  · rw [← hdata r hr, ← h.segments.data r hr]
    simp only [dataRegisters, List.mem_cons, List.not_mem_nil, or_false] at hr
    rcases hr with rfl | rfl | rfl | rfl <;> rfl

/-! ### The law -/

section Law

variable {H : Type} {addr : Addresses} {entries : Entries} {kmalloc : Kern H Nat} {boot_task : Nat}
  {boot_stack : Set Word} {s : System H}

/-- **Interrupt line 15 gives a task the privileges of the kernel.**  Its gate leads to
`other_interrupt`.  In every run, when the interrupt comes while a task executes, the task goes on at
its next instruction with the interrupts disabled and with access to all ports, whatever its level
was: a user task on its kernel stack, in the code segment of the kernel, and the stack of a task in
kernel mode is two words too short. -/
theorem stray_of_run (sym : Symbols) (int : IntState) {s₀ : System H} {es : List Event}
    (hs₀ : Booted boot_task boot_stack s₀) (hcpu : Protected (bootTables addr) s₀.cpu)
    (h : Run (ProtectedStep addr entries kmalloc boot_task boot_stack) s₀ es s) (hr : s.handling = false)
    {m' : Machine} (hm : BeforeRet (s.machine.deliver none) m') :
    (interruptInit sym int).gate sym ((interruptInit sym int).pics.vector (.slave 7)) =
        some (interruptGate sym.otherInterrupt) ∧
      m'.ret.cpu.eip = s.cpu.eip ∧ m'.ret.cpu.kernelMode = true ∧ m'.ret.cpu.interrupts = false ∧
      (∀ limit byte port width, m'.ret.cpu.mayAccess limit byte port width = true) ∧
      m'.ret.cpu.esp = if s.cpu.kernelMode then s.cpu.esp - 8
        else (s.kernel.task s.kernel.currentTask).kernelStackBase - 16 := by
  have hi := protectedInv_of_run hs₀ hcpu h
  obtain ⟨heip, hcs, hflag, hesp, -⟩ := ret_spec hm
  refine ⟨?_, heip, ?_, hflag, fun limit byte port width => ?_, ?_⟩
  · rw [gate_interruptInit, pics_interruptInit, entry_vector, if_pos rfl]
  · rw [Cpu.kernelMode, hcs]
    decide
  · have hcpl : m'.ret.cpu.cpl = 0 := by
      rw [Cpu.cpl, hcs]
      decide
    have hle : (0 : BitVec 2) ≤ m'.ret.cpu.iopl := by
      rw [BitVec.le_def]
      exact Nat.zero_le _
    rw [Cpu.mayAccess, hcpl, decide_eq_true hle, Bool.true_or]
  · have hcur : s.machine.cpu = s.cpu := rfl
    rw [hesp, stackTop, hcur]
    cases hmode : s.cpu.kernelMode with
    | true => rfl
    | false =>
      have hbase : s.machine.kernel.esp0 = (s.kernel.task s.kernel.currentTask).kernelStackBase :=
        hi.preempt.esp.law ((hi.preempt.running hr).user hmode)
      rw [if_neg Bool.false_ne_true, if_neg Bool.false_ne_true, if_neg Bool.false_ne_true, hbase]

end Law

/-- The interrupt comes in the first turn of the user task. -/
theorem stray_userTurn : ∃ s : System Memory.Kmalloc.Heap, s.cpu.kernelMode = false ∧
    (s.machine.deliver none).ret.cpu.eip = s.cpu.eip ∧
    (s.machine.deliver none).ret.cpu.kernelMode = true := by
  obtain ⟨s₀, s₁, s₂, h⟩ := exists_userTurn ⟨0xC0107000, 0xC0107200, 0xC0107280⟩
  obtain ⟨es, hrun⟩ := h.run
  obtain ⟨-, heip, hmode, -⟩ := stray_of_run Dispatch.stubs Dispatch.freshInt h.booted h.cpu
    (hrun.snoc h.switch) h.running ⟨rfl, rfl, rfl, ⟨rfl, fun _ _ => rfl⟩, rfl⟩
  exact ⟨s₂, h.user, heip, hmode⟩

end Aosis.Interrupt
