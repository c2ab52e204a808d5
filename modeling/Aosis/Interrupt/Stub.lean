import Aosis.Interrupt.Cpu

/-!
# The interrupt stubs

`kernel/interrupt/init_idt.asm`.
-/

namespace Aosis.Interrupt

open Aosis.Lib Aosis.Scheduler

namespace Machine

/-! ### The source -/

/-- The instructions of `isr_common_stub` and of `irq_common_stub` up to the call of the C
handler. -/
def stubEntry (m : Machine) : Machine :=
  let m := m.pushad
  let m := m.pushDs
  let m := m.movAx (gdtKernelDataSeg.setWidth 16)
  let m := m.movSegments (m.cpu.eax.setWidth 16)
  -- save the trapframe to the current task
  let m := m.push m.cpu.esp
  let m := m.call (taskUpdateTrapframe (m.word 0))
  m.pop fun v c => { c with eax := v }

/-- The instructions of `isr_common_stub` after the call, up to `iret`.  The first `pop` takes what
`push ds` has left, so `pop ds` takes the saved `edi`: a word that need not be a selector, which on the
processor may fault and here is loaded. -/
def isrReturn (m : Machine) : Machine :=
  let m := m.pop fun v c => { c with ebx := v }
  let m := m.movSegments (m.cpu.ebx.setWidth 16)
  let m := m.popDs
  let m := m.popad
  (m.addEsp 8).sti

/-- The instructions of `irq_common_stub` after the call, up to `iret`. -/
def irqReturn (m : Machine) : Machine := ((m.popDs.popad).addEsp 8).sti

/-- `ISR_ERR`, the stub of an exception without an error code. -/
def isrErr (m : Machine) (n : Word) : Machine := (m.cli.push 0).push n

/-- `ISR_REG`, the stub of an exception with an error code. -/
def isrReg (m : Machine) (n : Word) : Machine := m.cli.push n

/-- `IRQ`, with the vector that the interrupt line is mapped to. -/
def irq (m : Machine) (n : Word) : Machine := (m.cli.push 0).push n

/-- The stubs `isr0` to `isr31`: the vectors 8 and 10 to 14 have an `ISR_REG`. -/
def isr (vector : Fin 32) (m : Machine) : Machine :=
  if vector.val ∈ [8, 10, 11, 12, 13, 14] then m.isrReg vector.val else m.isrErr vector.val

/-- The machine at the call of `isr_handler`. -/
def isrEntry (vector : Fin 32) (error_code : Option Word) (m : Machine) : Machine :=
  (isr vector (m.deliver error_code)).stubEntry

/-- The machine at the call of `irq_handler`; the processor pushes no error code. -/
def irqEntry (n : Word) (m : Machine) : Machine := ((m.deliver none).irq n).stubEntry

/-! ### Popping -/

theorem isrReturn_eq (m : Machine) : m.isrReturn = ⟨{ m.cpu with
    ds := (m.word 4).setWidth 16, es := (m.word 0).setWidth 16, fs := (m.word 0).setWidth 16
    gs := (m.word 0).setWidth 16, edi := m.word 8, esi := m.word 12, ebp := m.word 16
    ebx := m.word 24, edx := m.word 28, ecx := m.word 32, eax := m.word 36
    esp := m.cpu.esp + 48, eflags := m.cpu.eflags ||| 0x200 }, m.kernel⟩ := by
  obtain ⟨c, k⟩ := m
  simp [isrReturn, popDs, pop_eq, popad_eq, movSegments, addEsp, sti, word, BitVec.add_assoc]

theorem isrReturn_word (m : Machine) (i : Word) : m.isrReturn.word i = m.word (48 + i) := by
  simp [isrReturn_eq, word, BitVec.add_assoc]

theorem irqReturn_eq (m : Machine) : m.irqReturn = ⟨{ m.cpu with
    ds := (m.word 0).setWidth 16, edi := m.word 4, esi := m.word 8, ebp := m.word 12
    ebx := m.word 20, edx := m.word 24, ecx := m.word 28, eax := m.word 32
    esp := m.cpu.esp + 44, eflags := m.cpu.eflags ||| 0x200 }, m.kernel⟩ := by
  obtain ⟨c, k⟩ := m
  simp [irqReturn, popDs, pop_eq, popad_eq, addEsp, sti, word, BitVec.add_assoc]

theorem irqReturn_word (m : Machine) (i : Word) : m.irqReturn.word i = m.word (44 + i) := by
  simp [irqReturn_eq, word, BitVec.add_assoc]

/-! ### Pushing -/

/-- The words `l` have been pushed since the kernel was `k` and the stack ended at `a`. -/
structure Entered (k : Kernel) (a : Word) (l : List Word) (m : Machine) : Prop where
  stack : Pushed k.mem a l m.kernel.mem m.cpu.esp
  kernel : m.kernel = { k with mem := m.kernel.mem }

section Entry

variable {k : Kernel} {a : Word} {l : List Word} {m : Machine}

theorem Entered.push (h : Entered k a l m) (hlen : l.length < 2 ^ 29) (v : Word) :
    Entered k a (v :: l) (m.push v) := by
  refine ⟨h.stack.push hlen v, ?_⟩
  rw [Machine.push, Kernel.store, h.kernel]

theorem Entered.pushError (h : Entered k a l m) (hlen : l.length < 2 ^ 29)
    (error_code : Option Word) : Entered k a (error_code.toList ++ l) (m.pushError error_code) := by
  cases error_code with
  | none => exact h
  | some e => exact h.push hlen e

/-- The stack that the processor saves when it changes the privilege level. -/
def stackWords (c : Cpu) : List Word :=
  if c.kernelMode then [] else [c.esp, c.ss.setWidth 32]

theorem changeStack_entered (m : Machine) :
    Entered m.kernel m.stackTop (stackWords m.cpu) m.changeStack := by
  rw [stackWords, stackTop, changeStack]
  split
  · exact ⟨.nil, rfl⟩
  · have hnil : Entered m.kernel m.kernel.esp0 [] { m with cpu := { m.cpu with
        esp := m.kernel.esp0, ss := gdtKernelDataSeg.setWidth 16 } } := ⟨.nil, rfl⟩
    exact (hnil.push (by simp) _).push (by simp) _

theorem length_stackWords (c : Cpu) : (stackWords c).length ≤ 2 := by
  rw [stackWords]
  split <;> simp

/-- The words that the processor pushes. -/
def interruptWords (c : Cpu) (error_code : Option Word) : List Word :=
  error_code.toList ++ c.eip :: c.cs.setWidth 32 :: c.eflags :: stackWords c

theorem deliver_entered (m : Machine) (error_code : Option Word) :
    Entered m.kernel m.stackTop (interruptWords m.cpu error_code) (m.deliver error_code) := by
  have hlen := length_stackWords m.cpu
  have hstack := changeStack_entered m
  have hpush := (((hstack.push (by omega) m.cpu.eflags).push (by simp; omega)
    (m.cpu.cs.setWidth 32)).push (by simp; omega) m.cpu.eip).pushError (by simp; omega) error_code
  exact ⟨hpush.stack, hpush.kernel⟩

theorem deliver_regs (m : Machine) (error_code : Option Word) :
    (m.deliver error_code).cpu.toRegs = m.cpu.toRegs ∧ (m.deliver error_code).cpu.ds = m.cpu.ds := by
  have hstack : m.changeStack.cpu.toRegs = m.cpu.toRegs ∧ m.changeStack.cpu.ds = m.cpu.ds := by
    rw [changeStack]
    split <;> exact ⟨rfl, rfl⟩
  cases error_code <;> exact hstack

/-- The words that `pushad` and `push ds` put in front of the others, with the stack pointer that
`pushad` finds. -/
def contextWords (c : Cpu) (esp : Word) (l : List Word) : List Word :=
  c.ds.setWidth 32 :: c.edi :: c.esi :: c.ebp :: esp :: c.ebx :: c.edx :: c.ecx :: c.eax :: l

theorem contextWords_congr {c c' : Cpu} (hregs : c'.toRegs = c.toRegs) (hds : c'.ds = c.ds)
    (esp : Word) : contextWords c' esp l = contextWords c esp l := by
  rw [contextWords, contextWords, hregs, hds]

theorem Entered.pushad_pushDs (h : Entered k a l m) (hlen : l.length < 2 ^ 28) :
    Entered k a (contextWords m.cpu m.cpu.esp l) m.pushad.pushDs :=
  ((((((((h.push (by omega) m.cpu.eax).push (by simp; omega) m.cpu.ecx).push (by simp; omega)
    m.cpu.edx).push (by simp; omega) m.cpu.ebx).push (by simp; omega) m.cpu.esp).push
    (by simp; omega) m.cpu.ebp).push (by simp; omega) m.cpu.esi).push (by simp; omega)
    m.cpu.edi).push (by simp; omega) (m.cpu.ds.setWidth 32)

/-- The machine at the call of the C handler: the words `l` lie on the stack, one more was written
under them, and the current task has the trapframe. -/
structure Saved (k : Kernel) (a : Word) (l : List Word) (m : Machine) : Prop where
  top : m.cpu.esp = a - BitVec.ofNat 32 (4 * l.length)
  words : Stacked m.kernel.mem m.cpu.esp l
  other : ∀ x, (∀ i, 0 < i → i ≤ l.length + 1 → x ≠ a - BitVec.ofNat 32 (4 * i)) →
    m.kernel.mem x = k.mem x
  kernel : m.kernel = taskUpdateTrapframe m.cpu.esp { k with mem := m.kernel.mem }

theorem mem_taskUpdateTrapframe (tf : Word) (k : Kernel) : (taskUpdateTrapframe tf k).mem = k.mem := by
  rw [taskUpdateTrapframe]
  split <;> rfl

theorem word_push (m : Machine) (v : Word) : (m.push v).word 0 = v := by
  simp [word, push, Kernel.store]

theorem Entered.stubEntry (h : Entered k a l m) (hlen : l.length < 2 ^ 28) :
    Saved k a (contextWords m.cpu m.cpu.esp l) m.stubEntry := by
  have hctx := h.pushad_pushDs hlen
  have harg := hctx.push (by simp [contextWords]; omega) m.pushad.pushDs.cpu.esp
  -- what `task_update_trapframe` gets is the end of the stack before its argument was pushed
  have hesp : m.stubEntry.cpu.esp = m.pushad.pushDs.cpu.esp := BitVec.sub_add_cancel _ _
  have hkernel : m.stubEntry.kernel = taskUpdateTrapframe m.pushad.pushDs.cpu.esp
      (m.pushad.pushDs.push m.pushad.pushDs.cpu.esp).kernel :=
    congrArg (taskUpdateTrapframe · _) (word_push m.pushad.pushDs _)
  have hmem : m.stubEntry.kernel.mem =
      (m.pushad.pushDs.push m.pushad.pushDs.cpu.esp).kernel.mem := by
    rw [hkernel, mem_taskUpdateTrapframe]
  refine ⟨?_, ?_, ?_, ?_⟩
  · rw [hesp]
    exact hctx.stack.top
  · rw [hesp, hmem]
    have hwords := harg.stack.words.2
    rwa [show (m.pushad.pushDs.push m.pushad.pushDs.cpu.esp).cpu.esp + 4 =
      m.pushad.pushDs.cpu.esp from BitVec.sub_add_cancel _ _] at hwords
  · rw [hmem]
    exact harg.stack.other
  · rw [hesp, hmem, hkernel]
    exact congrArg _ harg.kernel

theorem length_interruptWords (c : Cpu) (error_code : Option Word) :
    (interruptWords c error_code).length ≤ 6 := by
  have hlen := length_stackWords c
  cases error_code <;> simp [interruptWords] <;> omega

/-- The words under the registers at the call of `isr_handler`. -/
def isrWords (vector : Fin 32) (error_code : Option Word) (c : Cpu) : List Word :=
  if vector.val ∈ [8, 10, 11, 12, 13, 14] then
    BitVec.ofNat 32 vector.val :: interruptWords c error_code
  else BitVec.ofNat 32 vector.val :: 0 :: interruptWords c error_code

/-- The stack pointer that `pushad` finds. -/
def isrEsp (vector : Fin 32) (error_code : Option Word) (m : Machine) : Word :=
  m.stackTop - BitVec.ofNat 32 (4 * (isrWords vector error_code m.cpu).length)

theorem isr_entered (h : Entered k a l m) (hlen : l.length < 2 ^ 28) (vector : Fin 32) :
    Entered k a (if vector.val ∈ [8, 10, 11, 12, 13, 14] then BitVec.ofNat 32 vector.val :: l
      else BitVec.ofNat 32 vector.val :: 0 :: l) (isr vector m) ∧
    (isr vector m).cpu.toRegs = m.cpu.toRegs ∧ (isr vector m).cpu.ds = m.cpu.ds := by
  have hcli : Entered k a l m.cli := ⟨h.stack, h.kernel⟩
  rw [isr]
  split
  · exact ⟨hcli.push (by omega) _, rfl, rfl⟩
  · exact ⟨(hcli.push (by omega) 0).push (by simp; omega) _, rfl, rfl⟩

/-- **The frame of an exception.** -/
theorem isrEntry_saved (vector : Fin 32) (error_code : Option Word) (m : Machine) :
    Saved m.kernel m.stackTop (contextWords m.cpu (isrEsp vector error_code m)
      (isrWords vector error_code m.cpu)) (isrEntry vector error_code m) := by
  have hlen := length_interruptWords m.cpu error_code
  obtain ⟨hregs, hds⟩ := deliver_regs m error_code
  obtain ⟨hisr, hregs', hds'⟩ :=
    isr_entered (deliver_entered m error_code) (by omega) vector
  have hwords : (isrWords vector error_code m.cpu).length ≤ 8 := by
    rw [isrWords]
    split <;> simp <;> omega
  have hentry := Entered.stubEntry (l := isrWords vector error_code m.cpu) hisr (by omega)
  rwa [contextWords_congr (hregs'.trans hregs) (hds'.trans hds), hisr.stack.top] at hentry

theorem irq_entered (h : Entered k a l m) (hlen : l.length < 2 ^ 28) (n : Word) :
    Entered k a (n :: 0 :: l) (irq m n) ∧
    (irq m n).cpu.toRegs = m.cpu.toRegs ∧ (irq m n).cpu.ds = m.cpu.ds := by
  have hcli : Entered k a l m.cli := ⟨h.stack, h.kernel⟩
  exact ⟨(hcli.push (by omega) 0).push (by simp; omega) n, rfl, rfl⟩

/-- **The frame of an interrupt.** -/
theorem irqEntry_saved (n : Word) (m : Machine) : ∃ esp, Saved m.kernel m.stackTop
    (contextWords m.cpu esp (n :: 0 :: interruptWords m.cpu none)) (irqEntry n m) := by
  have hlen := length_interruptWords m.cpu none
  obtain ⟨hregs, hds⟩ := deliver_regs m none
  obtain ⟨hirq, hregs', hds'⟩ := irq_entered (deliver_entered m none) (by omega) n
  have hentry := hirq.stubEntry (by simp; omega)
  rw [contextWords_congr (hregs'.trans hregs) (hds'.trans hds)] at hentry
  exact ⟨_, hentry⟩

end Entry

end Machine

end Aosis.Interrupt
