import Aosis.Lib.Stack
import Aosis.Task.Task

/-!
# The processor under an interrupt

The registers of the i686, its stack instructions, the delivery of an interrupt and `iret`.  A
kernel entered through the IDT runs with interrupts off, at the privilege level zero.

* Memory holds words by their addresses; a stack is read and written a whole word at a time.
* The kernel's own `eip` is left out: `eip` is the address at which the interrupted code goes on.
* A C function that is called changes the kernel; the registers and the return addresses that it
  leaves behind are not described, because the stubs reload every register that they give back.
* A load of a segment register never faults, whatever the selector is.  A return to an outer privilege
  level clears those that belong to the kernel.
-/

namespace Aosis.Interrupt

open Aosis.Lib Aosis.Scheduler

/-- The general registers, apart from the stack pointer. -/
structure Regs where
  eax : Word
  ecx : Word
  edx : Word
  ebx : Word
  ebp : Word
  esi : Word
  edi : Word

/-- The registers. -/
structure Cpu extends Regs where
  esp : Word
  eip : Word
  eflags : Word
  cs : BitVec 16
  ss : BitVec 16
  ds : BitVec 16
  es : BitVec 16
  fs : BitVec 16
  gs : BitVec 16

/-- The processor and the kernel with its memory. -/
structure Machine where
  cpu : Cpu
  kernel : Kernel

/-- The privilege level of a code segment is zero. -/
def ring0 (cs : BitVec 16) : Bool := cs &&& 3 == 0

/-- The processor runs in kernel mode. -/
def Cpu.kernelMode (c : Cpu) : Bool := ring0 c.cs

/-- The selector is for one of the entries of the GDT that `gdt_init` gives the privilege level
zero: the code, the data and the task state segment of the kernel. -/
def kernelSelector (sel : BitVec 16) : Bool := 1 ≤ sel >>> 3 && sel >>> 3 ≤ 3

/-- What is left of a data segment selector after a return to the code segment `cs`. -/
def keptSelector (cs sel : BitVec 16) : BitVec 16 :=
  if !ring0 cs && kernelSelector sel then 0 else sel

namespace Machine

/-! ### Instructions -/

/-- `dword [esp + i]`. -/
def word (m : Machine) (i : Word) : Word := m.kernel.mem (m.cpu.esp + i)

/-- `push v`. -/
def push (m : Machine) (v : Word) : Machine :=
  ⟨{ m.cpu with esp := m.cpu.esp - 4 }, m.kernel.store (m.cpu.esp - 4) v⟩

/-- `pop`, with the register that the word goes to. -/
def pop (m : Machine) (f : Word → Cpu → Cpu) : Machine :=
  { m with cpu := f (m.word 0) { m.cpu with esp := m.cpu.esp + 4 } }

/-- `add esp, n`. -/
def addEsp (m : Machine) (n : Word) : Machine :=
  { m with cpu := { m.cpu with esp := m.cpu.esp + n } }

/-- `pushad`. -/
def pushad (m : Machine) : Machine :=
  let c := m.cpu
  (((((((m.push c.eax).push c.ecx).push c.edx).push c.ebx).push c.esp).push c.ebp).push
    c.esi).push c.edi

/-- `popad`, which drops the word of `esp`. -/
def popad (m : Machine) : Machine :=
  let m := m.pop fun v c => { c with edi := v }
  let m := m.pop fun v c => { c with esi := v }
  let m := m.pop fun v c => { c with ebp := v }
  let m := m.pop fun _ c => c
  let m := m.pop fun v c => { c with ebx := v }
  let m := m.pop fun v c => { c with edx := v }
  let m := m.pop fun v c => { c with ecx := v }
  m.pop fun v c => { c with eax := v }

/-- `push ds`. -/
def pushDs (m : Machine) : Machine := m.push (m.cpu.ds.setWidth 32)

/-- `pop ds`. -/
def popDs (m : Machine) : Machine := m.pop fun v c => { c with ds := v.setWidth 16 }

/-- `mov ax, v`. -/
def movAx (m : Machine) (v : BitVec 16) : Machine :=
  { m with cpu := { m.cpu with eax := m.cpu.eax &&& 0xFFFF0000 ||| v.setWidth 32 } }

/-- `mov ds, r`, `mov es, r`, `mov fs, r` and `mov gs, r`. -/
def movSegments (m : Machine) (r : BitVec 16) : Machine :=
  { m with cpu := { m.cpu with ds := r, es := r, fs := r, gs := r } }

/-- `cli`. -/
def cli (m : Machine) : Machine :=
  { m with cpu := { m.cpu with eflags := m.cpu.eflags &&& ~~~0x200 } }

/-- `sti`. -/
def sti (m : Machine) : Machine :=
  { m with cpu := { m.cpu with eflags := m.cpu.eflags ||| 0x200 } }

/-- `call` of a C function. -/
def call (m : Machine) (f : Kernel → Kernel) : Machine := { m with kernel := f m.kernel }

/-! ### Interrupts -/

/-- The end of the stack that an interrupt is taken on: the running one, or the one of
`tss_region` when the processor has to change its privilege level. -/
def stackTop (m : Machine) : Word := if m.cpu.kernelMode then m.cpu.esp else m.kernel.esp0

/-- The change to the stack of `tss_region`, on which the old one is saved; `gdt_init` sets
`tss_region.ss0`. -/
def changeStack (m : Machine) : Machine :=
  if m.cpu.kernelMode then m
  else
    let m' : Machine := { m with cpu := { m.cpu with
      esp := m.kernel.esp0, ss := gdtKernelDataSeg.setWidth 16 } }
    (m'.push (m.cpu.ss.setWidth 32)).push m.cpu.esp

/-- The processor pushes an error code for some exceptions. -/
def pushError (m : Machine) : Option Word → Machine
  | some error_code => m.push error_code
  | none => m

/-- The processor takes an interrupt through a gate of the IDT. -/
def deliver (m : Machine) (error_code : Option Word) : Machine :=
  let c := m.cpu
  let m := m.changeStack
  let m := (((m.push c.eflags).push (c.cs.setWidth 32)).push c.eip).pushError error_code
  { m with cpu := { m.cpu with
    cs := gdtKernelCodeSeg.setWidth 16, eflags := m.cpu.eflags &&& ~~~0x200 } }

/-- `iret`.  A return to an outer privilege level takes the stack from the frame as well. -/
def iret (m : Machine) : Machine :=
  let m := m.pop fun v c => { c with eip := v }
  let m := m.pop fun v c => { c with cs := v.setWidth 16 }
  let m := m.pop fun v c => { c with eflags := v }
  if m.cpu.kernelMode then m
  else { m with cpu := { m.cpu with
    esp := m.word 0
    ss := (m.word 4).setWidth 16
    ds := keptSelector m.cpu.cs m.cpu.ds
    es := keptSelector m.cpu.cs m.cpu.es
    fs := keptSelector m.cpu.cs m.cpu.fs
    gs := keptSelector m.cpu.cs m.cpu.gs } }

/-- The end of the stack after the words that `iret` takes from it. -/
def iretTop (m : Machine) : Word :=
  if m.iret.cpu.kernelMode then m.cpu.esp + 12 else m.cpu.esp + 20

/-! ### Popping -/

theorem pop_eq (c : Cpu) (k : Kernel) (f : Word → Cpu → Cpu) :
    pop ⟨c, k⟩ f = ⟨f (k.mem c.esp) { c with esp := c.esp + 4 }, k⟩ := by
  rw [pop, word]
  simp

theorem popad_eq (c : Cpu) (k : Kernel) : popad ⟨c, k⟩ = ⟨{ c with
    edi := k.mem c.esp, esi := k.mem (c.esp + 4), ebp := k.mem (c.esp + 8)
    ebx := k.mem (c.esp + 16), edx := k.mem (c.esp + 20), ecx := k.mem (c.esp + 24)
    eax := k.mem (c.esp + 28), esp := c.esp + 32 }, k⟩ := by
  simp [popad, pop_eq, BitVec.add_assoc]

theorem keptSelector_ring0 {cs : BitVec 16} (h : ring0 cs = true) (sel : BitVec 16) :
    keptSelector cs sel = sel := by
  rw [keptSelector, h]
  rfl

theorem iret_ring0 {m : Machine} (h : ring0 ((m.word 4).setWidth 16) = true) :
    m.iret = ⟨{ m.cpu with
      eip := m.word 0, cs := (m.word 4).setWidth 16, eflags := m.word 8
      esp := m.cpu.esp + 12 }, m.kernel⟩ := by
  obtain ⟨c, k⟩ := m
  simp only [word] at h ⊢
  simp only [iret, pop_eq, Cpu.kernelMode, h, if_true]
  simp [BitVec.add_assoc]

theorem iret_outer {m : Machine} (h : ring0 ((m.word 4).setWidth 16) = false) :
    m.iret = ⟨{ m.cpu with
      eip := m.word 0, cs := (m.word 4).setWidth 16, eflags := m.word 8
      esp := m.word 12, ss := (m.word 16).setWidth 16
      ds := keptSelector ((m.word 4).setWidth 16) m.cpu.ds
      es := keptSelector ((m.word 4).setWidth 16) m.cpu.es
      fs := keptSelector ((m.word 4).setWidth 16) m.cpu.fs
      gs := keptSelector ((m.word 4).setWidth 16) m.cpu.gs }, m.kernel⟩ := by
  obtain ⟨c, k⟩ := m
  simp only [word] at h ⊢
  simp only [iret, pop_eq, Cpu.kernelMode, h, word]
  simp [BitVec.add_assoc]

theorem iret_kernel (m : Machine) : m.iret.kernel = m.kernel := by
  rw [iret]
  split <;> rfl

theorem iret_frame (m : Machine) : m.iret.cpu.toRegs = m.cpu.toRegs ∧
    m.iret.cpu.eip = m.word 0 ∧ m.iret.cpu.cs = (m.word 4).setWidth 16 ∧
    m.iret.cpu.eflags = m.word 8 := by
  cases h : ring0 ((m.word 4).setWidth 16) with
  | true =>
    rw [iret_ring0 h]
    exact ⟨rfl, rfl, rfl, rfl⟩
  | false =>
    rw [iret_outer h]
    exact ⟨rfl, rfl, rfl, rfl⟩

theorem iret_segments (m : Machine) : m.iret.cpu.ds = keptSelector m.iret.cpu.cs m.cpu.ds ∧
    m.iret.cpu.es = keptSelector m.iret.cpu.cs m.cpu.es ∧
    m.iret.cpu.fs = keptSelector m.iret.cpu.cs m.cpu.fs ∧
    m.iret.cpu.gs = keptSelector m.iret.cpu.cs m.cpu.gs := by
  cases h : ring0 ((m.word 4).setWidth 16) with
  | true =>
    rw [iret_ring0 h]
    simp only [keptSelector_ring0 h, and_self]
  | false =>
    rw [iret_outer h]
    exact ⟨rfl, rfl, rfl, rfl⟩

theorem iret_stack (m : Machine) :
    (m.iret.cpu.kernelMode = true → m.iret.cpu.esp = m.cpu.esp + 12) ∧
    (m.iret.cpu.kernelMode = false → m.iret.cpu.esp = m.word 12 ∧
      m.iret.cpu.ss = (m.word 16).setWidth 16) := by
  cases h : ring0 ((m.word 4).setWidth 16) with
  | true =>
    rw [iret_ring0 h]
    exact ⟨fun _ => rfl, fun hmode => absurd (h.symm.trans hmode) (by decide)⟩
  | false =>
    rw [iret_outer h]
    exact ⟨fun hmode => absurd (h.symm.trans hmode) (by decide), fun _ => ⟨rfl, rfl⟩⟩

end Machine

/-- The code that was interrupted goes on: its registers are what they were, apart from the
interrupt flag. -/
structure Resumed (c c' : Cpu) : Prop where
  eip : c'.eip = c.eip
  cs : c'.cs = c.cs
  eflags : c'.eflags &&& ~~~0x200 = c.eflags &&& ~~~0x200
  ds : c'.ds = c.ds
  regs : c'.toRegs = c.toRegs
  esp : c'.esp = c.esp
  /-- The stack segment is a part of the frame when the privilege level changes. -/
  ss : c.kernelMode = false → c'.ss = c.ss

end Aosis.Interrupt
