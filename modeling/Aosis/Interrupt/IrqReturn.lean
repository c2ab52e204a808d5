import Aosis.Interrupt.ExceptionReturn

/-!
# The return from an interrupt

`irq_common_stub` loads the kernel's data segment into `ds`, `es`, `fs` and `gs` and gives `ds`
back, but not the other three.

* `irqEntry_frameAt`, `FrameAt.irqReturn`: the stub saves the registers, and the interrupted code
  goes on with them and with its `ds`.
* `restored_iff`: it gets `es`, `fs` and `gs` back exactly when they were the kernel's data segment,
  or, in user mode, null.
-/

namespace Aosis.Interrupt

open Aosis.Lib Aosis.Scheduler

namespace Machine

/-! ### The exit -/

theorem irqReturn_iret (m : Machine) :
    m.irqReturn.iret.cpu.toRegs = ⟨m.word 32, m.word 28, m.word 24, m.word 20, m.word 12,
      m.word 8, m.word 4⟩ ∧
    m.irqReturn.iret.cpu.eip = m.word 44 ∧
    m.irqReturn.iret.cpu.cs = (m.word 48).setWidth 16 ∧
    m.irqReturn.iret.cpu.eflags = m.word 52 := by
  obtain ⟨hregs, heip, hcs, heflags⟩ := iret_frame m.irqReturn
  rw [irqReturn_word] at heip hcs heflags
  refine ⟨hregs.trans ?_, heip, hcs, heflags⟩
  rw [irqReturn_eq]

theorem irqReturn_segments (m : Machine) :
    m.irqReturn.iret.cpu.ds = keptSelector m.irqReturn.iret.cpu.cs ((m.word 0).setWidth 16) ∧
    m.irqReturn.iret.cpu.es = keptSelector m.irqReturn.iret.cpu.cs m.cpu.es ∧
    m.irqReturn.iret.cpu.fs = keptSelector m.irqReturn.iret.cpu.cs m.cpu.fs ∧
    m.irqReturn.iret.cpu.gs = keptSelector m.irqReturn.iret.cpu.cs m.cpu.gs := by
  obtain ⟨hds, hes, hfs, hgs⟩ := iret_segments m.irqReturn
  have hcpu := irqReturn_eq m
  refine ⟨hds.trans ?_, hes.trans ?_, hfs.trans ?_, hgs.trans ?_⟩ <;> rw [hcpu]

theorem irqReturn_stack (m : Machine) :
    (m.irqReturn.iret.cpu.kernelMode = true → m.irqReturn.iret.cpu.esp = m.cpu.esp + 56) ∧
    (m.irqReturn.iret.cpu.kernelMode = false → m.irqReturn.iret.cpu.esp = m.word 56 ∧
      m.irqReturn.iret.cpu.ss = (m.word 60).setWidth 16) := by
  have hesp : m.irqReturn.cpu.esp = m.cpu.esp + 44 := by rw [irqReturn_eq]
  obtain ⟨hkernel, huser⟩ := iret_stack m.irqReturn
  rw [irqReturn_word, irqReturn_word] at huser
  refine ⟨?_, huser⟩
  intro hmode
  rw [hkernel hmode, hesp, BitVec.add_assoc]
  rfl

/-! ### The frame -/

/-- The number of words in the frame of an interrupt: the processor saves the stack when it changes
the privilege level. -/
def frameLength (c : Cpu) : Nat := if c.kernelMode then 14 else 16

/-- The frame of an interrupt lies at `tf`, with the registers that the interrupted code had. -/
structure FrameAt (mem : Word → Word) (tf : Word) (c : Cpu) : Prop where
  ds : (mem tf).setWidth 16 = c.ds
  regs : ⟨mem (tf + 32), mem (tf + 28), mem (tf + 24), mem (tf + 20), mem (tf + 12), mem (tf + 8),
    mem (tf + 4)⟩ = c.toRegs
  eip : mem (tf + 44) = c.eip
  cs : (mem (tf + 48)).setWidth 16 = c.cs
  eflags : mem (tf + 52) = c.eflags
  esp : c.kernelMode = true → tf + 56 = c.esp
  user : c.kernelMode = false → mem (tf + 56) = c.esp ∧ (mem (tf + 60)).setWidth 16 = c.ss

theorem FrameAt.congr {mem mem' : Word → Word} {tf : Word} {c : Cpu} (h : FrameAt mem tf c)
    (heq : ∀ i < frameLength c, mem' (tf + BitVec.ofNat 32 (4 * i)) =
      mem (tf + BitVec.ofNat 32 (4 * i))) : FrameAt mem' tf c := by
  have hle : 14 ≤ frameLength c := by
    rw [frameLength]
    split <;> decide
  have h0 : mem' tf = mem tf := by simpa using heq 0 (by omega)
  have h4 : mem' (tf + 4) = mem (tf + 4) := heq 1 (by omega)
  have h8 : mem' (tf + 8) = mem (tf + 8) := heq 2 (by omega)
  have h12 : mem' (tf + 12) = mem (tf + 12) := heq 3 (by omega)
  have h20 : mem' (tf + 20) = mem (tf + 20) := heq 5 (by omega)
  have h24 : mem' (tf + 24) = mem (tf + 24) := heq 6 (by omega)
  have h28 : mem' (tf + 28) = mem (tf + 28) := heq 7 (by omega)
  have h32 : mem' (tf + 32) = mem (tf + 32) := heq 8 (by omega)
  have h44 : mem' (tf + 44) = mem (tf + 44) := heq 11 (by omega)
  have h48 : mem' (tf + 48) = mem (tf + 48) := heq 12 (by omega)
  have h52 : mem' (tf + 52) = mem (tf + 52) := heq 13 (by omega)
  refine ⟨by rw [h0, h.ds], ?_, by rw [h44, h.eip], by rw [h48, h.cs], by rw [h52, h.eflags],
    h.esp, fun hmode => ?_⟩
  · rw [h4, h8, h12, h20, h24, h28, h32, h.regs]
  · have hlen : frameLength c = 16 := by
      rw [frameLength, hmode]
      rfl
    have h56 : mem' (tf + 56) = mem (tf + 56) := heq 14 (by omega)
    have h60 : mem' (tf + 60) = mem (tf + 60) := heq 15 (by omega)
    rw [h56, h60]
    exact h.user hmode

/-- **The stub saves the registers.** -/
theorem irqEntry_frameAt (n : Word) (m : Machine) :
    FrameAt (irqEntry n m).kernel.mem (irqEntry n m).cpu.esp m.cpu ∧
      (irqEntry n m).cpu.esp = m.stackTop - BitVec.ofNat 32 (4 * frameLength m.cpu) := by
  obtain ⟨esp, hsaved⟩ := irqEntry_saved n m
  have hwords := hsaved.words
  have htop := hsaved.top
  have hlen : (contextWords m.cpu esp (n :: 0 :: interruptWords m.cpu none)).length =
      frameLength m.cpu := by
    rw [contextWords, interruptWords, stackWords, frameLength]
    split <;> rfl
  rw [hlen] at htop
  refine ⟨?_, htop⟩
  have hget : ∀ i v, (contextWords m.cpu esp (n :: 0 :: interruptWords m.cpu none))[i]? = some v →
      (irqEntry n m).kernel.mem ((irqEntry n m).cpu.esp + BitVec.ofNat 32 (4 * i)) = v :=
    fun i v hv => hwords.get hv
  generalize (irqEntry n m).kernel.mem = mem at hget ⊢
  generalize (irqEntry n m).cpu.esp = tf at hget htop ⊢
  have h0 : mem tf = m.cpu.ds.setWidth 32 := by simpa using hget 0 _ rfl
  have h4 : mem (tf + 4) = m.cpu.edi := hget 1 _ rfl
  have h8 : mem (tf + 8) = m.cpu.esi := hget 2 _ rfl
  have h12 : mem (tf + 12) = m.cpu.ebp := hget 3 _ rfl
  have h20 : mem (tf + 20) = m.cpu.ebx := hget 5 _ rfl
  have h24 : mem (tf + 24) = m.cpu.edx := hget 6 _ rfl
  have h28 : mem (tf + 28) = m.cpu.ecx := hget 7 _ rfl
  have h32 : mem (tf + 32) = m.cpu.eax := hget 8 _ rfl
  have h44 : mem (tf + 44) = m.cpu.eip := hget 11 _ rfl
  have h48 : mem (tf + 48) = m.cpu.cs.setWidth 32 := hget 12 _ rfl
  have h52 : mem (tf + 52) = m.cpu.eflags := hget 13 _ rfl
  refine ⟨by rw [h0]; simp, by rw [h4, h8, h12, h20, h24, h28, h32], h44, by rw [h48]; simp, h52,
    fun hmode => ?_, fun hmode => ?_⟩
  · rw [htop, stackTop, frameLength, hmode]
    exact BitVec.sub_add_cancel _ _
  · have hstack : stackWords m.cpu = [m.cpu.esp, m.cpu.ss.setWidth 32] := by
      rw [stackWords, hmode]
      rfl
    rw [interruptWords, hstack] at hget
    have h56 : mem (tf + 56) = m.cpu.esp := hget 14 _ rfl
    have h60 : mem (tf + 60) = m.cpu.ss.setWidth 32 := hget 15 _ rfl
    exact ⟨h56, by rw [h60]; simp⟩

/-- **The exit brings the registers back** that lie in the frame. -/
theorem FrameAt.irqReturn {m : Machine} {c : Cpu} (h : FrameAt m.kernel.mem m.cpu.esp c)
    (hds : keptSelector c.cs c.ds = c.ds) : Resumed c m.irqReturn.iret.cpu := by
  obtain ⟨hregs, heip, hcs, heflags⟩ := irqReturn_iret m
  obtain ⟨hseg, -⟩ := irqReturn_segments m
  obtain ⟨hkernel, huser⟩ := irqReturn_stack m
  have hcs' : m.irqReturn.iret.cpu.cs = c.cs := hcs.trans h.cs
  have hmode : m.irqReturn.iret.cpu.kernelMode = c.kernelMode := congrArg ring0 hcs'
  have hpop : (m.word 0).setWidth 16 = c.ds := by simpa [word] using h.ds
  refine ⟨heip.trans h.eip, hcs', by rw [heflags, word, h.eflags], ?_, hregs.trans h.regs, ?_,
    fun hc => ?_⟩
  · rw [hseg, hcs', hpop, hds]
  · cases hc : c.kernelMode with
    | true => exact (hkernel (hmode.trans hc)).trans (h.esp hc)
    | false => exact (huser (hmode.trans hc)).1.trans (h.user hc).1
  · exact (huser (hmode.trans hc)).2.trans (h.user hc).2

/-! ### The law -/

/-- The processor lets the code of its privilege level have the selectors in the data segment
registers: none of them belongs to the kernel in user mode. -/
structure LegalSegments (c : Cpu) : Prop where
  ds : keptSelector c.cs c.ds = c.ds
  es : keptSelector c.cs c.es = c.es
  fs : keptSelector c.cs c.fs = c.fs
  gs : keptSelector c.cs c.gs = c.gs

/-- `irq_handler` returns with the saved frame unchanged; a C function does not load segment
registers. -/
structure HandlerReturns (m m' : Machine) (c : Cpu) : Prop where
  frame : KeepsFrame (frameLength c) m m'
  es : m'.cpu.es = m.cpu.es
  fs : m'.cpu.fs = m.cpu.fs
  gs : m'.cpu.gs = m.cpu.gs

/-- The interrupted code goes on with all its registers. -/
structure Restored (c c' : Cpu) : Prop extends Resumed c c' where
  es : c'.es = c.es
  fs : c'.fs = c.fs
  gs : c'.gs = c.gs

/-- What `es`, `fs` and `gs` hold after the return: the kernel's data segment, which is cleared on
the way to user mode. -/
def leftSelector (c : Cpu) : BitVec 16 := if c.kernelMode then gdtKernelDataSeg.setWidth 16 else 0

theorem setWidth_movAx (v : Word) (s : BitVec 16) :
    (v &&& 0xFFFF0000 ||| s.setWidth 32).setWidth 16 = s := by
  rw [BitVec.setWidth_or, BitVec.setWidth_and]
  simp

theorem stubEntry_segments (m : Machine) : m.stubEntry.cpu.es = gdtKernelDataSeg.setWidth 16 ∧
    m.stubEntry.cpu.fs = gdtKernelDataSeg.setWidth 16 ∧
    m.stubEntry.cpu.gs = gdtKernelDataSeg.setWidth 16 :=
  ⟨setWidth_movAx _ _, setWidth_movAx _ _, setWidth_movAx _ _⟩

theorem keptSelector_kernelData (c : Cpu) :
    keptSelector c.cs (gdtKernelDataSeg.setWidth 16) = leftSelector c := by
  rw [leftSelector, Cpu.kernelMode, keptSelector]
  cases ring0 c.cs <;> rfl

/-- **The return from an interrupt**, for every interrupted context with legal selectors: all
registers come back exactly when `es`, `fs` and `gs` hold what the stub leaves in them. -/
theorem restored_iff (n : Word) (irq_handler : Machine → Machine) (m : Machine)
    (hlegal : LegalSegments m.cpu)
    (h : HandlerReturns (irqEntry n m) (irq_handler (irqEntry n m)) m.cpu) :
    Restored m.cpu (irq_handler (irqEntry n m)).irqReturn.iret.cpu ↔
      m.cpu.es = leftSelector m.cpu ∧ m.cpu.fs = leftSelector m.cpu ∧
        m.cpu.gs = leftSelector m.cpu := by
  generalize irq_handler (irqEntry n m) = m' at h ⊢
  obtain ⟨hframe, -⟩ := irqEntry_frameAt n m
  have hframe' : FrameAt m'.kernel.mem m'.cpu.esp m.cpu := by
    rw [h.frame.esp]
    exact hframe.congr h.frame.words
  have hresumed := hframe'.irqReturn hlegal.ds
  -- what the exit leaves in the three registers
  obtain ⟨hes, hfs, hgs⟩ := stubEntry_segments ((m.deliver none).irq n)
  obtain ⟨-, hes', hfs', hgs'⟩ := irqReturn_segments m'
  rw [hresumed.cs, h.es, show (irqEntry n m).cpu.es = _ from hes, keptSelector_kernelData] at hes'
  rw [hresumed.cs, h.fs, show (irqEntry n m).cpu.fs = _ from hfs, keptSelector_kernelData] at hfs'
  rw [hresumed.cs, h.gs, show (irqEntry n m).cpu.gs = _ from hgs, keptSelector_kernelData] at hgs'
  constructor
  · intro hr
    exact ⟨hr.es.symm.trans hes', hr.fs.symm.trans hfs', hr.gs.symm.trans hgs'⟩
  · rintro ⟨h₁, h₂, h₃⟩
    exact ⟨hresumed, hes'.trans h₁.symm, hfs'.trans h₂.symm, hgs'.trans h₃.symm⟩

/-- A timer interrupt of the kernel, with its data segment in all registers. -/
theorem restored_kernel :
    Restored (interruptedKernel ⟨1, 2, 3, 4, 5, 6, 7⟩ 0xC0200000).cpu
      (irqEntry 32 (interruptedKernel ⟨1, 2, 3, 4, 5, 6, 7⟩ 0xC0200000)).irqReturn.iret.cpu :=
  (restored_iff 32 id _ ⟨by decide, by decide, by decide, by decide⟩
    ⟨⟨rfl, fun _ _ => rfl⟩, rfl, rfl, rfl⟩).mpr ⟨rfl, rfl, rfl⟩

/-- A user task, interrupted at `0x100010` with its data segment in all registers. -/
def interruptedUser : Machine where
  cpu := ⟨⟨0, 0, 0, 0, 0, 0, 0⟩, kernelVirtBase, 0x100010, 0x202, gdtUserCodeSeg.setWidth 16,
    gdtUserDataSeg.setWidth 16, gdtUserDataSeg.setWidth 16, gdtUserDataSeg.setWidth 16,
    gdtUserDataSeg.setWidth 16, gdtUserDataSeg.setWidth 16⟩
  kernel := ⟨fun _ => ⟨0, 0, 0, true, 0xC0201000, 0⟩, fun _ => 0, 0, 0, 0, true, 0xC0201000, 0⟩

/-- A user task that keeps its data segment in `es` finds null there after an interrupt. -/
theorem not_restored_user :
    ¬ ∀ (n : Word) (irq_handler : Machine → Machine) (m : Machine), LegalSegments m.cpu →
      HandlerReturns (irqEntry n m) (irq_handler (irqEntry n m)) m.cpu →
      Restored m.cpu (irq_handler (irqEntry n m)).irqReturn.iret.cpu := by
  intro h
  have hr := h 32 id interruptedUser ⟨by decide, by decide, by decide, by decide⟩
    ⟨⟨rfl, fun _ _ => rfl⟩, rfl, rfl, rfl⟩
  have hes : (irqEntry 32 interruptedUser).irqReturn.iret.cpu.es = 0 := by decide
  have heq : (0 : BitVec 16) = gdtUserDataSeg.setWidth 16 := hes.symm.trans hr.es
  exact absurd heq (by decide)

end Machine

end Aosis.Interrupt
