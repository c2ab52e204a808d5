import Aosis.Interrupt.Stub

/-!
# The return from an exception

`isr_common_stub` saves the interrupted registers, calls `isr_handler` and takes a word more from
the stack than it put there: `pop ebx` takes the saved `ds`, and every later `pop` finds its
neighbour's word.

* `returned_iff`: the interrupted code goes on as it was exactly when the processor pushed an error
  code in front of the dummy one of `ISR_ERR`, and the registers happen to agree with their
  neighbours.
* `not_returned_breakpoint`: the return from a breakpoint in the kernel.
-/

namespace Aosis.Interrupt

open Aosis.Lib Aosis.Scheduler

namespace Machine

/-! ### The exit -/

theorem isrReturn_iret (m : Machine) :
    m.isrReturn.iret.cpu.toRegs = ⟨m.word 36, m.word 32, m.word 28, m.word 24, m.word 16,
      m.word 12, m.word 8⟩ ∧
    m.isrReturn.iret.cpu.ds =
      keptSelector m.isrReturn.iret.cpu.cs ((m.word 4).setWidth 16) ∧
    m.isrReturn.iret.cpu.eip = m.word 48 ∧
    m.isrReturn.iret.cpu.cs = (m.word 52).setWidth 16 ∧
    m.isrReturn.iret.cpu.eflags = m.word 56 := by
  obtain ⟨hregs, heip, hcs, heflags⟩ := iret_frame m.isrReturn
  obtain ⟨hds, -⟩ := iret_segments m.isrReturn
  have hpop : m.isrReturn.cpu.ds = (m.word 4).setWidth 16 := by rw [isrReturn_eq]
  rw [isrReturn_word] at heip hcs heflags
  rw [hpop] at hds
  refine ⟨hregs.trans ?_, hds, heip, hcs, heflags⟩
  rw [isrReturn_eq]

theorem isrReturn_stack (m : Machine) :
    m.isrReturn.iretTop = m.cpu.esp + (if m.isrReturn.iret.cpu.kernelMode then 60 else 68) ∧
    (m.isrReturn.iret.cpu.kernelMode = true → m.isrReturn.iret.cpu.esp = m.cpu.esp + 60) ∧
    (m.isrReturn.iret.cpu.kernelMode = false → m.isrReturn.iret.cpu.esp = m.word 60 ∧
      m.isrReturn.iret.cpu.ss = (m.word 64).setWidth 16) := by
  have hesp : m.isrReturn.cpu.esp = m.cpu.esp + 48 := by rw [isrReturn_eq]
  obtain ⟨hkernel, huser⟩ := iret_stack m.isrReturn
  rw [isrReturn_word, isrReturn_word] at huser
  refine ⟨?_, ?_, huser⟩
  · rw [iretTop, hesp]
    split <;> rw [BitVec.add_assoc] <;> rfl
  · intro hmode
    rw [hkernel hmode, hesp, BitVec.add_assoc]
    rfl

/-! ### The law -/

/-- The words that lie on the stack when `isr_handler` is called. -/
def isrFrame (vector : Fin 32) (error_code : Option Word) (m : Machine) : List Word :=
  contextWords m.cpu (isrEsp vector error_code m) (isrWords vector error_code m.cpu)

/-- A handler gives the stack back as it found it, and leaves the first words on it unchanged. -/
structure KeepsFrame (n : Nat) (m m' : Machine) : Prop where
  esp : m'.cpu.esp = m.cpu.esp
  words : ∀ i < n, m'.kernel.mem (m.cpu.esp + BitVec.ofNat 32 (4 * i)) =
    m.kernel.mem (m.cpu.esp + BitVec.ofNat 32 (4 * i))

/-- The exit of `isr_common_stub`, after `isr_handler` has left the machine `m'`, brings back the
registers of `m` and takes the words that were pushed, and no others. -/
structure Returned (m m' : Machine) : Prop where
  resumed : Resumed m.cpu m'.isrReturn.iret.cpu
  consumed : m'.isrReturn.iretTop = m.stackTop

/-- The processor pushed an error code although the stub of the vector pushes a dummy one, and every
register has the value of its neighbour in the frame. -/
structure Coincides (vector : Fin 32) (error_code : Option Word) (m : Machine) : Prop where
  dummy : vector.val ∉ [8, 10, 11, 12, 13, 14]
  error : error_code.isSome = true
  ds : m.cpu.ds = keptSelector m.cpu.cs (m.cpu.edi.setWidth 16)
  edi : m.cpu.edi = m.cpu.esi
  esi : m.cpu.esi = m.cpu.ebp
  ebp : m.cpu.ebp = isrEsp vector error_code m
  ebx : m.cpu.ebx = m.cpu.edx
  edx : m.cpu.edx = m.cpu.ecx
  ecx : m.cpu.ecx = m.cpu.eax
  eax : m.cpu.eax = BitVec.ofNat 32 vector.val

section Law

variable {vector : Fin 32} {error_code : Option Word} {m m' : Machine}

theorem stacked_isrFrame
    (h : KeepsFrame (isrFrame vector error_code m).length (isrEntry vector error_code m) m') :
    m'.cpu.esp = m.stackTop - BitVec.ofNat 32 (4 * (isrFrame vector error_code m).length) ∧
      Stacked m'.kernel.mem m'.cpu.esp (isrFrame vector error_code m) := by
  have hsaved := isrEntry_saved vector error_code m
  rw [h.esp]
  exact ⟨hsaved.top, hsaved.words.congr h.words⟩

theorem length_isrFrame (vector : Fin 32) (error_code : Option Word) (m : Machine) :
    (isrFrame vector error_code m).length =
      13 + (if vector.val ∈ [8, 10, 11, 12, 13, 14] then 0 else 1) + error_code.toList.length +
      (if m.cpu.kernelMode then 0 else 2) := by
  have hstack : (stackWords m.cpu).length = if m.cpu.kernelMode then 0 else 2 := by
    rw [stackWords]
    split <;> rfl
  rw [isrFrame, contextWords, isrWords, interruptWords]
  split <;> simp [hstack] <;> omega

/-- **The exit takes the words that were pushed only when there is one more of them.** -/
theorem Returned.frame
    (h : KeepsFrame (isrFrame vector error_code m).length (isrEntry vector error_code m) m')
    (hr : Returned m m') :
    vector.val ∉ [8, 10, 11, 12, 13, 14] ∧ error_code.isSome = true := by
  obtain ⟨htop, -⟩ := isrReturn_stack m'
  have hmode : m'.isrReturn.iret.cpu.kernelMode = m.cpu.kernelMode := by
    rw [Cpu.kernelMode, hr.resumed.cs, Cpu.kernelMode]
  obtain ⟨hesp, -⟩ := stacked_isrFrame h
  have hlen := length_isrFrame vector error_code m
  rw [hr.consumed, hmode, hesp] at htop
  generalize (isrFrame vector error_code m).length = n at htop hlen
  have herror : error_code.toList.length = if error_code.isSome then 1 else 0 := by
    cases error_code <;> rfl
  have hn : n = if m.cpu.kernelMode then 15 else 17 := by
    have hle : n ≤ 17 := by
      rw [hlen, herror]
      split_ifs <;> omega
    split_ifs at htop ⊢ <;> bv_omega
  rw [hn, herror] at hlen
  refine ⟨?_, ?_⟩
  · intro hv
    rw [if_pos hv] at hlen
    split_ifs at hlen <;> omega
  · by_contra hnone
    rw [if_neg hnone] at hlen
    split_ifs at hlen <;> omega

/-- What the exit finds in a frame that is one word too long: every register gets the word of its
neighbour, and `iret` its own ones. -/
theorem isrReturn_frame (hdummy : vector.val ∉ [8, 10, 11, 12, 13, 14])
    (herror : error_code.isSome = true)
    (h : KeepsFrame (isrFrame vector error_code m).length (isrEntry vector error_code m) m') :
    m'.isrReturn.iret.cpu.toRegs = ⟨BitVec.ofNat 32 vector.val, m.cpu.eax, m.cpu.ecx, m.cpu.edx,
      isrEsp vector error_code m, m.cpu.ebp, m.cpu.esi⟩ ∧
    m'.isrReturn.iret.cpu.ds = keptSelector m.cpu.cs (m.cpu.edi.setWidth 16) ∧
    m'.isrReturn.iret.cpu.eip = m.cpu.eip ∧
    m'.isrReturn.iret.cpu.cs = m.cpu.cs ∧
    m'.isrReturn.iret.cpu.eflags = m.cpu.eflags ∧
    (m.cpu.kernelMode = false → m'.word 60 = m.cpu.esp ∧
      (m'.word 64).setWidth 16 = m.cpu.ss) := by
  obtain ⟨-, hwords⟩ := stacked_isrFrame h
  obtain ⟨e, rfl⟩ := Option.isSome_iff_exists.mp herror
  have hframe : isrFrame vector (some e) m = contextWords m.cpu (isrEsp vector (some e) m)
      (BitVec.ofNat 32 vector.val :: 0 :: e :: m.cpu.eip :: m.cpu.cs.setWidth 32 ::
        m.cpu.eflags :: stackWords m.cpu) := by
    rw [isrFrame, isrWords, if_neg hdummy]
    rfl
  rw [hframe] at hwords
  have hget : ∀ i v, (contextWords m.cpu (isrEsp vector (some e) m)
      (BitVec.ofNat 32 vector.val :: 0 :: e :: m.cpu.eip :: m.cpu.cs.setWidth 32 ::
        m.cpu.eflags :: stackWords m.cpu))[i]? = some v →
      m'.word (BitVec.ofNat 32 (4 * i)) = v := fun i v hv => hwords.get hv
  obtain ⟨hregs, hds, heip, hcs, heflags⟩ := isrReturn_iret m'
  have hcs' : m'.isrReturn.iret.cpu.cs = m.cpu.cs := by
    have hword : m'.word 52 = m.cpu.cs.setWidth 32 := hget 13 _ rfl
    rw [hcs, hword]
    simp
  refine ⟨hregs.trans ?_, hds.trans ?_, heip.trans (hget 12 _ rfl), hcs',
    heflags.trans (hget 14 _ rfl), ?_⟩
  · congr 1
    · exact hget 9 _ rfl
    · exact hget 8 _ rfl
    · exact hget 7 _ rfl
    · exact hget 6 _ rfl
    · exact hget 4 _ rfl
    · exact hget 3 _ rfl
    · exact hget 2 _ rfl
  · have hedi : m'.word 4 = m.cpu.edi := hget 1 _ rfl
    rw [hcs', hedi]
  · intro hmode
    have hstack : stackWords m.cpu = [m.cpu.esp, m.cpu.ss.setWidth 32] := by
      rw [stackWords, hmode]
      rfl
    rw [hstack] at hget
    have hss : m'.word 64 = m.cpu.ss.setWidth 32 := hget 16 _ rfl
    refine ⟨hget 15 _ rfl, ?_⟩
    rw [hss]
    simp

/-- **The return from an exception**, for every interrupted context, every vector and every error
code: the interrupted code goes on as it was exactly when the processor pushed an error code besides
the dummy one of the stub, and the registers agree with their neighbours in the frame. -/
theorem returned_iff (vector : Fin 32) (error_code : Option Word) (isr_handler : Machine → Machine)
    (m : Machine) (h : KeepsFrame (isrFrame vector error_code m).length
      (isrEntry vector error_code m) (isr_handler (isrEntry vector error_code m))) :
    Returned m (isr_handler (isrEntry vector error_code m)) ↔ Coincides vector error_code m := by
  generalize isr_handler (isrEntry vector error_code m) = m' at h ⊢
  constructor
  · intro hr
    obtain ⟨hdummy, herror⟩ := hr.frame h
    obtain ⟨hregs, hds, -⟩ := isrReturn_frame hdummy herror h
    have heq := hr.resumed.regs.symm.trans hregs
    exact ⟨hdummy, herror, hr.resumed.ds.symm.trans hds, congrArg Regs.edi heq,
      congrArg Regs.esi heq, congrArg Regs.ebp heq, congrArg Regs.ebx heq, congrArg Regs.edx heq,
      congrArg Regs.ecx heq, congrArg Regs.eax heq⟩
  · intro hc
    obtain ⟨hregs, hds, heip, hcs, heflags, huser⟩ := isrReturn_frame hc.dummy hc.error h
    obtain ⟨hesp, -⟩ := stacked_isrFrame h
    obtain ⟨htop, hkernel, houter⟩ := isrReturn_stack m'
    have hmode : m'.isrReturn.iret.cpu.kernelMode = m.cpu.kernelMode := by
      rw [Cpu.kernelMode, hcs, Cpu.kernelMode]
    rw [hmode] at htop hkernel houter
    -- the exit takes fifteen or seventeen words, and so many were pushed
    have herror : error_code.toList.length = 1 := by
      obtain ⟨e, he⟩ := Option.isSome_iff_exists.mp hc.error
      rw [he]
      rfl
    have hend : m'.cpu.esp + (if m.cpu.kernelMode then 60 else 68) = m.stackTop := by
      rw [hesp, length_isrFrame, if_neg hc.dummy, herror]
      split_ifs <;> exact BitVec.sub_add_cancel _ _
    refine ⟨⟨heip, hcs, by rw [heflags], hds.trans hc.ds.symm, ?_, ?_, ?_⟩, htop.trans hend⟩
    · rw [hregs, show m.cpu.toRegs = ⟨m.cpu.eax, m.cpu.ecx, m.cpu.edx, m.cpu.ebx, m.cpu.ebp,
        m.cpu.esi, m.cpu.edi⟩ from rfl, Regs.mk.injEq]
      exact ⟨hc.eax.symm, hc.ecx.symm, hc.edx.symm, hc.ebx.symm, hc.ebp.symm, hc.esi.symm,
        hc.edi.symm⟩
    · cases hcase : m.cpu.kernelMode with
      | true =>
        rw [hcase, if_pos rfl, stackTop, hcase, if_pos rfl] at hend
        rw [hkernel hcase, hend]
      | false => rw [(houter hcase).1, (huser hcase).1]
    · intro hcase
      rw [(houter hcase).2, (huser hcase).2]

end Law

/-- The kernel, interrupted at `0xC0101234`. -/
def interruptedKernel (regs : Regs) (esp : Word) : Machine where
  cpu := ⟨regs, esp, 0xC0101234, 0x246, gdtKernelCodeSeg.setWidth 16, 0x10, 0x10, 0x10, 0x10, 0x10⟩
  kernel := ⟨fun _ => ⟨0, 0, 0, false, 0, 0⟩, fun _ => 0, 0, 0, 0, true, 0, 0⟩

/-- An alignment check, for which `isr17` pushes a dummy error code under the one of the processor,
when every register agrees with its neighbour. -/
theorem returned_alignmentCheck :
    Returned (interruptedKernel ⟨17, 17, 17, 17, 0xC0200010, 0xC0200010, 0xC0200010⟩ 0xC0200028)
      (isrEntry 17 (some 0)
        (interruptedKernel ⟨17, 17, 17, 17, 0xC0200010, 0xC0200010, 0xC0200010⟩ 0xC0200028)) :=
  (returned_iff 17 (some 0) id _ ⟨rfl, fun _ _ => rfl⟩).mpr
    ⟨by decide, rfl, rfl, rfl, rfl, rfl, rfl, rfl, rfl, rfl⟩

/-- After a breakpoint in the kernel, `iret` takes the saved `cs` for the address to go on at. -/
theorem not_returned_breakpoint :
    ¬ ∀ (vector : Fin 32) (error_code : Option Word) (isr_handler : Machine → Machine) (m : Machine),
      KeepsFrame (isrFrame vector error_code m).length (isrEntry vector error_code m)
        (isr_handler (isrEntry vector error_code m)) →
      Returned m (isr_handler (isrEntry vector error_code m)) := by
  intro h
  have hr := h 3 none id (interruptedKernel ⟨0, 0, 0, 0, 0, 0, 0⟩ 0xC0200000) ⟨rfl, fun _ _ => rfl⟩
  have heip : (isrEntry 3 none
      (interruptedKernel ⟨0, 0, 0, 0, 0, 0, 0⟩ 0xC0200000)).isrReturn.iret.cpu.eip = 0x08 := by decide
  have heq : (0x08 : Word) = 0xC0101234 := heip.symm.trans hr.resumed.eip
  exact absurd heq (by decide)

end Machine

end Aosis.Interrupt
