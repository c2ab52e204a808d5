import Aosis.Memory.MapPage
import Aosis.Task.Protection

/-!
# From the boot loader to `kmain`

`kernel/boot/boot.asm` with `gdt_init_asm` of `kernel/memory/init_gdt.asm`: the temporary page table,
the switch to the higher half, and the segments.  No interrupt descriptor table is loaded yet, so a
page fault stops the machine.

* `boots_iff`: the machine reaches `kmain` when the stack and the tables lie in the first 4 MiB, and
  stops otherwise.
-/

namespace Aosis.Boot

open Aosis.Interrupt Aosis.Memory.Paging Aosis.Memory.Gdt

/-! ### The source -/

/-- `KERNEL_VIRTUAL_BASE`. -/
def kernelVirtualBase : Word := 0xC0000000

/-- `PAGE_WRITEABLE`. -/
def pageWriteable : Word := 0x01

/-- `PAGE_PRESENT`. -/
def pagePresent : Word := 0x02

/-- `PAGES_IN_PAGE_TABLE`. -/
def pagesInPageTable : Word := 1024

/-- The places in the code: the labels of the source, the instruction behind the one that enables
paging, and the one behind the call of `gdt_init_asm`. -/
inductive Label
  | start
  | identityMapKernel
  | addPageTable
  | pagingEnabled
  | higherHalfKernel
  | gdtInitAsm
  | finishGdtInit
  | gdtInitDone
  | kmain
  deriving DecidableEq

/-- `_start` is in the section that is linked where it is loaded. -/
def Label.multiboot : Label → Bool
  | .start | .identityMapKernel | .addPageTable | .pagingEnabled => true
  | _ => false

/-- The image with the addresses of the code and of the variables of `gdt.c`.  The `.text` section is
in front of `.bss`, where the stack ends at the temporary page directory, which the page table
follows. -/
structure BootImage extends KernelImage where
  address : Label → Nat
  multiboot_lt : ∀ l, l.multiboot = true → address l + kernelBaseAddrVirt < kernelStartAddrVirt
  text_ge : ∀ l, l.multiboot = false → kernelStartAddrVirt ≤ address l
  text_le : ∀ l, l.multiboot = false → address l + 4096 ≤ kernelBaseAddrVirt + 4096 * tempPageDirectory
  table_eq : tempPageTable = tempPageDirectory + 1
  gdtC : Addresses
  gdtC_ge : ∀ a ∈ [gdtC.globalDescriptorTable, gdtC.gdtDescriptor, gdtC.tssRegion],
    kernelStartAddrVirt ≤ a.toNat ∧ a.toNat + 128 < 2 ^ 32

/-- The processor with its memory, which holds words by their physical addresses, the variables of
`gdt.c`, and the table of descriptors that is loaded. -/
structure Bare where
  label : Label
  cpu : Cpu
  cr0 : Word
  cr3 : Word
  mem : Word → Word
  tables : Tables
  gdt : Option Tables

/-- The page that an entry or `cr3` leads to. -/
def pageOf (entry : Word) : Word := entry &&& 0xFFFFF000

/-- Where the entry for an address is in the directory. -/
def directoryOffset (v : Word) : Word := (v >>> 22) * 4

/-- Where the entry for an address is in its page table. -/
def tableOffset (v : Word) : Word := ((v >>> 12) &&& 0x3FF) * 4

/-- Where an address is in its page. -/
def pageOffset (v : Word) : Word := v &&& 0xFFF

namespace Bare

/-- Paging is enabled. -/
def paging (b : Bare) : Bool := b.cr0.getLsbD 31

/-- The physical address behind a linear one. -/
def translate (b : Bare) (v : Word) : Option Word :=
  if b.paging then
    let pde := b.mem (pageOf b.cr3 + directoryOffset v)
    if pde.getLsbD 0 then
      let pte := b.mem (pageOf pde + tableOffset v)
      if pte.getLsbD 0 then some (pageOf pte + pageOffset v) else none
    else none
  else some v

/-- The machine at another place of the code. -/
def goTo (l : Label) (b : Bare) : Bare := { b with label := l }

/-- The machine with another stack pointer. -/
def setEsp (v : Word) (b : Bare) : Bare := { b with cpu := { b.cpu with esp := v } }

/-- The machine with another word in the memory. -/
def setWord (p w : Word) (b : Bare) : Bare := { b with mem := Function.update b.mem p w }

/-- `mov eax, cr0`, `or eax, bits` and `mov cr0, eax`. -/
def setCr0 (bits : Word) (b : Bare) : Bare :=
  { b with cr0 := b.cr0 ||| bits, cpu := { b.cpu with eax := b.cr0 ||| bits } }

/-- `mov ax, v`. -/
def movAx (v : BitVec 16) (b : Bare) : Bare :=
  { b with cpu := { b.cpu with eax := b.cpu.eax &&& 0xFFFF0000 ||| v.setWidth 32 } }

/-- The machine with another code segment. -/
def setCs (sel : BitVec 16) (b : Bare) : Bare := { b with cpu := { b.cpu with cs := sel } }

/-- `cli`. -/
def cli (b : Bare) : Bare := { b with cpu := { b.cpu with eflags := b.cpu.eflags &&& ~~~0x200 } }

/-- `lgdt [eax]`, where the descriptor of the table is. -/
def lgdt (descriptor : Word) (b : Bare) : Bare :=
  { b with gdt := if b.cpu.eax = descriptor then some b.tables else none }

section Setters

variable (l : Label) (v w p : Word) (sel : BitVec 16) (b : Bare)

@[simp] theorem goTo_label : (b.goTo l).label = l := rfl
@[simp] theorem goTo_cpu : (b.goTo l).cpu = b.cpu := rfl
@[simp] theorem goTo_cr0 : (b.goTo l).cr0 = b.cr0 := rfl
@[simp] theorem goTo_cr3 : (b.goTo l).cr3 = b.cr3 := rfl
@[simp] theorem goTo_mem : (b.goTo l).mem = b.mem := rfl
@[simp] theorem goTo_tables : (b.goTo l).tables = b.tables := rfl
@[simp] theorem goTo_gdt : (b.goTo l).gdt = b.gdt := rfl

@[simp] theorem setEsp_esp : (b.setEsp v).cpu.esp = v := rfl
@[simp] theorem setEsp_eflags : (b.setEsp v).cpu.eflags = b.cpu.eflags := rfl
@[simp] theorem setEsp_cs : (b.setEsp v).cpu.cs = b.cpu.cs := rfl
@[simp] theorem setEsp_cr0 : (b.setEsp v).cr0 = b.cr0 := rfl
@[simp] theorem setEsp_cr3 : (b.setEsp v).cr3 = b.cr3 := rfl
@[simp] theorem setEsp_tables : (b.setEsp v).tables = b.tables := rfl
@[simp] theorem setEsp_gdt : (b.setEsp v).gdt = b.gdt := rfl

@[simp] theorem setWord_cpu : (b.setWord p w).cpu = b.cpu := rfl
@[simp] theorem setWord_cr0 : (b.setWord p w).cr0 = b.cr0 := rfl
@[simp] theorem setWord_cr3 : (b.setWord p w).cr3 = b.cr3 := rfl
@[simp] theorem setWord_tables : (b.setWord p w).tables = b.tables := rfl
@[simp] theorem setWord_gdt : (b.setWord p w).gdt = b.gdt := rfl

@[simp] theorem setCr0_esp : (b.setCr0 v).cpu.esp = b.cpu.esp := rfl
@[simp] theorem setCr0_eflags : (b.setCr0 v).cpu.eflags = b.cpu.eflags := rfl
@[simp] theorem setCr0_cs : (b.setCr0 v).cpu.cs = b.cpu.cs := rfl
@[simp] theorem setCr0_cr0 : (b.setCr0 v).cr0 = b.cr0 ||| v := rfl
@[simp] theorem setCr0_cr3 : (b.setCr0 v).cr3 = b.cr3 := rfl
@[simp] theorem setCr0_mem : (b.setCr0 v).mem = b.mem := rfl
@[simp] theorem setCr0_gdt : (b.setCr0 v).gdt = b.gdt := rfl

@[simp] theorem setCs_esp : (b.setCs sel).cpu.esp = b.cpu.esp := rfl
@[simp] theorem setCs_eflags : (b.setCs sel).cpu.eflags = b.cpu.eflags := rfl
@[simp] theorem setCs_cs : (b.setCs sel).cpu.cs = sel := rfl
@[simp] theorem setCs_mem : (b.setCs sel).mem = b.mem := rfl
@[simp] theorem setCs_gdt : (b.setCs sel).gdt = b.gdt := rfl

@[simp] theorem cli_esp : b.cli.cpu.esp = b.cpu.esp := rfl
@[simp] theorem cli_cs : b.cli.cpu.cs = b.cpu.cs := rfl
@[simp] theorem cli_cr0 : b.cli.cr0 = b.cr0 := rfl
@[simp] theorem cli_cr3 : b.cli.cr3 = b.cr3 := rfl
@[simp] theorem cli_tables : b.cli.tables = b.tables := rfl

theorem cli_interrupts : b.cli.cpu.eflags.getLsbD 9 = false := by
  have hmask : (~~~0x200 : Word).getLsbD 9 = false := by decide
  rw [cli]
  dsimp only
  rw [BitVec.getLsbD_and, hmask, Bool.and_false]

@[simp] theorem lgdt_cpu : (b.lgdt v).cpu = b.cpu := rfl
@[simp] theorem lgdt_cr0 : (b.lgdt v).cr0 = b.cr0 := rfl
@[simp] theorem lgdt_cr3 : (b.lgdt v).cr3 = b.cr3 := rfl
@[simp] theorem lgdt_mem : (b.lgdt v).mem = b.mem := rfl
@[simp] theorem lgdt_gdt : (b.lgdt v).gdt = if b.cpu.eax = v then some b.tables else none := rfl

end Setters

/-- `mov [v], w`. -/
def store (v w : Word) (b : Bare) : Except Fault Bare :=
  match b.translate v with
  | some p => .ok (b.setWord p w)
  | none => .error (.pageFault v.toNat)

/-- `push w`. -/
def push (w : Word) (b : Bare) : Except Fault Bare := do
  let b ← b.store (b.cpu.esp - 4) w
  .ok (b.setEsp (b.cpu.esp - 4))

/-- The processor finds the code at the address `v`, which the loader put where it is linked, or 3 GiB
lower. -/
def fetch (v : Word) (b : Bare) : Except Fault Unit :=
  if b.translate v = some (if v < kernelVirtualBase then v else v - kernelVirtualBase) then .ok ()
  else .error (.pageFault v.toNat)

/-- `mov reg, ax`. -/
def load (allowed : Bare → BitVec 16 → Bool) (set : BitVec 16 → Cpu → Cpu) (b : Bare) :
    Except Fault Bare :=
  let sel := b.cpu.eax.setWidth 16
  if allowed b sel then .ok { b with cpu := set sel b.cpu } else .error .outOfBounds

/-- The loaded table takes a selector for a data segment register. -/
def takesData (b : Bare) (sel : BitVec 16) : Bool := b.gdt.any fun g => g.takesData b.cpu.cpl sel

/-- The loaded table takes a selector for `ss`. -/
def takesStack (b : Bare) (sel : BitVec 16) : Bool := b.gdt.any fun g => g.takes stackRule b.cpu.cpl sel

/-- `jmp sel:label`. -/
def farJump (sel : BitVec 16) (label : Label) (b : Bare) : Except Fault Bare :=
  if b.gdt.any fun g => g.takes jumpRule b.cpu.cpl sel then
    .ok ((b.setCs (sel &&& 0xFFFC ||| b.cpu.cpl.setWidth 16)).goTo label)
  else .error .outOfBounds

/-- The word at an address. -/
def read (v : Word) (b : Bare) : Option Word := (b.translate v).map b.mem

/-- `ret`, to the only place where a function of this code is called. -/
def ret (address : Word) (label : Label) (b : Bare) : Except Fault Bare :=
  match b.translate b.cpu.esp with
  | some p =>
    if b.mem p = address then .ok ((b.setEsp (b.cpu.esp + 4)).goTo label) else .error .diverge
  | none => .error (.pageFault b.cpu.esp.toNat)

end Bare

namespace BootImage

/-- The label `temp_page_directory`, where the label `stack_top` is, too. -/
def pageDirectory (image : BootImage) : Word :=
  BitVec.ofNat 32 (kernelBaseAddrVirt + 4096 * image.tempPageDirectory)

/-- The label `temp_page_table`. -/
def pageTable (image : BootImage) : Word :=
  BitVec.ofNat 32 (kernelBaseAddrVirt + 4096 * image.tempPageTable)

/-- The address of an instruction. -/
def addressOf (image : BootImage) (l : Label) : Word := BitVec.ofNat 32 (image.address l)

/-- What `gdt_init` accesses: the first six entries of the table, its descriptor, and a field of the
task state segment. -/
def accessed (image : BootImage) : List (Word × Nat) :=
  [(image.gdtC.globalDescriptorTable, 48), (image.gdtC.gdtDescriptor, 6),
    (image.gdtC.tssRegion + 8, 4)]

/-- `call gdt_init`, for the compiled code of the function. -/
def callGdtInit (image : BootImage) (code : Bare → Bare) (b : Bare) : Except Fault Bare :=
  match image.accessed.find? fun x => (List.range x.2).any fun i =>
    (b.translate (x.1 + BitVec.ofNat 32 i)).isNone with
  | none => .ok (code b)
  | some x => .error (.pageFault x.1.toNat)

/-- `_start`. -/
def start (image : BootImage) (b : Bare) : Except Fault Bare := do
  let b := b.setEsp (image.pageDirectory - kernelVirtualBase)
  let b ← b.push b.cpu.eax
  let b ← b.push b.cpu.ebx
  .ok { b with
    label := .identityMapKernel
    cpu := { b.cpu with eax := 0, ebx := 0, ecx := 0, edx := pagesInPageTable } }

/-- `.identity_map_kernel`. -/
def identityMapKernel (image : BootImage) (b : Bare) : Except Fault Bare := do
  let ebx := b.cpu.eax ||| (pagePresent ||| pageWriteable)
  let b ← b.store (image.pageTable - kernelVirtualBase + b.cpu.ecx * 4) ebx
  let ecx := b.cpu.ecx + 1
  .ok { b with
    label := if ecx.slt b.cpu.edx then .identityMapKernel else .addPageTable
    cpu := { b.cpu with eax := b.cpu.eax + 0x1000, ebx := ebx, ecx := ecx } }

/-- From the end of the loop to the instruction that enables paging. -/
def addPageTable (image : BootImage) (b : Bare) : Except Fault Bare := do
  let eax := image.pageTable - kernelVirtualBase ||| (pagePresent ||| pageWriteable)
  let b ← b.store (image.pageDirectory - kernelVirtualBase + 0x000 * 4) eax
  let b ← b.store (image.pageDirectory - kernelVirtualBase + 0x300 * 4) eax
  let b : Bare := { b with cr3 := image.pageDirectory - kernelVirtualBase }
  .ok ((b.setCr0 0x80000000).goTo .pagingEnabled)

/-- The jump to the higher half. -/
def pagingEnabled (image : BootImage) (b : Bare) : Except Fault Bare :=
  .ok { b with
    label := .higherHalfKernel
    cpu := { b.cpu with ecx := image.addressOf .higherHalfKernel } }

/-- `higher_half_kernel`. -/
def higherHalfKernel (image : BootImage) (b : Bare) : Except Fault Bare := do
  let b := b.setEsp (b.cpu.esp + kernelVirtualBase)
  let b ← b.push (image.addressOf .gdtInitDone)
  .ok (b.goTo .gdtInitAsm)

/-- `gdt_init_asm`. -/
def gdtInitAsm (image : BootImage) (code : Bare → Bare) (b : Bare) : Except Fault Bare := do
  let b ← image.callGdtInit code b.cli
  ((b.lgdt image.gdtC.gdtDescriptor).setCr0 1).farJump 0x08 .finishGdtInit

/-- `.finish_gdt_init`. -/
def finishGdtInit (image : BootImage) (b : Bare) : Except Fault Bare := do
  let b ← (b.movAx 0x10).load Bare.takesData fun sel c => { c with ds := sel }
  let b ← b.load Bare.takesData fun sel c => { c with es := sel }
  let b ← b.load Bare.takesData fun sel c => { c with fs := sel }
  let b ← b.load Bare.takesData fun sel c => { c with gs := sel }
  let b ← b.load Bare.takesStack fun sel c => { c with ss := sel }
  b.ret (image.addressOf .gdtInitDone) .gdtInitDone

/-- `call kmain`. -/
def gdtInitDone (image : BootImage) (b : Bare) : Except Fault Bare := do
  let b ← b.push (image.addressOf .gdtInitDone)
  .ok (b.goTo .kmain)

/-- The code at a place. -/
def codeAt (image : BootImage) (code : Bare → Bare) : Label → Bare → Except Fault Bare
  | .start => image.start
  | .identityMapKernel => image.identityMapKernel
  | .addPageTable => image.addPageTable
  | .pagingEnabled => image.pagingEnabled
  | .higherHalfKernel => image.higherHalfKernel
  | .gdtInitAsm => image.gdtInitAsm code
  | .finishGdtInit => image.finishGdtInit
  | .gdtInitDone => image.gdtInitDone
  | .kmain => .ok

/-- The code from one place to the next one. -/
def step (image : BootImage) (code : Bare → Bare) (b : Bare) : Except Fault Bare := do
  b.fetch (image.addressOf b.label)
  image.codeAt code b.label b

/-- The code, up to `n` steps of it before `kmain`. -/
def run (image : BootImage) (code : Bare → Bare) : Nat → Bare → Except Fault Bare
  | 0, b => .ok b
  | n + 1, b => do run image code n (← image.step code b)

end BootImage

/-! ### Entries -/

theorem directoryOffset_eq (v : Word) :
    directoryOffset v = BitVec.ofNat 32 (4 * (v.toNat / 4194304)) := by
  apply BitVec.eq_of_toNat_eq
  have h4 : (4 : Word).toNat = 4 := rfl
  rw [directoryOffset, BitVec.toNat_mul, BitVec.toNat_ushiftRight, Nat.shiftRight_eq_div_pow,
    BitVec.toNat_ofNat, h4]
  omega

theorem tableOffset_eq (v : Word) : tableOffset v = BitVec.ofNat 32 (4 * (v.toNat / 4096 % 1024)) := by
  apply BitVec.eq_of_toNat_eq
  have h4 : (4 : Word).toNat = 4 := rfl
  have hmask : (0x3FF : Word).toNat = 2 ^ 10 - 1 := rfl
  rw [tableOffset, BitVec.toNat_mul, BitVec.toNat_and, hmask, Nat.and_two_pow_sub_one_eq_mod,
    BitVec.toNat_ushiftRight, Nat.shiftRight_eq_div_pow, BitVec.toNat_ofNat, h4]
  omega

theorem toNat_pageOffset (v : Word) : (pageOffset v).toNat = v.toNat % 4096 := by
  have hmask : (0xFFF : Word).toNat = 2 ^ 12 - 1 := rfl
  rw [pageOffset, BitVec.toNat_and, hmask, Nat.and_two_pow_sub_one_eq_mod]

theorem pageOf_page {w : Word} (h : w.toNat % 4096 = 0) : pageOf w = w := by
  have hoff : w &&& 0xFFF = 0 := by
    apply BitVec.eq_of_toNat_eq
    exact (toNat_pageOffset w).trans h
  have hmasks : (0xFFFFF000 : Word) ||| 0xFFF = BitVec.allOnes 32 := by decide
  calc w &&& 0xFFFFF000 = w &&& 0xFFFFF000 ||| w &&& 0xFFF := by
        rw [hoff]
        exact BitVec.or_zero.symm
    _ = w &&& (0xFFFFF000 ||| 0xFFF) := by rw [BitVec.and_or_distrib_left]
    _ = w := by rw [hmasks, BitVec.and_allOnes]

theorem pageOf_entry {w : Word} (h : w.toNat % 4096 = 0) : pageOf (w ||| 3) = w := by
  have hflags : (3 : Word) &&& 0xFFFFF000 = 0 := by decide
  calc (w ||| 3) &&& 0xFFFFF000 = pageOf w ||| 3 &&& 0xFFFFF000 := BitVec.and_or_distrib_right
    _ = w ||| 0 := by rw [hflags, pageOf_page h]
    _ = w := BitVec.or_zero

theorem present_entry (w : Word) : (w ||| 3).getLsbD 0 = true := by
  rw [BitVec.getLsbD_or]
  exact Bool.or_true _

theorem ofNat_page (n : Nat) : (BitVec.ofNat 32 (4096 * n)).toNat % 4096 = 0 := by
  rw [BitVec.toNat_ofNat]
  omega

/-! ### The temporary tables -/

section Tables

variable {image : BootImage} {b b' : Bare}

/-- The physical address of the temporary page directory. -/
def BootImage.directory (image : BootImage) : Word := BitVec.ofNat 32 (4096 * image.tempPageDirectory)

/-- The directory holds nothing yet. -/
def NoDirectory (image : BootImage) (mem : Word → Word) : Prop :=
  ∀ i < 1024, mem (image.directory + BitVec.ofNat 32 (4 * i)) = 0

/-- The first `n` entries of the page table. -/
def TableFilled (image : BootImage) (n : Nat) (mem : Word → Word) : Prop :=
  ∀ i < n, mem (image.directory + 4096 + BitVec.ofNat 32 (4 * i)) = BitVec.ofNat 32 (4096 * i) ||| 3

/-- The directory leads to the page table in two places. -/
def DirectoryFilled (image : BootImage) (mem : Word → Word) : Prop :=
  ∀ i < 1024, mem (image.directory + BitVec.ofNat 32 (4 * i)) =
    if i = 0 ∨ i = 0x300 then image.directory + 4096 ||| 3 else 0

/-- Where the first 4 MiB are, which is what the tables map. -/
def mapped (v : Word) : Option Word :=
  if v.toNat < 0x400000 then some v
  else if 0xC0000000 ≤ v.toNat ∧ v.toNat < 0xC0400000 then some (v - kernelVirtualBase)
  else none

/-- The tables are loaded. -/
structure Paged (image : BootImage) (b : Bare) : Prop where
  paging : b.paging = true
  cr3 : b.cr3 = image.directory
  directory : DirectoryFilled image b.mem
  table : TableFilled image 1024 b.mem

theorem BootImage.directory_bounds (image : BootImage) :
    0x101000 ≤ image.directory.toNat ∧ image.directory.toNat + 8192 ≤ 0x40000000 ∧
      image.directory.toNat = 4096 * image.tempPageDirectory := by
  have hend := image.toKernelImage.end_le'
  have htable := image.tempTable_lt
  have heq := image.table_eq
  have hstart := image.start_ge
  have hge := image.text_ge .kmain rfl
  have hle := image.text_le .kmain rfl
  rw [kernelBaseAddrVirt] at hstart hle
  have hnat : image.directory.toNat = 4096 * image.tempPageDirectory := by
    rw [BootImage.directory, BitVec.toNat_ofNat]
    omega
  omega

theorem BootImage.directory_page (image : BootImage) :
    image.directory.toNat % 4096 = 0 ∧ (image.directory + 4096).toNat % 4096 = 0 := by
  obtain ⟨-, hle, hnat⟩ := image.directory_bounds
  have h4096 : (4096 : Word).toNat = 4096 := rfl
  rw [BitVec.toNat_add, h4096]
  omega

/-- **What the temporary tables map.** -/
theorem Paged.translate_eq (h : Paged image b) (v : Word) : b.translate v = mapped v := by
  obtain ⟨hd, ht⟩ := image.directory_page
  have hvlt := v.isLt
  rw [Bare.translate, if_pos h.paging, h.cr3, pageOf_page hd, directoryOffset_eq,
    h.directory _ (by omega : v.toNat / 4194304 < 1024)]
  by_cases hi : v.toNat / 4194304 = 0 ∨ v.toNat / 4194304 = 0x300
  · rw [if_pos hi]
    dsimp only
    rw [if_pos (present_entry _), pageOf_entry ht, tableOffset_eq, h.table _ (Nat.mod_lt _ (by decide)),
      if_pos (present_entry _), pageOf_entry (ofNat_page _)]
    have hnat : (BitVec.ofNat 32 (4096 * (v.toNat / 4096 % 1024)) + pageOffset v).toNat =
        v.toNat % 4194304 := by
      rw [BitVec.toNat_add, toNat_pageOffset, BitVec.toNat_ofNat]
      omega
    generalize BitVec.ofNat 32 (4096 * (v.toNat / 4096 % 1024)) + pageOffset v = p at hnat
    have hbase : kernelVirtualBase.toNat = 0xC0000000 := rfl
    rw [mapped]
    rcases hi with hi | hi
    · have hp : p = v := BitVec.eq_of_toNat_eq (by omega)
      rw [if_pos (by omega : v.toNat < 0x400000), hp]
    · have hp : p = v - kernelVirtualBase := by
        apply BitVec.eq_of_toNat_eq
        rw [BitVec.toNat_sub_of_le (by rw [BitVec.le_def, hbase]; omega), hbase, hnat]
        omega
      rw [if_neg (by omega : ¬v.toNat < 0x400000),
        if_pos (by omega : 0xC0000000 ≤ v.toNat ∧ v.toNat < 0xC0400000), hp]
  · rw [if_neg hi, mapped, if_neg (by omega : ¬v.toNat < 0x400000),
      if_neg (by omega : ¬(0xC0000000 ≤ v.toNat ∧ v.toNat < 0xC0400000))]
    rfl

theorem translate_off (h : b.paging = false) (v : Word) : b.translate v = some v := by
  rw [Bare.translate, h]
  rfl

end Tables

/-! ### What holds at each place -/

section Places

variable (image : BootImage) (code : Bare → Bare) (b₀ : Bare)

/-- The boot loader has loaded the image and cleared its `.bss` section; the processor is in the
kernel mode, without paging. -/
structure Loaded : Prop where
  label : b₀.label = .start
  cpl : b₀.cpu.cpl = 0
  paging : b₀.paging = false
  directory : NoDirectory image b₀.mem
  tables : b₀.tables = .zero

/-- The compiled code of `gdt_init`: its frame is below the stack pointer, and the variables that it
sets are not between there and the end of the page table. -/
structure GdtInitCode : Prop where
  result (b : Bare) : ((code b).cpu.eax, (code b).tables) = gdtInit image.gdtC b.tables
  esp (b : Bare) : (code b).cpu.esp = b.cpu.esp
  cs (b : Bare) : (code b).cpu.cs = b.cpu.cs
  interrupts (b : Bare) : (code b).cpu.eflags.getLsbD 9 = b.cpu.eflags.getLsbD 9
  control (b : Bare) : (code b).cr0 = b.cr0 ∧ (code b).cr3 = b.cr3
  mem (b : Bare) (a : Word) (hlo : (b.cpu.esp - kernelVirtualBase).toNat ≤ a.toNat)
    (hhi : a.toNat < image.directory.toNat + 8192) : (code b).mem a = b.mem a

/-- The stack is in the first 4 MiB. -/
def StackLow : Prop := 4096 * image.tempPageDirectory ≤ 0x400000

/-- The stack and what `gdt_init` accesses are in the first 4 MiB. -/
def Low : Prop := StackLow image ∧ ∀ x ∈ image.accessed, x.1.toNat + x.2 ≤ 0xC0400000

/-- The arguments of `kmain` are on the stack. -/
structure Args (b : Bare) : Prop where
  mbt : b.mem (image.directory - 8) = b₀.cpu.ebx
  magic : b.mem (image.directory - 4) = b₀.cpu.eax
  cpl : b.cpu.cpl = 0

/-- In the loop, when `n` entries are filled. -/
structure Mapping (n : Nat) (b : Bare) : Prop where
  args : Args image b₀ b
  paging : b.paging = false
  directory : NoDirectory image b.mem
  table : TableFilled image n b.mem
  tables : b.tables = .zero
  esp : b.cpu.esp = image.directory - 8

/-- The descriptors of `gdt_init` are loaded. -/
structure Segmented (b : Bare) : Prop where
  low : Low image
  args : Args image b₀ b
  paged : Paged image b
  gdt : b.gdt = some (bootTables image.gdtC)
  cs : b.cpu.cs = 0x08
  interrupts : b.cpu.eflags.getLsbD 9 = false

/-- What holds at a place, with the number of the steps that are left. -/
inductive At : Nat → Bare → Prop
  | start (h : Loaded image b₀) : At 1031 b₀
  | identityMapKernel {b : Bare} {n m : Nat} (hn : n + m + 1 = 1024)
      (hlabel : b.label = .identityMapKernel)
      (h : Mapping image b₀ n b) (heax : b.cpu.eax = BitVec.ofNat 32 (4096 * n))
      (hecx : b.cpu.ecx = BitVec.ofNat 32 n) (hedx : b.cpu.edx = 1024) : At (m + 7) b
  | addPageTable {b : Bare} (hlabel : b.label = .addPageTable) (h : Mapping image b₀ 1024 b) : At 6 b
  | pagingEnabled {b : Bare} (hlabel : b.label = .pagingEnabled) (h : Args image b₀ b)
      (hp : Paged image b) (htables : b.tables = .zero)
      (hesp : b.cpu.esp = image.directory - 8) : At 5 b
  | higherHalfKernel {b : Bare} (hlabel : b.label = .higherHalfKernel) (h : Args image b₀ b)
      (hp : Paged image b) (htables : b.tables = .zero)
      (hesp : b.cpu.esp = image.directory - 8) : At 4 b
  | gdtInitAsm {b : Bare} (hlabel : b.label = .gdtInitAsm) (hlow : StackLow image) (h : Args image b₀ b)
      (hp : Paged image b) (htables : b.tables = .zero) (hesp : b.cpu.esp = image.pageDirectory - 12)
      (hret : b.mem (image.directory - 12) = image.addressOf .gdtInitDone) : At 3 b
  | finishGdtInit {b : Bare} (hlabel : b.label = .finishGdtInit) (h : Segmented image b₀ b)
      (hesp : b.cpu.esp = image.pageDirectory - 12)
      (hret : b.mem (image.directory - 12) = image.addressOf .gdtInitDone) : At 2 b
  | gdtInitDone {b : Bare} (hlabel : b.label = .gdtInitDone) (h : Segmented image b₀ b)
      (hprotected : Protected (bootTables image.gdtC) b.cpu)
      (hesp : b.cpu.esp = image.pageDirectory - 8) : At 1 b
  | kmain {b : Bare} (hlabel : b.label = .kmain) (h : Segmented image b₀ b)
      (hprotected : Protected (bootTables image.gdtC) b.cpu)
      (hesp : b.cpu.esp = image.pageDirectory - 12) : At 0 b

/-- A step leads to the next place, or the image is too large. -/
def Continues (k : Nat) (b : Bare) : Prop :=
  (∃ b', image.step code b = .ok b' ∧ At image b₀ k b') ∨
    ¬Low image ∧ ∃ v, image.step code b = .error (.pageFault v)

end Places

/-! ### Memory -/

section Memory

variable {image : BootImage} {b₀ b b' : Bare} {mem mem' : Word → Word} {n : Nat}

/-- The memory of the tables, and of the stack from an address on, is the same. -/
def SameFrom (image : BootImage) (lo : Nat) (mem mem' : Word → Word) : Prop :=
  ∀ a : Word, lo ≤ a.toNat → a.toNat < image.directory.toNat + 8192 → mem' a = mem a

theorem SameFrom.update {lo : Nat} {p : Word} (w : Word) (h : p.toNat < lo) :
    SameFrom image lo mem (Function.update mem p w) := by
  intro a ha _
  refine Function.update_of_ne ?_ _ _
  rintro rfl
  omega

theorem toNat_directory_add (image : BootImage) {i : Nat} (hi : i < 1024) :
    (image.directory + BitVec.ofNat 32 (4 * i)).toNat = image.directory.toNat + 4 * i := by
  obtain ⟨-, hle, -⟩ := image.directory_bounds
  rw [BitVec.toNat_add, BitVec.toNat_ofNat]
  omega

theorem toNat_table_add (image : BootImage) {i : Nat} (hi : i < 1024) :
    (image.directory + 4096 + BitVec.ofNat 32 (4 * i)).toNat =
      image.directory.toNat + 4096 + 4 * i := by
  obtain ⟨-, hle, -⟩ := image.directory_bounds
  have h4096 : (4096 : Word).toNat = 4096 := rfl
  rw [BitVec.toNat_add, BitVec.toNat_add, BitVec.toNat_ofNat, h4096]
  omega

theorem toNat_directory_sub (image : BootImage) {c : Word} (hc : c.toNat ≤ 12) :
    (image.directory - c).toNat = image.directory.toNat - c.toNat := by
  obtain ⟨hge, -, -⟩ := image.directory_bounds
  exact BitVec.toNat_sub_of_le (by rw [BitVec.le_def]; omega)

theorem toNat_args (image : BootImage) : (image.directory - 8).toNat = image.directory.toNat - 8 ∧
    (image.directory - 4).toNat = image.directory.toNat - 4 :=
  ⟨toNat_directory_sub image (by decide), toNat_directory_sub image (by decide)⟩

theorem Args.congr {lo : Nat} (h : Args image b₀ b) (hsame : SameFrom image lo b.mem b'.mem)
    (hlo : lo + 8 ≤ image.directory.toNat) (hcpl : b'.cpu.cpl = 0) : Args image b₀ b' := by
  obtain ⟨hmbt, hmagic⟩ := toNat_args image
  refine ⟨?_, ?_, hcpl⟩
  · rw [hsame _ (by omega) (by omega)]
    exact h.mbt
  · rw [hsame _ (by omega) (by omega)]
    exact h.magic

theorem Paged.congr {lo : Nat} (h : Paged image b) (hsame : SameFrom image lo b.mem b'.mem)
    (hlo : lo ≤ image.directory.toNat) (hpaging : b'.paging = true) (hcr3 : b'.cr3 = image.directory) :
    Paged image b' := by
  refine ⟨hpaging, hcr3, fun i hi => ?_, fun i hi => ?_⟩
  · have hnat := toNat_directory_add image hi
    rw [hsame _ (by omega) (by omega)]
    exact h.directory i hi
  · have hnat := toNat_table_add image hi
    rw [hsame _ (by omega) (by omega)]
    exact h.table i hi

theorem Paged.keep {lo : Nat} (h : Paged image b) (hsame : SameFrom image lo b.mem b'.mem)
    (hlo : lo ≤ image.directory.toNat) (hcr0 : b'.cr0 = b.cr0) (hcr3 : b'.cr3 = b.cr3) :
    Paged image b' :=
  h.congr hsame hlo ((congrArg (·.getLsbD 31) hcr0).trans h.paging) (hcr3.trans h.cr3)

end Memory

/-! ### Accesses -/

section Accesses

variable {image : BootImage} {b : Bare} {l : Label} {w : Word}

theorem ok_bind {ε α β : Type} (a : α) (f : α → Except ε β) : (Except.ok a >>= f) = f a := rfl

theorem error_bind {ε α β : Type} (e : ε) (f : α → Except ε β) :
    (Except.error e >>= f) = Except.error e := rfl

theorem BootImage.toNat_addressOf (image : BootImage) (l : Label) :
    (image.addressOf l).toNat = image.address l ∧
    (l.multiboot = true → image.address l + 0xC0000000 < image.kernelStartAddrVirt) ∧
    (l.multiboot = false → 0xC0000000 ≤ image.address l) ∧
    (l.multiboot = false → image.address l + 4096 ≤ 0xC0000000 + 4096 * image.tempPageDirectory) ∧
    image.kernelStartAddrVirt + 4096 ≤ 0xC0000000 + 4096 * image.tempPageDirectory := by
  have hlow := image.multiboot_lt l
  have hge := image.text_ge l
  have hle := image.text_le l
  have hkmain := image.text_ge .kmain rfl
  have hkmain' := image.text_le .kmain rfl
  have hstart := image.start_ge
  obtain ⟨-, hend, hnat⟩ := image.directory_bounds
  rw [kernelBaseAddrVirt] at hlow hle hstart hkmain'
  have hlt : image.address l < 2 ^ 32 := by
    cases hm : l.multiboot with
    | true =>
      have := hlow hm
      omega
    | false =>
      have := hle hm
      omega
  refine ⟨?_, hlow, fun hm => ?_, hle, by omega⟩
  · rw [BootImage.addressOf, BitVec.toNat_ofNat, Nat.mod_eq_of_lt hlt]
  · have := hge hm
    omega

theorem BootImage.toNat_pageDirectory (image : BootImage) :
    image.pageDirectory.toNat = 0xC0000000 + image.directory.toNat := by
  obtain ⟨-, hle, hnat⟩ := image.directory_bounds
  rw [BootImage.pageDirectory, kernelBaseAddrVirt, BitVec.toNat_ofNat]
  omega

theorem BootImage.labels_eq (image : BootImage) :
    image.pageDirectory - kernelVirtualBase = image.directory ∧
    image.pageTable - kernelVirtualBase = image.directory + 4096 := by
  obtain ⟨-, hle, hnat⟩ := image.directory_bounds
  have hd := image.toNat_pageDirectory
  have htable := image.table_eq
  have hbase : kernelVirtualBase.toNat = 0xC0000000 := rfl
  have h4096 : (4096 : Word).toNat = 4096 := rfl
  have ht : image.pageTable.toNat = 0xC0000000 + image.directory.toNat + 4096 := by
    rw [BootImage.pageTable, kernelBaseAddrVirt, BitVec.toNat_ofNat]
    omega
  constructor
  · apply BitVec.eq_of_toNat_eq
    rw [BitVec.toNat_sub_of_le (by rw [BitVec.le_def]; omega)]
    omega
  · apply BitVec.eq_of_toNat_eq
    rw [BitVec.toNat_sub_of_le (by rw [BitVec.le_def]; omega), BitVec.toNat_add]
    omega

theorem lt_base_iff (v : Word) : v < kernelVirtualBase ↔ v.toNat < 0xC0000000 := BitVec.lt_def

theorem store_off (h : b.paging = false) (v : Word) : b.store v w = .ok (b.setWord v w) := by
  rw [Bare.store, translate_off h]

theorem push_off (h : b.paging = false) :
    b.push w = .ok ((b.setWord (b.cpu.esp - 4) w).setEsp (b.cpu.esp - 4)) := by
  rw [Bare.push, store_off h, ok_bind, Bare.setWord_cpu]

theorem fetch_off (h : b.paging = false) (hl : l.multiboot = true) :
    b.fetch (image.addressOf l) = .ok () := by
  obtain ⟨hnat, hlow, -, -, hstart⟩ := image.toNat_addressOf l
  obtain ⟨-, hle, hdir⟩ := image.directory_bounds
  have hlt : image.addressOf l < kernelVirtualBase := by
    rw [lt_base_iff, hnat]
    have := hlow hl
    omega
  rw [Bare.fetch, translate_off h, if_pos hlt, if_pos rfl]

theorem mapped_high {v : Word} (hge : 0xC0000000 ≤ v.toNat) (hlt : v.toNat < 0xC0400000) :
    mapped v = some (v - kernelVirtualBase) := by
  rw [mapped, if_neg (by omega), if_pos ⟨hge, hlt⟩]

theorem mapped_none {v : Word} (hge : 0xC0400000 ≤ v.toNat) : mapped v = none := by
  rw [mapped, if_neg (by omega), if_neg (by omega)]

theorem mapped_stack (image : BootImage) : StackLow image ∧
    mapped (image.pageDirectory - 12) = some (image.directory - 12) ∨
      ¬StackLow image ∧ mapped (image.pageDirectory - 12) = none := by
  obtain ⟨hge, hle, hdir⟩ := image.directory_bounds
  have hpd := image.toNat_pageDirectory
  have h12 : (12 : Word).toNat = 12 := rfl
  have hnat : (image.pageDirectory - 12).toNat = 0xC0000000 + image.directory.toNat - 12 := by
    rw [BitVec.toNat_sub_of_le (by rw [BitVec.le_def]; omega), hpd, h12]
  by_cases hlow : StackLow image
  · have hstack : 4096 * image.tempPageDirectory ≤ 0x400000 := hlow
    have hphys : image.pageDirectory - 12 - kernelVirtualBase = image.directory - 12 := by
      rw [← image.labels_eq.1]
      bv_omega
    refine Or.inl ⟨hlow, ?_⟩
    rw [mapped_high (by omega) (by omega), hphys]
  · have hstack : ¬4096 * image.tempPageDirectory ≤ 0x400000 := hlow
    exact Or.inr ⟨hlow, mapped_none (by omega)⟩

/-- The code is found when the stack behind it is in the first 4 MiB. -/
theorem fetch_paged (h : Paged image b) (l : Label) : b.fetch (image.addressOf l) = .ok () ∨
    ¬Low image ∧ ∃ v, b.fetch (image.addressOf l) = .error (.pageFault v) := by
  rw [Bare.fetch]
  by_cases hhome : b.translate (image.addressOf l) = some (if image.addressOf l < kernelVirtualBase then
      image.addressOf l else image.addressOf l - kernelVirtualBase)
  · exact Or.inl (if_pos hhome)
  · refine Or.inr ⟨fun hlow => hhome ?_, _, if_neg hhome⟩
    have hstack : 4096 * image.tempPageDirectory ≤ 0x400000 := hlow.1
    obtain ⟨hnat, hlt, hge, hle, hstart⟩ := image.toNat_addressOf l
    rw [h.translate_eq]
    cases hm : l.multiboot with
    | true =>
      have := hlt hm
      rw [if_pos ((lt_base_iff _).mpr (by omega)), mapped, if_pos (by omega)]
    | false =>
      have hge' := hge hm
      have hle' := hle hm
      rw [if_neg (by rw [lt_base_iff]; omega), mapped_high (by omega) (by omega)]

theorem push_paged (h : Paged image b) (hesp : b.cpu.esp = image.pageDirectory - 8) :
    StackLow image ∧
        b.push w = .ok ((b.setWord (image.directory - 12) w).setEsp (image.pageDirectory - 12)) ∨
      ¬Low image ∧ ∃ v, b.push w = .error (.pageFault v) := by
  have htop : b.cpu.esp - 4 = image.pageDirectory - 12 := by
    rw [hesp, BitVec.sub_sub]
    rfl
  have hstore : b.store (b.cpu.esp - 4) w = match mapped (image.pageDirectory - 12) with
      | some p => .ok (b.setWord p w)
      | none => .error (.pageFault (image.pageDirectory - 12).toNat) := by
    rw [Bare.store, h.translate_eq, htop]
  rw [Bare.push, hstore]
  rcases mapped_stack image with ⟨hlow, hmapped⟩ | ⟨hlow, hmapped⟩
  · rw [hmapped]
    dsimp only
    rw [ok_bind, Bare.setWord_cpu, htop]
    exact Or.inl ⟨hlow, rfl⟩
  · rw [hmapped]
    exact Or.inr ⟨fun h => hlow h.1, _, rfl⟩

end Accesses

/-! ### One step -/

section Steps

variable {image : BootImage} {code : Bare → Bare} {b₀ b b' : Bare} {l : Label} {k n m : Nat}

theorem step_of_fetch (hlabel : b.label = l) (hfetch : b.fetch (image.addressOf l) = .ok ()) :
    image.step code b = image.codeAt code l b := by
  rw [BootImage.step, hlabel, hfetch, ok_bind]

theorem continues_off (hlabel : b.label = l) (hl : l.multiboot = true) (hpaging : b.paging = false)
    (hcode : image.codeAt code l b = .ok b') (h : At image b₀ k b') : Continues image code b₀ k b :=
  Or.inl ⟨b', (step_of_fetch hlabel (fetch_off hpaging hl)).trans hcode, h⟩

theorem continues_paged (hlabel : b.label = l) (hp : Paged image b)
    (h : (∃ b', image.codeAt code l b = .ok b' ∧ At image b₀ k b') ∨
      ¬Low image ∧ ∃ v, image.codeAt code l b = .error (.pageFault v)) :
        Continues image code b₀ k b := by
  rcases fetch_paged hp l with hfetch | ⟨hlow, v, hfetch⟩
  · rw [Continues, step_of_fetch hlabel hfetch]
    exact h
  · refine Or.inr ⟨hlow, v, ?_⟩
    rw [BootImage.step, hlabel, hfetch, error_bind]

theorem continues_start (h : Loaded image b₀) : Continues image code b₀ 1030 b₀ := by
  obtain ⟨hge, hle, hdir⟩ := image.directory_bounds
  have h8 : image.directory - 4 - 4 = image.directory - 8 := by bv_omega
  obtain ⟨b₁, hb₁⟩ : ∃ b₁ : Bare, b₁ = ((((b₀.setEsp image.directory).setWord (image.directory - 4)
      b₀.cpu.eax).setEsp (image.directory - 4)).setWord (image.directory - 8) b₀.cpu.ebx).setEsp
        (image.directory - 8) := ⟨_, rfl⟩
  have hstart : image.start b₀ = .ok { b₁ with
      label := .identityMapKernel
      cpu := { b₁.cpu with eax := 0, ebx := 0, ecx := 0, edx := 1024 } } := by
    rw [BootImage.start]
    dsimp only
    rw [image.labels_eq.1, push_off, ok_bind, push_off, ok_bind, Bare.setEsp_esp, Bare.setEsp_esp,
      h8, hb₁]
    · rfl
    · exact h.paging
    · exact h.paging
  have hmem : b₁.mem = Function.update (Function.update b₀.mem (image.directory - 4) b₀.cpu.eax)
      (image.directory - 8) b₀.cpu.ebx := by
    rw [hb₁]
    rfl
  have hrest : b₁.paging = b₀.paging ∧ b₁.cpu.cs = b₀.cpu.cs ∧ b₁.tables = b₀.tables ∧
      b₁.cpu.esp = image.directory - 8 := by
    rw [hb₁]
    exact ⟨rfl, rfl, rfl, rfl⟩
  obtain ⟨hpaging, hcs, htables, hesp⟩ := hrest
  refine continues_off h.label rfl h.paging hstart (.identityMapKernel (n := 0) (m := 1023) rfl rfl
    ⟨⟨?_, ?_, (congrArg rpl hcs).trans h.cpl⟩, hpaging.trans h.paging, ?_, ?_,
      htables.trans h.tables, hesp⟩ rfl rfl rfl)
  · dsimp only
    rw [hmem]
    exact Function.update_self _ _ _
  · dsimp only
    rw [hmem, Function.update_of_ne (by bv_omega)]
    exact Function.update_self _ _ _
  · intro i hi
    have hnat := toNat_directory_add image hi
    dsimp only
    rw [hmem, Function.update_of_ne (by bv_omega), Function.update_of_ne (by bv_omega)]
    exact h.directory i hi
  · intro i hi
    omega

theorem slt_pages {i : Nat} (hi : i ≤ 1024) : (BitVec.ofNat 32 i).slt 1024 = decide (i < 1024) := by
  have hint : (BitVec.ofNat 32 i).toInt = i := by
    rw [BitVec.toInt_eq_toNat_of_lt (by rw [BitVec.toNat_ofNat]; omega), BitVec.toNat_ofNat]
    omega
  have hpages : (1024 : Word).toInt = 1024 := rfl
  rw [BitVec.slt_eq_decide, hint, hpages]
  exact decide_eq_decide.mpr Int.ofNat_lt

theorem TableFilled.store {mem : Word → Word} (h : TableFilled image n mem) (hn : n < 1024) :
    TableFilled image (n + 1) (Function.update mem (image.directory + 4096 + BitVec.ofNat 32 (4 * n))
      (BitVec.ofNat 32 (4096 * n) ||| 3)) := by
  intro i hi
  by_cases heq : i = n
  · rw [heq]
    exact Function.update_self _ _ _
  · have hnat := toNat_table_add image (show i < 1024 by omega)
    have hnat' := toNat_table_add image hn
    rw [Function.update_of_ne (by bv_omega)]
    exact h i (by omega)

theorem continues_identityMapKernel (hn : n + m + 1 = 1024) (hlabel : b.label = .identityMapKernel)
    (h : Mapping image b₀ n b) (heax : b.cpu.eax = BitVec.ofNat 32 (4096 * n))
    (hecx : b.cpu.ecx = BitVec.ofNat 32 n) (hedx : b.cpu.edx = 1024) :
    Continues image code b₀ (m + 6) b := by
  obtain ⟨hge, hle, hdir⟩ := image.directory_bounds
  have hoffset : b.cpu.ecx * 4 = BitVec.ofNat 32 (4 * n) := by
    rw [hecx]
    bv_omega
  have hnext : b.cpu.ecx + 1 = BitVec.ofNat 32 (n + 1) := by
    rw [hecx]
    bv_omega
  have hpage : b.cpu.eax + 0x1000 = BitVec.ofNat 32 (4096 * (n + 1)) := by
    rw [heax]
    bv_omega
  have hmore : (b.cpu.ecx + 1).slt b.cpu.edx = decide (n + 1 < 1024) := by
    rw [hnext, hedx, slt_pages (by omega)]
  obtain ⟨b', hb', hstep⟩ : ∃ b' : Bare, b' = { b with
      label := if (b.cpu.ecx + 1).slt b.cpu.edx then .identityMapKernel else .addPageTable
      mem := Function.update b.mem (image.directory + 4096 + BitVec.ofNat 32 (4 * n))
        (BitVec.ofNat 32 (4096 * n) ||| 3)
      cpu := { b.cpu with eax := b.cpu.eax + 0x1000, ebx := b.cpu.eax ||| 3, ecx := b.cpu.ecx + 1 } } ∧
      image.identityMapKernel b = .ok b' := by
    refine ⟨_, rfl, ?_⟩
    rw [BootImage.identityMapKernel]
    dsimp only
    rw [image.labels_eq.2, hoffset, store_off h.paging, ok_bind, ← heax]
    rfl
  have hmapping : Mapping image b₀ (n + 1) b' := by
    have hnat := toNat_table_add image (show n < 1024 by omega)
    obtain ⟨h8, h4⟩ := toNat_args image
    have hmem : b'.mem = Function.update b.mem (image.directory + 4096 + BitVec.ofNat 32 (4 * n))
        (BitVec.ofNat 32 (4096 * n) ||| 3) := by rw [hb']
    have hcpl : b'.cpu.cpl = b.cpu.cpl := by rw [hb', Cpu.cpl, Cpu.cpl]
    have hrest : b'.paging = b.paging ∧ b'.tables = b.tables ∧ b'.cpu.esp = b.cpu.esp := by
      rw [hb']
      exact ⟨rfl, rfl, rfl⟩
    refine ⟨⟨?_, ?_, hcpl.trans h.args.cpl⟩, hrest.1.trans h.paging, ?_, ?_, hrest.2.1.trans h.tables,
      hrest.2.2.trans h.esp⟩
    · rw [hmem, Function.update_of_ne (by bv_omega)]
      exact h.args.mbt
    · rw [hmem, Function.update_of_ne (by bv_omega)]
      exact h.args.magic
    · intro i hi
      have hi' := toNat_directory_add image hi
      rw [hmem, Function.update_of_ne (by bv_omega)]
      exact h.directory i hi
    · rw [hmem]
      exact h.table.store (by omega)
  rcases m with _ | m
  · have hlast : b'.label = .addPageTable := by
      rw [hb']
      dsimp only
      rw [hmore, decide_eq_false (by omega)]
      rfl
    have hfull : n + 1 = 1024 := by omega
    rw [hfull] at hmapping
    exact continues_off hlabel rfl h.paging hstep (.addPageTable hlast hmapping)
  · have hagain : b'.label = .identityMapKernel := by
      rw [hb']
      dsimp only
      rw [hmore, decide_eq_true (by omega)]
      rfl
    have hregs : b'.cpu.eax = BitVec.ofNat 32 (4096 * (n + 1)) ∧ b'.cpu.ecx = BitVec.ofNat 32 (n + 1) ∧
        b'.cpu.edx = 1024 := by
      rw [hb']
      exact ⟨hpage, hnext, hedx⟩
    exact continues_off hlabel rfl h.paging hstep
      (.identityMapKernel (by omega) hagain hmapping hregs.1 hregs.2.1 hregs.2.2)

theorem NoDirectory.store {mem : Word → Word} (h : NoDirectory image mem) :
    DirectoryFilled image (Function.update (Function.update mem
      (image.directory + BitVec.ofNat 32 (4 * 0))
      (image.directory + 4096 ||| 3)) (image.directory + BitVec.ofNat 32 (4 * 0x300))
        (image.directory + 4096 ||| 3)) := by
  intro i hi
  have hnat := toNat_directory_add image hi
  have h0 := toNat_directory_add image (show 0 < 1024 by decide)
  have h300 := toNat_directory_add image (show 0x300 < 1024 by decide)
  by_cases hhigh : i = 0x300
  · rw [if_pos (Or.inr hhigh), hhigh]
    exact Function.update_self _ _ _
  · rw [Function.update_of_ne (by bv_omega)]
    by_cases hlow : i = 0
    · rw [if_pos (Or.inl hlow), hlow]
      exact Function.update_self _ _ _
    · rw [Function.update_of_ne (by bv_omega), if_neg (not_or.mpr ⟨hlow, hhigh⟩)]
      exact h i hi

theorem entryFlags : pagePresent ||| pageWriteable = 3 := rfl

theorem continues_addPageTable (hlabel : b.label = .addPageTable) (h : Mapping image b₀ 1024 b) :
    Continues image code b₀ 5 b := by
  obtain ⟨hge, hle, hdir⟩ := image.directory_bounds
  have hfirst : (0x000 * 4 : Word) = BitVec.ofNat 32 (4 * 0) := rfl
  have hsecond : (0x300 * 4 : Word) = BitVec.ofNat 32 (4 * 0x300) := rfl
  obtain ⟨b₁, hb₁⟩ : ∃ b₁ : Bare, b₁ = (b.setWord (image.directory + BitVec.ofNat 32 (4 * 0))
      (image.directory + 4096 ||| 3)).setWord (image.directory + BitVec.ofNat 32 (4 * 0x300))
        (image.directory + 4096 ||| 3) := ⟨_, rfl⟩
  obtain ⟨b', hb', hstep⟩ : ∃ b' : Bare,
      b' = (({ b₁ with cr3 := image.directory } : Bare).setCr0 0x80000000).goTo .pagingEnabled ∧
        image.addPageTable b = .ok b' := by
    refine ⟨_, rfl, ?_⟩
    rw [BootImage.addPageTable]
    dsimp only
    rw [image.labels_eq.1, image.labels_eq.2, entryFlags, hfirst, hsecond, store_off h.paging,
      ok_bind, store_off, ok_bind, hb₁]
    exact h.paging
  have hmem : b'.mem = Function.update
      (Function.update b.mem (image.directory + BitVec.ofNat 32 (4 * 0)) (image.directory + 4096 ||| 3))
      (image.directory + BitVec.ofNat 32 (4 * 0x300)) (image.directory + 4096 ||| 3) := by
    rw [hb', hb₁]
    rfl
  have hpaging : b'.paging = true := by
    rw [hb', Bare.paging, Bare.goTo_cr0, Bare.setCr0_cr0, BitVec.getLsbD_or]
    exact Bool.or_true _
  have hrest : b'.label = .pagingEnabled ∧ b'.cr3 = image.directory ∧ b'.tables = b.tables ∧
      b'.cpu.esp = b.cpu.esp ∧ b'.cpu.cs = b.cpu.cs := by
    rw [hb', hb₁]
    exact ⟨rfl, rfl, rfl, rfl, rfl⟩
  obtain ⟨hlabel', hcr3, htables, hesp, hcs⟩ := hrest
  have h0 := toNat_directory_add image (show 0 < 1024 by decide)
  have h300 := toNat_directory_add image (show 0x300 < 1024 by decide)
  obtain ⟨h8, h4⟩ := toNat_args image
  refine continues_off hlabel rfl h.paging hstep (.pagingEnabled hlabel'
    ⟨?_, ?_, (congrArg rpl hcs).trans h.args.cpl⟩ ⟨hpaging, hcr3, ?_, ?_⟩ (htables.trans h.tables)
    (hesp.trans h.esp))
  · rw [hmem, Function.update_of_ne (by bv_omega), Function.update_of_ne (by bv_omega)]
    exact h.args.mbt
  · rw [hmem, Function.update_of_ne (by bv_omega), Function.update_of_ne (by bv_omega)]
    exact h.args.magic
  · rw [hmem]
    exact h.directory.store
  · intro i hi
    have hnat := toNat_table_add image hi
    rw [hmem, Function.update_of_ne (by bv_omega), Function.update_of_ne (by bv_omega)]
    exact h.table i hi

theorem continues_pagingEnabled (hlabel : b.label = .pagingEnabled) (h : Args image b₀ b)
    (hp : Paged image b) (htables : b.tables = .zero) (hesp : b.cpu.esp = image.directory - 8) :
    Continues image code b₀ 4 b := by
  have hsame : SameFrom image 0 b.mem b.mem := fun _ _ _ => rfl
  refine continues_paged hlabel hp (Or.inl ⟨_, rfl,
    .higherHalfKernel rfl ⟨h.mbt, h.magic, h.cpl⟩ ?_ htables hesp⟩)
  exact hp.keep hsame (Nat.zero_le _) rfl rfl

theorem high_esp (image : BootImage) :
    image.directory - 8 + kernelVirtualBase = image.pageDirectory - 8 := by
  rw [← image.labels_eq.1]
  bv_omega

theorem SameFrom.push (image : BootImage) (mem : Word → Word) (w : Word) :
    SameFrom image (image.directory.toNat - 8) mem (Function.update mem (image.directory - 12) w) := by
  obtain ⟨hge, -, -⟩ := image.directory_bounds
  apply SameFrom.update
  rw [toNat_directory_sub image (by decide), show (12 : Word).toNat = 12 from rfl]
  omega

theorem continues_higherHalfKernel (hlabel : b.label = .higherHalfKernel) (h : Args image b₀ b)
    (hp : Paged image b) (htables : b.tables = .zero) (hesp : b.cpu.esp = image.directory - 8) :
    Continues image code b₀ 3 b := by
  obtain ⟨hge, -, -⟩ := image.directory_bounds
  have hlo : image.directory.toNat - 8 + 8 ≤ image.directory.toNat := by omega
  have hp' : Paged image (b.setEsp (image.pageDirectory - 8)) :=
    hp.keep (fun _ _ _ => rfl) (Nat.zero_le _) (b.setEsp_cr0 _) (b.setEsp_cr3 _)
  apply continues_paged hlabel hp
  rw [BootImage.codeAt, BootImage.higherHalfKernel, hesp, high_esp]
  rcases push_paged (w := image.addressOf .gdtInitDone) hp' (b.setEsp_esp _) with
    ⟨hlow, hpush⟩ | ⟨hlow, v, hpush⟩
  · rw [hpush, ok_bind]
    have hsame := SameFrom.push image b.mem (image.addressOf .gdtInitDone)
    refine Or.inl ⟨_, rfl, .gdtInitAsm (Bare.goTo_label _ _) hlow ?_ ?_ ?_ ?_ ?_⟩
    · refine h.congr hsame hlo ?_
      rw [Cpu.cpl, Bare.goTo_cpu, Bare.setEsp_cs, Bare.setWord_cpu, Bare.setEsp_cs]
      exact h.cpl
    · refine hp.keep hsame (Nat.sub_le _ _) ?_ ?_
      · simp only [Bare.goTo_cr0, Bare.setEsp_cr0, Bare.setWord_cr0]
      · simp only [Bare.goTo_cr3, Bare.setEsp_cr3, Bare.setWord_cr3]
    · simp only [Bare.goTo_tables, Bare.setEsp_tables, Bare.setWord_tables, htables]
    · simp only [Bare.goTo_cpu, Bare.setEsp_esp]
    · exact Function.update_self _ _ _
  · rw [hpush, error_bind]
    exact Or.inr ⟨hlow, v, rfl⟩

theorem BootImage.accessed_bounds (image : BootImage) {x : Word × Nat} (hx : x ∈ image.accessed) :
    0xC0000000 ≤ x.1.toNat ∧ x.1.toNat + x.2 < 2 ^ 32 ∧ 0 < x.2 := by
  have hstart := image.start_ge
  rw [kernelBaseAddrVirt] at hstart
  have hge := image.gdtC_ge
  simp only [List.forall_mem_cons, List.not_mem_nil, false_implies, implies_true, and_true] at hge
  have h8 : (8 : Word).toNat = 8 := rfl
  simp only [BootImage.accessed, List.mem_cons, List.not_mem_nil, or_false] at hx
  rcases hx with rfl | rfl | rfl
  · dsimp only
    omega
  · dsimp only
    omega
  · dsimp only
    rw [BitVec.toNat_add, h8]
    omega

/-- Whether `gdt_init` runs into a page that is not mapped. -/
theorem callGdtInit_eq (code : Bare → Bare) (hp : Paged image b) :
    (∀ x ∈ image.accessed, x.1.toNat + x.2 ≤ 0xC0400000) ∧ image.callGdtInit code b = .ok (code b) ∨
      ¬Low image ∧ ∃ v, image.callGdtInit code b = .error (.pageFault v) := by
  rw [BootImage.callGdtInit]
  generalize hfind : image.accessed.find? _ = found
  have hadd {x : Word × Nat} (hx : x ∈ image.accessed) {i : Nat} (hi : i < x.2) :
      (x.1 + BitVec.ofNat 32 i).toNat = x.1.toNat + i := by
    obtain ⟨hge, hlt, -⟩ := image.accessed_bounds hx
    rw [BitVec.toNat_add, BitVec.toNat_ofNat]
    omega
  cases found with
  | none =>
    refine Or.inl ⟨fun x hx => ?_, rfl⟩
    obtain ⟨hge, hlt, hpos⟩ := image.accessed_bounds hx
    by_contra hgt
    have hnone := List.find?_eq_none.mp hfind x hx
    apply hnone
    rw [List.any_eq_true]
    refine ⟨x.2 - 1, List.mem_range.mpr (by omega), ?_⟩
    have hnat := hadd hx (show x.2 - 1 < x.2 by omega)
    rw [hp.translate_eq, mapped_none (by omega)]
    rfl
  | some x =>
    refine Or.inr ⟨fun hlow => ?_, _, rfl⟩
    have hx := List.mem_of_find?_eq_some hfind
    have hsome := List.find?_some hfind
    obtain ⟨i, hi, hnone⟩ := List.any_eq_true.mp hsome
    have hnat := hadd hx (List.mem_range.mp hi)
    have hend := hlow.2 x hx
    obtain ⟨hge, -, -⟩ := image.accessed_bounds hx
    have hlt := List.mem_range.mp hi
    rw [hp.translate_eq, mapped_high (by omega) (by omega)] at hnone
    exact Bool.false_ne_true hnone

theorem farJump_kernel (hgdt : b.gdt = some (bootTables image.gdtC)) (hcpl : b.cpu.cpl = 0)
    (l : Label) :
    b.farJump 0x08 l = .ok ((b.setCs 0x08).goTo l) := by
  have htakes : (bootTables image.gdtC).takes jumpRule 0 0x08 = true := by
    rw [takes_bootTables, taken_jumpRule]
    exact Or.inl ⟨rfl, rfl⟩
  have hcs : (0x08 : BitVec 16) &&& 0xFFFC ||| (0 : BitVec 2).setWidth 16 = 0x08 := by decide
  rw [Bare.farJump, hgdt, Option.any_some, hcpl, if_pos htakes, hcs]

theorem continues_gdtInitAsm (hcode : GdtInitCode image code) (hlabel : b.label = .gdtInitAsm)
    (hlow : StackLow image) (h : Args image b₀ b) (hp : Paged image b) (htables : b.tables = .zero)
    (hesp : b.cpu.esp = image.pageDirectory - 12)
    (hret : b.mem (image.directory - 12) = image.addressOf .gdtInitDone) :
    Continues image code b₀ 2 b := by
  obtain ⟨hge, -, -⟩ := image.directory_bounds
  have h12 : (12 : Word).toNat = 12 := rfl
  have hnat := toNat_directory_sub image (show (12 : Word).toNat ≤ 12 by decide)
  have hp₁ : Paged image b.cli :=
    hp.keep (fun _ _ _ => rfl) (Nat.zero_le _) b.cli_cr0 b.cli_cr3
  apply continues_paged hlabel hp
  rw [BootImage.codeAt, BootImage.gdtInitAsm]
  rcases callGdtInit_eq code hp₁ with ⟨hvars, hcall⟩ | ⟨hlow, v, hcall⟩
  · obtain ⟨heax, hset⟩ := Prod.ext_iff.mp (hcode.result b.cli)
    rw [Bare.cli_tables, htables] at heax hset
    have hsame : SameFrom image (image.directory - 12).toNat b.mem (code b.cli).mem := by
      intro a hlo hhi
      refine hcode.mem b.cli a ?_ hhi
      have hphys : image.pageDirectory - 12 - kernelVirtualBase = image.directory - 12 := by
        rw [← image.labels_eq.1]
        bv_omega
      rw [Bare.cli_esp, hesp, hphys]
      exact hlo
    obtain ⟨b₂, hb₂⟩ : ∃ b₂, b₂ = ((code b.cli).lgdt image.gdtC.gdtDescriptor).setCr0 1 := ⟨_, rfl⟩
    have hgdt : b₂.gdt = some (bootTables image.gdtC) := by
      rw [hb₂, Bare.setCr0_gdt, Bare.lgdt_gdt]
      exact (if_pos heax).trans (congrArg some hset)
    have hcpl : b₂.cpu.cpl = 0 := by
      rw [Cpu.cpl, hb₂, Bare.setCr0_cs, Bare.lgdt_cpu, hcode.cs, Bare.cli_cs]
      exact h.cpl
    have hmem : b₂.mem = (code b.cli).mem := by rw [hb₂, Bare.setCr0_mem, Bare.lgdt_mem]
    have hflag : b₂.cpu.eflags.getLsbD 9 = false := by
      rw [hb₂, Bare.setCr0_eflags, Bare.lgdt_cpu, hcode.interrupts]
      exact b.cli_interrupts
    have hpaging : b₂.paging = true := by
      rw [Bare.paging, hb₂, Bare.setCr0_cr0, Bare.lgdt_cr0, (hcode.control _).1, Bare.cli_cr0,
        BitVec.getLsbD_or, (show b.cr0.getLsbD 31 = true from hp.paging), Bool.true_or]
    have hcr3 : b₂.cr3 = image.directory := by
      rw [hb₂, Bare.setCr0_cr3, Bare.lgdt_cr3, (hcode.control _).2, Bare.cli_cr3, hp.cr3]
    have hesp₂ : b₂.cpu.esp = image.pageDirectory - 12 := by
      rw [hb₂, Bare.setCr0_esp, Bare.lgdt_cpu, hcode.esp, Bare.cli_esp, hesp]
    have hkept : SameFrom image (image.directory - 12).toNat b.mem
      ((b₂.setCs 0x08).goTo .finishGdtInit).mem := by
      rw [Bare.goTo_mem, Bare.setCs_mem, hmem]
      exact hsame
    rw [hcall, ok_bind, ← hb₂, farJump_kernel hgdt hcpl]
    refine Or.inl ⟨_, rfl, .finishGdtInit (Bare.goTo_label _ _) ⟨⟨hlow, hvars⟩,
      ?_, ?_, ?_, ?_, ?_⟩ ?_ ?_⟩
    · refine h.congr hkept (by omega) ?_
      rw [Bare.goTo_cpu, Cpu.cpl, Bare.setCs_cs]
      rfl
    · exact hp.congr hkept (by omega) hpaging hcr3
    · rw [Bare.goTo_gdt, Bare.setCs_gdt, hgdt]
    · rw [Bare.goTo_cpu, Bare.setCs_cs]
    · rw [Bare.goTo_cpu, Bare.setCs_eflags, hflag]
    · rw [Bare.goTo_cpu, Bare.setCs_esp, hesp₂]
    · rw [hkept _ le_rfl (by omega), hret]
  · rw [hcall, error_bind]
    exact Or.inr ⟨hlow, v, rfl⟩

/-- The segment registers can be loaded with the selector in `ax`. -/
structure Ready (image : BootImage) (b : Bare) : Prop where
  gdt : b.gdt = some (bootTables image.gdtC)
  cs : b.cpu.cs = 0x08
  eax : b.cpu.eax.setWidth 16 = (0x10 : BitVec 16)

theorem Ready.load (h : Ready image b) {allowed : Bare → BitVec 16 → Bool} (set : BitVec 16 → Cpu → Cpu)
    (hallowed : allowed = Bare.takesData ∨ allowed = Bare.takesStack)
    (hset : ∀ sel c, (set sel c).cs = c.cs ∧ (set sel c).eax = c.eax) :
    b.load allowed set = .ok { b with cpu := set 0x10 b.cpu } ∧
      Ready image { b with cpu := set 0x10 b.cpu } := by
  have hcpl : b.cpu.cpl = 0 := by
    rw [Cpu.cpl, h.cs]
    rfl
  have htakes : allowed b 0x10 = true := by
    rcases hallowed with rfl | rfl
    · rw [Bare.takesData, h.gdt, Option.any_some, hcpl, bootTables, takesData_iff]
      exact Or.inr (Or.inl ⟨rfl, Or.inr rfl⟩)
    · rw [Bare.takesStack, h.gdt, Option.any_some, hcpl, takes_bootTables, taken_stackRule]
      exact Or.inl ⟨rfl, rfl⟩
  refine ⟨?_, h.gdt, (hset _ _).1.trans h.cs, ?_⟩
  · rw [Bare.load, h.eax]
    exact if_pos htakes
  · exact (congrArg (BitVec.setWidth 16) (hset _ _).2).trans h.eax

theorem protected_kernel (addr : Addresses) {c : Cpu} (hcs : c.cs = 0x08) (hss : c.ss = 0x10)
    (hdata : ∀ r ∈ dataRegisters, r c = 0x10) : Protected (bootTables addr) c := by
  have hcpl : c.cpl = 0 := by
    rw [Cpu.cpl, hcs]
    rfl
  have hmode : c.kernelMode = true := by
    rw [Cpu.kernelMode, hcs]
    rfl
  have htakes : ∀ r ∈ dataRegisters, (bootTables addr).takesData c.cpl (r c) = true := by
    intro r hr
    rw [hcpl, hdata r hr, bootTables, takesData_iff]
    exact Or.inr (Or.inl ⟨rfl, Or.inr rfl⟩)
  have hstack : (bootTables addr).takes stackRule c.cpl c.ss = true := by
    rw [hcpl, hss, takes_bootTables, taken_stackRule]
    exact Or.inl ⟨rfl, rfl⟩
  refine ⟨⟨?_, fun h => ?_, htakes _ List.mem_cons_self, fun h => ?_⟩, hstack, htakes⟩
  · rw [hcpl, hcs, takes_bootTables, taken_returnRule]
    exact Or.inl ⟨rfl, rfl⟩
  · rw [hmode] at h
    cases h
  · rw [hmode] at h
    cases h

theorem Ready.movAx (h : Segmented image b₀ b) : Ready image (b.movAx 0x10) := by
  refine ⟨h.gdt, h.cs, ?_⟩
  have hmask : (0xFFFF0000 : Word).setWidth 16 = (0 : BitVec 16) := by decide
  have hsel : ((0x10 : BitVec 16).setWidth 32).setWidth 16 = (0x10 : BitVec 16) := by decide
  rw [Bare.movAx]
  dsimp only
  rw [BitVec.setWidth_or, BitVec.setWidth_and, hmask, hsel]
  exact (congrArg (· ||| 0x10) BitVec.and_zero).trans BitVec.zero_or

theorem Segmented.keep {lo : Nat} (h : Segmented image b₀ b) (hsame : SameFrom image lo b.mem b'.mem)
    (hlo : lo + 8 ≤ image.directory.toNat) (hcr0 : b'.cr0 = b.cr0) (hcr3 : b'.cr3 = b.cr3)
    (hgdt : b'.gdt = b.gdt) (hcs : b'.cpu.cs = b.cpu.cs)
    (hflags : b'.cpu.eflags = b.cpu.eflags) : Segmented image b₀ b' where
  low := h.low
  args := h.args.congr hsame hlo ((congrArg rpl hcs).trans h.args.cpl)
  paged := h.paged.keep hsame (by omega) hcr0 hcr3
  gdt := hgdt.trans h.gdt
  cs := hcs.trans h.cs
  interrupts := (congrArg (·.getLsbD 9) hflags).trans h.interrupts

theorem protected_setEsp {g : Tables} (h : Protected g b.cpu) (v : Word) :
    Protected g (b.setEsp v).cpu := by
  refine ⟨⟨h.framed.cs, h.framed.ss, h.framed.ds, h.framed.iopl⟩, h.ss, fun r hr => ?_⟩
  have hdata := h.data r hr
  simp only [dataRegisters, List.mem_cons, List.not_mem_nil, or_false] at hr
  rcases hr with rfl | rfl | rfl | rfl <;> exact hdata

theorem continues_finishGdtInit (hlabel : b.label = .finishGdtInit) (h : Segmented image b₀ b)
    (hesp : b.cpu.esp = image.pageDirectory - 12)
    (hret : b.mem (image.directory - 12) = image.addressOf .gdtInitDone) :
    Continues image code b₀ 1 b := by
  obtain ⟨hge, -, -⟩ := image.directory_bounds
  have hlo : image.directory.toNat - 8 + 8 ≤ image.directory.toNat := by omega
  obtain ⟨h₁, hr₁⟩ := (Ready.movAx h).load (fun sel c => { c with ds := sel }) (Or.inl rfl) fun _ _ =>
    ⟨rfl, rfl⟩
  obtain ⟨h₂, hr₂⟩ := hr₁.load (fun sel c => { c with es := sel }) (Or.inl rfl) fun _ _ => ⟨rfl, rfl⟩
  obtain ⟨h₃, hr₃⟩ := hr₂.load (fun sel c => { c with fs := sel }) (Or.inl rfl) fun _ _ => ⟨rfl, rfl⟩
  obtain ⟨h₄, hr₄⟩ := hr₃.load (fun sel c => { c with gs := sel }) (Or.inl rfl) fun _ _ => ⟨rfl, rfl⟩
  obtain ⟨h₅, hr₅⟩ := hr₄.load (fun sel c => { c with ss := sel }) (Or.inr rfl) fun _ _ => ⟨rfl, rfl⟩
  apply continues_paged hlabel h.paged
  rw [BootImage.codeAt, BootImage.finishGdtInit, h₁, ok_bind, h₂, ok_bind, h₃, ok_bind, h₄, ok_bind,
    h₅, ok_bind]
  generalize hb' : ({ b.movAx 0x10 with cpu := _ } : Bare) = b'
  have hsame : b'.mem = b.mem ∧ b'.cr0 = b.cr0 ∧ b'.cr3 = b.cr3 ∧ b'.gdt = b.gdt ∧
      b'.cpu.esp = b.cpu.esp ∧ b'.cpu.eflags = b.cpu.eflags ∧ b'.cpu.cs = b.cpu.cs := by
    rw [← hb']
    exact ⟨rfl, rfl, rfl, rfl, rfl, rfl, rfl⟩
  obtain ⟨hmem, hcr0, hcr3, hgdt, hesp', hflags, hcs⟩ := hsame
  have hprotected : Protected (bootTables image.gdtC) b'.cpu := by
    apply protected_kernel _ (hcs.trans h.cs)
    · rw [← hb']
    · intro r hr
      simp only [dataRegisters, List.mem_cons, List.not_mem_nil, or_false] at hr
      rw [← hb']
      rcases hr with rfl | rfl | rfl | rfl <;> rfl
  have hkept : SameFrom image (image.directory.toNat - 8) b.mem b'.mem := fun a _ _ => by rw [hmem]
  have hseg : Segmented image b₀ b' := h.keep hkept hlo hcr0 hcr3 hgdt hcs hflags
  have htop : image.pageDirectory - 12 + 4 = image.pageDirectory - 8 := by bv_omega
  obtain ⟨-, hmapped⟩ := (mapped_stack image).resolve_right fun hnot => hnot.1 h.low.1
  have hreturn : b'.ret (image.addressOf .gdtInitDone) .gdtInitDone =
      .ok ((b'.setEsp (image.pageDirectory - 8)).goTo .gdtInitDone) := by
    rw [Bare.ret, hseg.paged.translate_eq, hesp', hesp, hmapped]
    dsimp only
    rw [hmem, if_pos hret, htop]
  refine Or.inl ⟨_, hreturn, .gdtInitDone (Bare.goTo_label _ _) ?_ ?_ ?_⟩
  · have hstack : SameFrom image (image.directory.toNat - 8) b'.mem
        ((b'.setEsp (image.pageDirectory - 8)).goTo .gdtInitDone).mem := fun _ _ _ => rfl
    apply hseg.keep hstack hlo
    · rw [Bare.goTo_cr0, Bare.setEsp_cr0]
    · rw [Bare.goTo_cr3, Bare.setEsp_cr3]
    · rw [Bare.goTo_gdt, Bare.setEsp_gdt]
    · rw [Bare.goTo_cpu, Bare.setEsp_cs]
    · rw [Bare.goTo_cpu, Bare.setEsp_eflags]
  · rw [Bare.goTo_cpu]
    exact protected_setEsp hprotected _
  · rw [Bare.goTo_cpu, Bare.setEsp_esp]

theorem continues_gdtInitDone (hlabel : b.label = .gdtInitDone) (h : Segmented image b₀ b)
    (hprotected : Protected (bootTables image.gdtC) b.cpu)
    (hesp : b.cpu.esp = image.pageDirectory - 8) :
    Continues image code b₀ 0 b := by
  obtain ⟨hge, -, -⟩ := image.directory_bounds
  have hlo : image.directory.toNat - 8 + 8 ≤ image.directory.toNat := by omega
  apply continues_paged hlabel h.paged
  rw [BootImage.codeAt, BootImage.gdtInitDone]
  obtain ⟨-, hpush⟩ := (push_paged (w := image.addressOf .gdtInitDone) h.paged hesp).resolve_right
    fun hnot => hnot.1 h.low
  rw [hpush, ok_bind]
  refine Or.inl ⟨_, rfl, .kmain (Bare.goTo_label _ _) ?_ ?_ ?_⟩
  · apply h.keep (SameFrom.push image b.mem (image.addressOf .gdtInitDone)) hlo
    · rw [Bare.goTo_cr0, Bare.setEsp_cr0, Bare.setWord_cr0]
    · rw [Bare.goTo_cr3, Bare.setEsp_cr3, Bare.setWord_cr3]
    · rw [Bare.goTo_gdt, Bare.setEsp_gdt, Bare.setWord_gdt]
    · rw [Bare.goTo_cpu, Bare.setEsp_cs, Bare.setWord_cpu]
    · rw [Bare.goTo_cpu, Bare.setEsp_eflags, Bare.setWord_cpu]
  · rw [Bare.goTo_cpu]
    apply protected_setEsp
    rw [Bare.setWord_cpu]
    exact hprotected
  · rw [Bare.goTo_cpu, Bare.setEsp_esp]

/-- **One step**: from each place to the next one. -/
theorem At.continues (hcode : GdtInitCode image code) (h : At image b₀ (k + 1) b) :
    Continues image code b₀ k b := by
  generalize hk : k + 1 = k' at h
  cases h with
  | start h =>
    obtain rfl : k = 1030 := by omega
    exact continues_start h
  | @identityMapKernel _ n m hn hlabel h heax hecx hedx =>
    obtain rfl : k = m + 6 := by omega
    exact continues_identityMapKernel hn hlabel h heax hecx hedx
  | addPageTable hlabel h =>
    obtain rfl : k = 5 := by omega
    exact continues_addPageTable hlabel h
  | pagingEnabled hlabel h hp htables hesp =>
    obtain rfl : k = 4 := by omega
    exact continues_pagingEnabled hlabel h hp htables hesp
  | higherHalfKernel hlabel h hp htables hesp =>
    obtain rfl : k = 3 := by omega
    exact continues_higherHalfKernel hlabel h hp htables hesp
  | gdtInitAsm hlabel hlow h hp htables hesp hret =>
    obtain rfl : k = 2 := by omega
    exact continues_gdtInitAsm hcode hlabel hlow h hp htables hesp hret
  | finishGdtInit hlabel h hesp hret =>
    obtain rfl : k = 1 := by omega
    exact continues_finishGdtInit hlabel h hesp hret
  | gdtInitDone hlabel h hprotected hesp =>
    obtain rfl : k = 0 := by omega
    exact continues_gdtInitDone hlabel h hprotected hesp
  | kmain => omega

theorem At.last (h : At image b₀ 0 b) : b.label = .kmain ∧ Segmented image b₀ b ∧
    Protected (bootTables image.gdtC) b.cpu ∧ b.cpu.esp = image.pageDirectory - 12 := by
  generalize hk : 0 = k' at h
  cases h with
  | kmain hlabel h hprotected hesp => exact ⟨hlabel, h, hprotected, hesp⟩
  | _ => omega

theorem At.stays (h : At image b₀ 0 b) : image.step code b = .ok b := by
  obtain ⟨hlabel, hseg, -, -⟩ := h.last
  have hfetch := (fetch_paged hseg.paged .kmain).resolve_right fun hnot => hnot.1 hseg.low
  rw [step_of_fetch hlabel hfetch, BootImage.codeAt]

theorem At.translate_eq (h : At image b₀ k b) (hpaging : b.paging = true) (v : Word) :
    b.translate v = mapped v := by
  cases h with
  | start h =>
    rw [h.paging] at hpaging
    cases hpaging
  | identityMapKernel hn hlabel h heax hecx hedx =>
    rw [h.paging] at hpaging
    cases hpaging
  | addPageTable hlabel h =>
    rw [h.paging] at hpaging
    cases hpaging
  | pagingEnabled hlabel h hp htables hesp => exact hp.translate_eq v
  | higherHalfKernel hlabel h hp htables hesp => exact hp.translate_eq v
  | gdtInitAsm hlabel hlow h hp htables hesp hret => exact hp.translate_eq v
  | finishGdtInit hlabel h hesp hret => exact h.paged.translate_eq v
  | gdtInitDone hlabel h hprotected hesp => exact h.paged.translate_eq v
  | kmain hlabel h hprotected hesp => exact h.paged.translate_eq v

/-- **The run** goes from place to place until it is in `kmain`, or stops because the image is too
large. -/
theorem At.run (hcode : GdtInitCode image code) (n : Nat) (h : At image b₀ k b) :
    (∃ b', image.run code n b = .ok b' ∧ At image b₀ (k - n) b') ∨
      ¬Low image ∧ ∃ v, image.run code n b = .error (.pageFault v) := by
  induction n generalizing k b with
  | zero => exact Or.inl ⟨b, rfl, h⟩
  | succ n ih =>
    cases k with
    | zero =>
      rw [BootImage.run, h.stays, ok_bind]
      rcases ih h with ⟨b', hrun, h'⟩ | hstop
      · rw [Nat.zero_sub] at h' ⊢
        exact Or.inl ⟨b', hrun, h'⟩
      · exact Or.inr hstop
    | succ k =>
      rw [BootImage.run]
      rcases h.continues hcode with ⟨b', hstep, h'⟩ | ⟨hlow, v, hstep⟩
      · rw [hstep, ok_bind, Nat.succ_sub_succ]
        exact ih h'
      · rw [hstep, error_bind]
        exact Or.inr ⟨hlow, v, rfl⟩

end Steps

/-! ### The law -/

section Law

variable {image : BootImage} {code : Bare → Bare} {b₀ b : Bare}

/-- The machine is in `kmain`: the arguments are there, interrupts are disabled, the segments are
those of the kernel, and the tables are the ones with which `paging_init` starts. -/
structure Entered (image : BootImage) (b₀ b : Bare) : Prop where
  label : b.label = .kmain
  mbt : b.read (b.cpu.esp + 4) = some b₀.cpu.ebx
  magic : b.read (b.cpu.esp + 8) = some b₀.cpu.eax
  interrupts : b.cpu.eflags.getLsbD 9 = false
  gdt : b.gdt = some (bootTables image.gdtC)
  segments : Protected (bootTables image.gdtC) b.cpu
  paging : b.paging = true
  cr3 : ∀ pmm ram, b.cr3.toNat = (Mem.atEntry image.toKernelImage pmm ram).cr3
  tables : ∀ pmm ram f i, f = image.tempPageDirectory ∨ f = image.tempPageTable → i < 1024 →
    b.mem (BitVec.ofNat 32 (4096 * f + 4 * i)) = (Mem.atEntry image.toKernelImage pmm ram).word f i

theorem bits_entry {n : Nat} (hn : n < 2 ^ 20) :
    ({ present := true, rW := true, physAddr := n } : PageEntry).bits =
      BitVec.ofNat 32 (4096 * n) ||| 3 := by
  have hflags : ({ present := true, rW := true, physAddr := n } : PageEntry).flags = 3 := by
    rw [PageEntry.flags]
    dsimp only
    decide
  have h3 : (3 : BitVec 12).toNat = 3 := rfl
  have h3' : (3 : Word).toNat = 3 := rfl
  apply BitVec.eq_of_toNat_eq
  rw [PageEntry.bits, hflags, BitVec.toNat_append, BitVec.toNat_or, BitVec.toNat_ofNat,
    BitVec.toNat_ofNat, h3, h3', Nat.shiftLeft_eq, Nat.mod_eq_of_lt hn,
    Nat.mod_eq_of_lt (by omega : 4096 * n < 2 ^ 32)]
  congr 1
  exact Nat.mul_comm n 4096

/-- The temporary tables are what the model of `paging_init` assumes. -/
theorem Paged.word_eq (h : Paged image b) (pmm : Memory.Pmm.PhysicalMemory)
    (ram : Nat → Nat → PageEntry) {f i : Nat}
    (hf : f = image.tempPageDirectory ∨ f = image.tempPageTable) (hi : i < 1024) :
    b.mem (BitVec.ofNat 32 (4096 * f + 4 * i)) =
      (Mem.atEntry image.toKernelImage pmm ram).word f i := by
  obtain ⟨hge, hle, hdir⟩ := image.directory_bounds
  have htable := image.table_eq
  have hadd : BitVec.ofNat 32 (4096 * image.tempPageTable) = image.directory + 4096 := by
    rw [htable, BootImage.directory]
    bv_omega
  rw [BitVec.ofNat_add, Mem.word, Mem.atEntry]
  dsimp only
  rcases hf with rfl | rfl
  · rw [Function.update_self]
    refine (h.directory i hi).trans ?_
    by_cases hentry : i = 0 ∨ i = 0x300
    · rw [if_pos hentry, if_pos hentry, bits_entry (by omega), hadd]
    · rw [if_neg hentry, if_neg hentry]
      rfl
  · rw [Function.update_of_ne (by omega), Function.update_self, hadd, bits_entry (by omega)]
    exact h.table i hi

/-- `kmain` finds what the boot loader passed, with the tables and the segments of the code before. -/
theorem entered_of_at (h : At image b₀ 0 b) : Low image ∧ Entered image b₀ b := by
  obtain ⟨hlabel, hseg, hprotected, hesp⟩ := h.last
  obtain ⟨hge, hle, hdir⟩ := image.directory_bounds
  have hlow : 4096 * image.tempPageDirectory ≤ 0x400000 := hseg.low.1
  have hpd := image.toNat_pageDirectory
  have hread {c p : Word} (hc : image.pageDirectory - 12 + c - kernelVirtualBase = p)
      (hnat : (image.pageDirectory - 12 + c).toNat = 0xC0000000 + p.toNat)
      (hp : p.toNat < 0x400000) : b.read (b.cpu.esp + c) = some (b.mem p) := by
    rw [Bare.read, hseg.paged.translate_eq, hesp, mapped_high (by omega) (by omega), hc]
    rfl
  obtain ⟨h8, h4⟩ := toNat_args image
  have hbase := image.labels_eq.1
  refine ⟨hseg.low, hlabel, ?_, ?_, hseg.interrupts, hseg.gdt, hprotected, hseg.paged.paging,
    fun _ _ => ?_, fun pmm ram f i => hseg.paged.word_eq pmm ram⟩
  · rw [← hseg.args.mbt]
    apply hread
    · rw [← hbase]
      bv_omega
    · bv_omega
    · bv_omega
  · rw [← hseg.args.magic]
    apply hread
    · rw [← hbase]
      bv_omega
    · bv_omega
    · bv_omega
  · rw [hseg.paged.cr3, hdir]
    rfl

/-- **The machine reaches `kmain`** after 1031 steps if and only if the stack and the variables of
`gdt.c` are in the first 4 MiB, and stops with a page fault otherwise.  In every state of the run, the
addresses that paging maps are the first 4 MiB, twice. -/
theorem boots_iff (hcode : GdtInitCode image code) (h₀ : Loaded image b₀) :
    (∀ n b, image.run code n b₀ = .ok b → b.paging = true → ∀ v, b.translate v = mapped v) ∧
      ∀ n ≥ 1031, (Low image → ∃ b, image.run code n b₀ = .ok b ∧ Entered image b₀ b) ∧
        (¬Low image → ∃ v, image.run code n b₀ = .error (.pageFault v)) := by
  have hstart : At image b₀ 1031 b₀ := .start h₀
  refine ⟨fun n b hrun hpaging => ?_, fun n hn => ?_⟩
  · rcases hstart.run hcode n with ⟨b', hrun', h⟩ | ⟨-, v, hrun'⟩
    · rw [hrun] at hrun'
      obtain rfl := Except.ok.inj hrun'
      exact h.translate_eq hpaging
    · rw [hrun] at hrun'
      cases hrun'
  · have hzero : 1031 - n = 0 := by omega
    rcases hstart.run hcode n with ⟨b', hrun, h⟩ | ⟨hlow, hfault⟩
    · rw [hzero] at h
      obtain ⟨hlow, hentered⟩ := entered_of_at h
      exact ⟨fun _ => ⟨b', hrun, hentered⟩, fun hnot => absurd hlow hnot⟩
    · exact ⟨fun h => absurd h hlow, fun _ => hfault⟩

/-- A kernel that ends at 1.5 MiB, with all of its code in two pages. -/
def smallBootImage : BootImage where
  toKernelImage := Memory.Pmm.smallImage
  address l := if l.multiboot then 0x100010 else 0xC0101000
  multiboot_lt l hl := by
    rw [if_pos hl]
    decide
  text_ge l hl := by
    rw [hl]
    decide
  text_le l hl := by
    rw [hl]
    decide
  table_eq := rfl
  gdtC := ⟨0xC0107000, 0xC0107200, 0xC0107280⟩
  gdtC_ge a ha := by
    simp only [List.mem_cons, List.not_mem_nil, or_false] at ha
    rcases ha with rfl | rfl | rfl
    · decide
    · decide
    · decide

/-- The machine behind the boot loader, with the arguments that it passes. -/
def loaded : Bare where
  label := .start
  cpu := ⟨⟨0x2BADB002, 0, 0, 0x9000, 0, 0, 0⟩, 0, 0x100010, 2, 0x10, 0x18, 0x18, 0x18, 0x18, 0x18⟩
  cr0 := 1
  cr3 := 0
  mem _ := 0
  tables := .zero
  gdt := none

/-- What `gdt_init` does to the variables and to `eax`. -/
def gdtInitResult (addr : Addresses) (b : Bare) : Bare :=
  { b with
    cpu := { b.cpu with eax := (gdtInit addr b.tables).1 }
    tables := (gdtInit addr b.tables).2 }

theorem boots_smallBootImage :
    ∃ b, smallBootImage.run (gdtInitResult smallBootImage.gdtC) 1031 loaded = .ok b ∧
      Entered smallBootImage loaded b := by
  have hcode : GdtInitCode smallBootImage (gdtInitResult smallBootImage.gdtC) :=
    ⟨fun _ => rfl, fun _ => rfl, fun _ => rfl, fun _ => rfl, fun _ => ⟨rfl, rfl⟩, fun _ _ _ _ => rfl⟩
  have hloaded : Loaded smallBootImage loaded := ⟨rfl, by decide, by decide, fun _ _ => rfl, rfl⟩
  refine ((boots_iff hcode hloaded).2 1031 le_rfl).1 ⟨?_, ?_⟩
  · rw [StackLow]
    decide
  · decide

end Law

end Aosis.Boot
