import Aosis.Common.Word

/-!
# The kernel image

`kernel/linker.ld` loads the kernel at 1 MiB and links it 3 GiB higher.  `KernelImage`
holds the symbols the memory managers use, with what the script says about them: the
higher half starts after the multiboot sections, and the end is the last address of the
image.  The first block of the heap and the two temporary paging structures of `boot.asm` lie
in its `.bss` section.
-/

namespace Aosis

/-- `kernel_base_addr_virt`. -/
def kernelBaseAddrVirt : Nat := 0xC0000000

/-- `P2V_ADDR(x)`. -/
def p2vAddr (x : Nat) : Nat := u32 (x + kernelBaseAddrVirt)

/-- `V2P_ADDR(x)`. -/
def v2pAddr (x : Nat) : Nat := sub32 x kernelBaseAddrVirt

/-- The symbols of the linker script, the address of `kmalloc_init_block`, and the frames of the
temporary page directory and page table of `boot.asm`. -/
structure KernelImage where
  kernelStartAddrVirt : Nat
  kernelEndAddrPhys : Nat
  kmallocInitBlock : Nat
  tempPageDirectory : Nat
  tempPageTable : Nat
  start_ge : kernelBaseAddrVirt + 0x100000 ≤ kernelStartAddrVirt
  end_gt : kernelStartAddrVirt < kernelEndAddrPhys + kernelBaseAddrVirt
  end_le : kernelEndAddrPhys + kernelBaseAddrVirt ≤ 2 ^ 32
  block_mod : kmallocInitBlock % 4096 = 0
  block_ge : kernelStartAddrVirt ≤ kmallocInitBlock
  block_le : kmallocInitBlock + 4096 ≤ kernelEndAddrPhys + kernelBaseAddrVirt
  temp_ne : tempPageDirectory ≠ tempPageTable
  tempDirectory_lt : 4096 * (tempPageDirectory + 1) ≤ kernelEndAddrPhys
  tempTable_lt : 4096 * (tempPageTable + 1) ≤ kernelEndAddrPhys

namespace KernelImage

theorem end_ge (image : KernelImage) : 0x100000 ≤ image.kernelEndAddrPhys := by
  have := image.start_ge
  have := image.end_gt
  unfold kernelBaseAddrVirt at *
  omega

theorem end_le' (image : KernelImage) : image.kernelEndAddrPhys ≤ 0x40000000 := by
  have := image.end_le
  unfold kernelBaseAddrVirt at *
  omega

end KernelImage

end Aosis
