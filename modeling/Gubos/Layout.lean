/-
Constants of the address-space layout, and what the boot code knows about the kernel image (`mm/meminfo.h`, `mm/paging.h`,
`kmalloc.h`). All sizes and addresses are 32-bit.
-/
import Mathlib.Tactic

namespace Gubos

/-- `PAGE_SIZE` -/
def pageSize : ℕ := 4096

/-- `PAGE_FLAG_PRESENT`, `PAGE_FLAG_WRITE`, `PAGE_FLAG_USER` -/
def pageFlagPresent : ℕ := 1
def pageFlagWrite : ℕ := 2
def pageFlagUser : ℕ := 4

/-- `KERNEL_HEAP_VIRT_START`, `KERNEL_HEAP_PHYS_START`, `KERNEL_HEAP_SIZE` -/
def kernelHeapVirtStart : ℕ := 0xE0000000
def kernelHeapPhysStart : ℕ := 0x00800000
def kernelHeapSize : ℕ := 0x03000000

/-- `kernel_meminfo_t`, the fields that the modelled functions read; they are 32-bit -/
structure KernelMeminfo where
  physicalStart : ℕ
  physicalEnd : ℕ
  virtualStart : ℕ
  virtualEnd : ℕ
  higherHalfBase : ℕ
  physicalStart_lt : physicalStart < 2 ^ 32
  physicalEnd_lt : physicalEnd < 2 ^ 32
  virtualStart_lt : virtualStart < 2 ^ 32
  virtualEnd_lt : virtualEnd < 2 ^ 32
  higherHalfBase_lt : higherHalfBase < 2 ^ 32
deriving DecidableEq, Repr

/-- a kernel image of 1 MB at 1 MB, seen at 3 GB and up -/
def KernelMeminfo.atOneMegabyte : KernelMeminfo :=
  ⟨0x100000, 0x200000, 0xC0100000, 0xC0200000, 0xC0000000, by decide, by decide, by decide, by decide, by decide⟩

end Gubos
