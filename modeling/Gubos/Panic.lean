/-
How a kernel function can fail to return.

`PANIC` and a failed `ASSERT` halt the machine (`kernel/panic.c`); the model keeps which one it was. A NULL dereference
and a loop that never ends are not panics of the code, but the function does not return either.
-/
import Mathlib.Tactic

namespace Gubos

/-- the `PANIC` and `ASSERT` sites of the modelled functions -/
inductive Panic where
  /-- `sched_remove`: "cannot remove task (PID=%u)" -/
  | cannotRemoveTask (pid : ℕ)
  /-- `sched_remove`: "task %u not found" -/
  | taskNotFound (pid : ℕ)
  /-- `pmm_init`: "failed to read memory map" -/
  | noMemoryMap
  /-- `pmm_alloc_page`: "out of memory" -/
  | outOfPages
  /-- `paging_create_page_directory`: "page_directory should not be NULL", "page_tables should not be NULL" -/
  | noPageDirectory
  | noPageTables
  /-- `vmm_map_pages`: "cannot map unaligned address: %#x", "cannot map to unaligned address: %#x" -/
  | mapUnaligned (virtualAddr : ℕ)
  | mapToUnaligned (physicalAddr : ℕ)
  /-- `vmm_map_pages`: "Out of memory"; `remove_free_blocks`: "out of memory (no free blocks)" -/
  | noFreeBlocks
  /-- `remove_free_blocks`: "could not find %u consecutive free pages starting at %#x" -/
  | noConsecutivePages (pageCount virtualAddr : ℕ)
  /-- `remove_free_blocks`, `add_allocation`: "out of memory" -/
  | outOfMemory
  /-- `vmm_unmap_pages`: "cannot unmap unaligned address: %#x" -/
  | unmapUnaligned (virtualAddr : ℕ)
  /-- `vmm_unmap_pages`: "cannot unamp more than has been mapped" -/
  | unmapTooMuch
  /-- `vmm_unmap_pages`: "allocation to unmap not found in allocation tree" -/
  | allocationNotFound
  /-- `page_fault_handler`: "TODO: kill the misbehaving user process", "kernel protection fault", "invalid VMM state" -/
  | misbehavingUserProcess
  | kernelProtectionFault
  | invalidVmmState
  /-- `elf_load`: "unsupported program header type %d" -/
  | unsupportedProgHdrType (type : ℕ)
deriving DecidableEq, Repr

inductive Fault where
  | panic (p : Panic)
  | nullDereference
  | diverges
deriving DecidableEq, Repr

end Gubos
