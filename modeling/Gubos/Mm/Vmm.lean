/-
The virtual memory manager (`mm/vmm.c`).

An address space is a pair of linked structures: a list of free areas, sorted by address, and a search tree of allocations.
Both are kept in memory, as the kernel heap hands out their cells: `blocks p` and `nodes p` are what is at address `p`, also
after `kfree(p)`. All fields are 32-bit; sums that the source takes in 64 bits are plain here.

Loops that only follow pointers are given more rounds than there are 32-bit pointers, so a loop that is cut off never ends.
A `kmalloc` that returns NULL ends in a write to address 0, a NULL dereference.

Not modelled: `vmm_init`, which fills `ADDR_SPACE`; it is the parameter `addrSpace` here.
-/
import Gubos.Core.Bytes
import Gubos.Core.Heap
import Gubos.Core.TreeHeap
import Gubos.Mm.Paging

namespace Gubos.Vmm

open Gubos.Core Gubos.Paging

/-! ## Data -/

/-- `vmm_allocation_t` -/
structure VmmAllocation where
  virtualAddr : ℕ
  physicalAddr : ℕ
  pageCount : ℕ
  flags : ℕ
deriving DecidableEq, Repr

/-- `vmm_allocation_tree_t` -/
structure VmmAllocationTree where
  alloc : VmmAllocation
  left : ℕ
  right : ℕ
  parent : ℕ
deriving DecidableEq, Repr

/-- a range of free pages -/
structure Area where
  virtualAddr : ℕ
  pageCount : ℕ
deriving DecidableEq, Repr

/-- `vmm_free_blocks_t` -/
structure VmmFreeBlocks extends Area where
  next : ℕ
deriving DecidableEq, Repr

/-- `vmm_context_t` -/
structure VmmContext where
  allocations : ℕ
  freeBlocks : ℕ
deriving DecidableEq, Repr

/-- `addr_space_entry_t` -/
structure AddrSpaceEntry where
  virtualStart : ℕ
  physicalStart : ℕ
  pageCount : ℕ
  flags : ℕ
deriving DecidableEq, Repr

/-- the kernel heap, as far as the VMM uses it -/
structure Heap where
  blocks : ℕ → VmmFreeBlocks
  nodes : ℕ → VmmAllocationTree
  arena : Arena

namespace Heap

def setBlock (h : Heap) (p : ℕ) (b : VmmFreeBlocks) : Heap := { h with blocks := Function.update h.blocks p b }

def setNode (h : Heap) (p : ℕ) (n : VmmAllocationTree) : Heap := { h with nodes := Function.update h.nodes p n }

def kfree (h : Heap) (p : ℕ) : Heap := { h with arena := h.arena.free p }

/-- `kmalloc` of a free block, and its initialisation -/
def newBlock (A : Allocator) (h : Heap) (b : VmmFreeBlocks) : Except Fault (Heap × ℕ) :=
  let (p, arena) := h.arena.alloc A
  if p = 0 then .error .nullDereference else .ok ({ h with arena := arena }.setBlock p b, p)

/-- `kmalloc` of a tree node, and its initialisation -/
def newNode (A : Allocator) (h : Heap) (n : VmmAllocationTree) : Except Fault (Heap × ℕ) :=
  let (p, arena) := h.arena.alloc A
  if p = 0 then .error .nullDereference else .ok ({ h with arena := arena }.setNode p n, p)

/-- the free list, cell by cell -/
def block (h : Heap) (p : ℕ) : Area × ℕ := ((h.blocks p).toArea, (h.blocks p).next)

/-- the allocation tree, cell by cell -/
def node (h : Heap) (p : ℕ) : VmmAllocation × ℕ × ℕ := ((h.nodes p).alloc, (h.nodes p).left, (h.nodes p).right)

end Heap

/-- more rounds than there are pointers -/
def rounds : ℕ := 2 ^ 32 + 1

/-! ## Ranges and modes -/

section Code

variable (A : Allocator) (mi : KernelMeminfo)

/-- `is_addr_in_range`, in 64 bits -/
def isAddrInRange (virtualAddr : ℕ) (area : Area) : Bool :=
  area.virtualAddr ≤ virtualAddr ∧ virtualAddr < area.virtualAddr + area.pageCount * pageSize

/-- `is_addr_in_user_range`, in 64 bits -/
def isAddrInUserRange (virtualAddr pageCount : ℕ) : Bool := virtualAddr + pageCount * pageSize < mi.higherHalfBase

/-- `is_addr_ok_for_mode` -/
def isAddrOkForMode (virtualAddr pageCount : ℕ) (isUserspace : Bool) : Bool :=
  if isUserspace then isAddrInUserRange mi virtualAddr pageCount else mi.virtualStart ≤ virtualAddr

/-! ## The free list -/

/-- `unlink_block` -/
def unlinkBlock (h : Heap) (ctx : VmmContext) (freeBlocks prev : ℕ) : Heap × VmmContext :=
  let next := (h.blocks freeBlocks).next
  if prev ≠ 0 then ((h.setBlock prev { h.blocks prev with next := next }).kfree freeBlocks, ctx)
  else (h.kfree freeBlocks, { ctx with freeBlocks := next })

/-- the test of the search in `remove_free_blocks` -/
def suits (virtualAddr pageCount : ℕ) (isUserspace : Bool) (area : Area) : Bool :=
  ((virtualAddr = 0 && isAddrOkForMode mi area.virtualAddr pageCount isUserspace) || isAddrInRange virtualAddr area) &&
    pageCount ≤ area.pageCount

/-- the search in `remove_free_blocks`: the first block that suits, and the one before it -/
def findFreeBlocks (h : Heap) (ctx : VmmContext) (virtualAddr pageCount : ℕ) (isUserspace : Bool) :
    Except Fault (ℕ × ℕ) :=
  scan h.block (suits mi virtualAddr pageCount isUserspace) rounds ctx.freeBlocks 0

/-- `remove_free_blocks`, after the search: `freeBlocks` is the block found -/
def takeFreeBlocks (h : Heap) (ctx : VmmContext) (virtualAddr pageCount freeBlocks prev : ℕ) :
    Except Fault (Heap × VmmContext × ℕ) :=
  let b := h.blocks freeBlocks
  if b.pageCount = pageCount then
    let (h, ctx) := unlinkBlock h ctx freeBlocks prev
    .ok (h, ctx, virtualAddr)
  else if pageCount < b.pageCount then
    let pageOffset := if virtualAddr ≠ 0 then u32 (virtualAddr + 2 ^ 32 - b.virtualAddr) / pageSize else 0
    if u32 (b.pageCount + 2 ^ 32 - pageOffset) < pageCount then .error (.panic .outOfMemory)
    else if virtualAddr = 0 ∨ virtualAddr = b.virtualAddr then
      .ok (h.setBlock freeBlocks
        ⟨⟨u32 (b.virtualAddr + pageCount * pageSize), b.pageCount - pageCount⟩, b.next⟩, ctx, b.virtualAddr)
    else
      let newBlockPageOffset := u32 (pageOffset + pageCount)
      if newBlockPageOffset < b.pageCount then do
        let (h, newBlock) ← h.newBlock A
          ⟨⟨u32 (b.virtualAddr + newBlockPageOffset * pageSize), b.pageCount - newBlockPageOffset⟩, b.next⟩
        let b := h.blocks freeBlocks
        .ok (h.setBlock freeBlocks ⟨⟨b.virtualAddr, pageOffset⟩, newBlock⟩, ctx, virtualAddr)
      else .ok (h.setBlock freeBlocks ⟨⟨b.virtualAddr, b.pageCount - pageCount⟩, b.next⟩, ctx, virtualAddr)
  else .ok (h, ctx, virtualAddr)

/-- `remove_free_blocks` -/
def removeFreeBlocks (h : Heap) (ctx : VmmContext) (virtualAddr pageCount : ℕ) (isUserspace : Bool) :
    Except Fault (Heap × VmmContext × ℕ) :=
  if ctx.freeBlocks = 0 then .error (.panic .noFreeBlocks)
  else do
    let (freeBlocks, prev) ← findFreeBlocks mi h ctx virtualAddr pageCount isUserspace
    if freeBlocks = 0 then .error (.panic (.noConsecutivePages pageCount virtualAddr))
    else takeFreeBlocks A h ctx virtualAddr pageCount freeBlocks prev

/-- `merge_or_insert_free_blocks`, from `done` on: a new block after `freeBlocks` -/
def insertFreeBlocks (h : Heap) (freeBlocks virtualAddr pageCount : ℕ) : Except Fault Heap := do
  let (h, newBlock) ← h.newBlock A ⟨⟨virtualAddr, pageCount⟩, (h.blocks freeBlocks).next⟩
  .ok (h.setBlock freeBlocks { h.blocks freeBlocks with next := newBlock })

/-- `merge_or_insert_free_blocks` -/
def mergeOrInsertFreeBlocks (h : Heap) (freeBlocks virtualAddr pageCount : ℕ) : Except Fault Heap :=
  if freeBlocks ≠ 0 then
    let b := h.blocks freeBlocks
    let isUserspaceBlock := isAddrInUserRange mi b.virtualAddr b.pageCount
    let isUserspaceAddr := isAddrInUserRange mi virtualAddr pageCount
    if isUserspaceBlock = isUserspaceAddr then insertFreeBlocks A h freeBlocks virtualAddr pageCount
    else
      let blocksMerged : Bool := u32 (b.virtualAddr + pageCount * pageSize) = virtualAddr
      let h := if blocksMerged then
          h.setBlock freeBlocks ⟨⟨b.virtualAddr, u32 (b.pageCount + pageCount)⟩, b.next⟩ else h
      let b := h.blocks freeBlocks
      let next := h.blocks b.next
      if b.next ≠ 0 ∧ u32 (b.virtualAddr + pageCount * pageSize) = next.virtualAddr then
        .ok ((h.setBlock freeBlocks ⟨⟨b.virtualAddr, u32 (b.pageCount + next.pageCount)⟩, next.next⟩).kfree b.next)
      else if blocksMerged then .ok h
      else insertFreeBlocks A h freeBlocks virtualAddr pageCount
  else do
    -- only the local pointer is set to the new block
    let (h, _) ← h.newBlock A ⟨⟨virtualAddr, pageCount⟩, 0⟩
    .ok h

/-- the search in `add_free_blocks`: the first block that starts at or after the address, and the one before it -/
def seekFreeBlocks (h : Heap) (ctx : VmmContext) (virtualAddr : ℕ) : Except Fault (ℕ × ℕ) :=
  scan h.block (fun area => virtualAddr ≤ area.virtualAddr) rounds ctx.freeBlocks 0

/-- `add_free_blocks`, after the search -/
def putFreeBlocks (h : Heap) (ctx : VmmContext) (virtualAddr pageCount freeBlocks prev : ℕ) :
    Except Fault (Heap × VmmContext) :=
  if prev ≠ 0 then do
    let h ← mergeOrInsertFreeBlocks A mi h prev virtualAddr pageCount
    .ok (h, ctx)
  else
    let b := h.blocks freeBlocks
    if freeBlocks ≠ 0 ∧ u32 (virtualAddr + pageCount * pageSize) = b.virtualAddr then
      .ok (h.setBlock freeBlocks ⟨⟨b.virtualAddr, u32 (b.pageCount + pageCount)⟩, b.next⟩, ctx)
    else do
      -- the new head of the list; `freeBlocks` is NULL if the list was empty
      let (h, newBlock) ← h.newBlock A ⟨⟨virtualAddr, pageCount⟩, freeBlocks⟩
      .ok (h, { ctx with freeBlocks := newBlock })

/-- `add_free_blocks` -/
def addFreeBlocks (h : Heap) (ctx : VmmContext) (virtualAddr pageCount : ℕ) : Except Fault (Heap × VmmContext) := do
  let (freeBlocks, prev) ← seekFreeBlocks h ctx virtualAddr
  putFreeBlocks A mi h ctx virtualAddr pageCount freeBlocks prev

/-! ## The allocation tree -/

/-- the decisions of the three searches: where to insert, the allocation that starts at an address, and the one that
contains it (its end is taken in 32 bits) -/
def insertDir (virtualAddr : ℕ) (alloc : VmmAllocation) : Dir :=
  if virtualAddr < alloc.virtualAddr then .left else .right

def startDir (virtualAddr : ℕ) (alloc : VmmAllocation) : Dir :=
  if virtualAddr = alloc.virtualAddr then .stop else insertDir virtualAddr alloc

def findDir (virtualAddr : ℕ) (alloc : VmmAllocation) : Dir :=
  if alloc.virtualAddr ≤ virtualAddr ∧ virtualAddr < u32 (alloc.virtualAddr + alloc.pageCount * pageSize) then .stop
  else insertDir virtualAddr alloc

/-- `add_allocation` -/
def addAllocation (h : Heap) (ctx : VmmContext) (alloc : VmmAllocation) : Except Fault Heap :=
  let allocations := ctx.allocations
  if allocations = 0 then .error .nullDereference
  else if (h.nodes allocations).alloc.pageCount = 0 then
    .ok (h.setNode allocations { h.nodes allocations with alloc := alloc })
  else do
    let (_, prev) ← walk h.node (insertDir alloc.virtualAddr) rounds allocations 0
    if prev = 0 then .error (.panic .outOfMemory)
    else
      let (h, newNode) ← h.newNode A ⟨alloc, 0, 0, prev⟩
      let p := h.nodes prev
      if alloc.virtualAddr < p.alloc.virtualAddr then .ok (h.setNode prev { p with left := newNode })
      else .ok (h.setNode prev { p with right := newNode })

/-- `remove_allocation`, before its loop: the left child takes the place of the node -/
def promoteLeft (h : Heap) (ctx : VmmContext) (allocation : ℕ) : Heap × VmmContext :=
  let a := h.nodes allocation
  let p := h.nodes a.parent
  if a.parent ≠ 0 then
    if p.left = allocation then (h.setNode a.parent { p with left := a.left }, ctx)
    else (h.setNode a.parent { p with right := a.left }, ctx)
  else (h, { ctx with allocations := a.left })

/-- `remove_allocation`; its loop reads through NULL if there is no left child -/
def removeAllocation (h : Heap) (ctx : VmmContext) (allocation : ℕ) : Except Fault (Heap × VmmContext) := do
  let (h, ctx) := promoteLeft h ctx allocation
  let node ← rightEnd h.node rounds (h.nodes allocation).left
  let h := h.setNode node { h.nodes node with right := (h.nodes allocation).right }
  .ok (h.kfree allocation, ctx)

/-! ## Mapping and unmapping -/

/-- `vmm_map_pages` -/
def vmmMapPages (h : Heap) (ctx : VmmContext) (virtualAddr physicalAddr pageCount flags : ℕ) :
    Except Fault (Heap × VmmContext × ℕ) :=
  let isUserspace : Bool := flags &&& pageFlagUser ≠ 0
  if ¬ pagingIsAligned virtualAddr then .error (.panic (.mapUnaligned virtualAddr))
  else if ¬ pagingIsAligned physicalAddr then .error (.panic (.mapToUnaligned physicalAddr))
  else if ctx.freeBlocks = 0 then .error (.panic .noFreeBlocks)
  else do
    let (h, ctx, addr) ← removeFreeBlocks A mi h ctx virtualAddr pageCount isUserspace
    let h ← addAllocation A h ctx ⟨addr, physicalAddr, pageCount, flags⟩
    .ok (h, ctx, addr)

/-- `vmm_unmap_pages`, at the allocation found: the page count is compared with the ADDRESS -/
def shrinkAllocation (h : Heap) (ctx : VmmContext) (pageCount node : ℕ) : Except Fault (Heap × VmmContext) :=
  let n := h.nodes node
  let a := n.alloc
  if pageCount < a.virtualAddr then
    .ok (h.setNode node { n with alloc := { a with
      virtualAddr := u32 (a.virtualAddr + pageSize * pageCount)
      pageCount := u32 (a.pageCount + 2 ^ 32 - pageCount) } }, ctx)
  else if pageCount = a.virtualAddr then removeAllocation h ctx node
  else .error (.panic .unmapTooMuch)

/-- the search in `vmm_unmap_pages` -/
def seekAllocation (h : Heap) (ctx : VmmContext) (virtualAddr : ℕ) : Except Fault (ℕ × ℕ) :=
  walk h.node (startDir virtualAddr) rounds ctx.allocations 0

/-- `vmm_unmap_pages` -/
def vmmUnmapPages (h : Heap) (ctx : VmmContext) (virtualAddr pageCount : ℕ) : Except Fault (Heap × VmmContext) :=
  if ¬ pagingIsAligned virtualAddr then .error (.panic (.unmapUnaligned virtualAddr))
  else do
    let (h, ctx) ← addFreeBlocks A mi h ctx virtualAddr pageCount
    let (node, _) ← seekAllocation h ctx virtualAddr
    if node = 0 then .error (.panic .allocationNotFound)
    else shrinkAllocation h ctx pageCount node

/-- `vmm_find_allocation`; the record is zero if there is none -/
def vmmFindAllocation (h : Heap) (ctx : VmmContext) (virtualAddr : ℕ) : Except Fault VmmAllocation := do
  let (node, _) ← walk h.node (findDir virtualAddr) rounds ctx.allocations 0
  .ok (if node = 0 then ⟨0, 0, 0, 0⟩ else (h.nodes node).alloc)

/-! ## New address spaces -/

/-- `create_empty_ctx` -/
def createEmptyCtx (h : Heap) : Except Fault (Heap × VmmContext) := do
  let (h, allocations) ← h.newNode A ⟨⟨0, 0, 0, 0⟩, 0, 0, 0⟩
  .ok (h, ⟨allocations, 0⟩)

/-- the loop of `vmm_new_context` over `ADDR_SPACE` -/
def mapAddrSpace : List AddrSpaceEntry → Heap → VmmContext → Except Fault (Heap × VmmContext)
  | [], h, ctx => .ok (h, ctx)
  | e :: es, h, ctx => do
    let (h, ctx, _) ← vmmMapPages A mi h ctx e.virtualStart e.physicalStart e.pageCount e.flags
    mapAddrSpace es h ctx

/-- `vmm_new_context` -/
def vmmNewContext (addrSpace : List AddrSpaceEntry) (h : Heap) : Except Fault (Heap × VmmContext) := do
  let (h, ctx) ← createEmptyCtx A h
  let totalPageCount := 2 ^ 32 / pageSize
  let userPageCount := mi.higherHalfBase / pageSize
  let kernelPageCount := totalPageCount - userPageCount
  let (h, ctx) ← addFreeBlocks A mi h ctx 0 userPageCount
  let (h, ctx) ← addFreeBlocks A mi h ctx mi.higherHalfBase kernelPageCount
  mapAddrSpace A mi addrSpace h ctx

end Code

end Gubos.Vmm
