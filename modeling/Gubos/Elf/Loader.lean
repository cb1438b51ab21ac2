/-
The ELF loader (`elf/loader.c`).

`handle_loadable_segment` loads a segment page by page. Each page is mapped in the kernel's context, the bytes of the file are
copied and the rest is set to zero through that mapping, the page is mapped in the task's context as well, and unmapped in the
kernel's. The stores go through the page tables of the current task: a page that is not present makes the page fault handler
run, and the access is made again. Kernel-mode stores do not look at the write flag (`CR0.WP` is clear).

The bytes of the file are given by a function; the file is in pages that nothing here writes. Bytes that stores write are kept
apart from the VMM's lists and trees, the bitmap and the page tables.

- `loadPage_spec`: what one page does to the two contexts, whatever their free areas are.
-/
import Gubos.Core.Loop
import Gubos.Mm.PageFault
import Gubos.Mm.Totality

namespace Gubos.Elf

open Gubos.Core Gubos.Paging Gubos.Vmm Gubos.Pmm Gubos.PageFault

/-! ## Program headers -/

/-- `ELF_PROG_HDR_TYPE_NULL`, `ELF_PROG_HDR_TYPE_LOAD`, `ELF_PROG_HDR_FLAG_W` -/
def elfProgHdrTypeNull : ℕ := 0
def elfProgHdrTypeLoad : ℕ := 1
def elfProgHdrFlagW : ℕ := 2

/-- `elf32_prog_hdr_t`, the fields that are read -/
structure ProgHdr where
  type : ℕ
  offset : ℕ
  vaddr : ℕ
  filesz : ℕ
  memsz : ℕ
  flags : ℕ
  vaddr_lt : vaddr < 2 ^ 32
  filesz_lt : filesz < 2 ^ 32
  memsz_lt : memsz < 2 ^ 32
deriving Repr

instance : DecidableEq ProgHdr := fun a b =>
  decidable_of_iff (a.type = b.type ∧ a.offset = b.offset ∧ a.vaddr = b.vaddr ∧ a.filesz = b.filesz ∧ a.memsz = b.memsz ∧
    a.flags = b.flags) (by cases a; cases b; simp)

/-- the program header at an offset of the file -/
def progHdrAt (rawElf : Mem) (offset : ℕ) : ProgHdr where
  type := load32 rawElf offset
  offset := load32 rawElf (offset + 4)
  vaddr := load32 rawElf (offset + 8)
  filesz := load32 rawElf (offset + 16)
  memsz := load32 rawElf (offset + 20)
  flags := load32 rawElf (offset + 24)
  vaddr_lt := load32_lt _ _
  filesz_lt := load32_lt _ _
  memsz_lt := load32_lt _ _

/-- `elf32_hdr_t`, the fields that `elf_load` reads -/
structure Hdr where
  phoff : ℕ
  phentsize : ℕ
  phnum : ℕ
deriving DecidableEq, Repr

/-- `elf_flags_to_paging_flags` -/
def elfFlagsToPagingFlags (flags : ℕ) : ℕ := if flags &&& elfProgHdrFlagW ≠ 0 then pageFlagWrite else 0

/-! ## Memory -/

/-- the kernel's memory: the VMM's heap, the bitmap of the PMM, the page tables, and bytes by physical address -/
structure Machine where
  heap : Heap
  bitmap : Bitmap
  tables : Tables
  memory : Mem

/-- `CURRENT_TASK.task`: its VMM context and its page tables, which are the active ones -/
structure Current where
  vmmContext : VmmContext
  pagingCtx : PagingContext
deriving DecidableEq, Repr

section Code

variable (A : Allocator) (mi : KernelMeminfo) (cur : Current)

/-- the physical address that a kernel-mode write to `addr` goes to; a page that is not present is a page fault -/
def access (m : Machine) (addr : ℕ) : Except Fault (Machine × ℕ) :=
  match walk mi m.tables cur.pagingCtx.pageDirectory addr with
  | some tr => .ok (m, tr.frame + addr % pageSize)
  | none => do
    let (bitmap, tables) ←
      pageFaultHandler mi ⟨m.heap, cur.vmmContext⟩ cur.pagingCtx m.bitmap m.tables addr 2
    match walk mi tables cur.pagingCtx.pageDirectory addr with
    | some tr => .ok ({ m with bitmap := bitmap, tables := tables }, tr.frame + addr % pageSize)
    | none => .error .diverges

def store (m : Machine) (addr : ℕ) (v : UInt8) : Except Fault Machine := do
  let (m, physicalAddr) ← access mi cur m addr
  .ok { m with memory := store8 m.memory physicalAddr v }

/-- `memcpy` from the file -/
def memcpy (m : Machine) (destination : ℕ) (source : ℕ → UInt8) (num : ℕ) : Except Fault Machine :=
  (List.range num).foldlM (fun m i => store mi cur m (u32 (destination + i)) (source i)) m

/-- `memset` -/
def memset (m : Machine) (ptr : ℕ) (value : UInt8) (num : ℕ) : Except Fault Machine :=
  (List.range num).foldlM (fun m i => store mi cur m (u32 (ptr + i)) value) m

/-! ## Segments -/

/-- the loop of `handle_loadable_segment`: the machine, the two contexts, and what is left of the file size -/
structure Loading where
  machine : Machine
  kernVmmCtx : VmmContext
  vmmCtx : VmmContext
  fileSize : ℕ

/-- the flags of the segment's pages -/
def segmentFlags (progHdr : ProgHdr) : ℕ := pageFlagPresent ||| pageFlagUser ||| elfFlagsToPagingFlags progHdr.flags

/-- the extra bytes are set to zero in the first page that the file does not fill; other pages use up the file size -/
def zeroRest (progHdr : ProgHdr) (m : Machine) (virtualAddr fileSize : ℕ) : Except Fault (Machine × ℕ) :=
  if fileSize < pageSize then
    if progHdr.filesz < progHdr.memsz then do
      let m ← memset mi cur m (u32 (virtualAddr + fileSize)) 0 (progHdr.memsz - progHdr.filesz)
      .ok (m, fileSize)
    else .ok (m, fileSize)
  else .ok (m, fileSize - pageSize)

/-- the body of the loop -/
def loadPage (kernPagingCtx : PagingContext) (progHdr : ProgHdr) (rawElf : Mem) (s : Loading) (i : ℕ) :
    Except Fault Loading := do
  let virtualAddr := u32 (progHdr.vaddr + i * pageSize)
  let alignedVaddr := pagingAlignAddr virtualAddr
  let (physicalAddr, bitmap) ← pmmAllocPage s.machine.bitmap
  let flags := segmentFlags progHdr
  let (heap, kernVmmCtx, _) ← vmmMapPages A mi s.machine.heap s.kernVmmCtx alignedVaddr physicalAddr 1 flags
  let m ← memcpy mi cur { s.machine with heap := heap, bitmap := bitmap } virtualAddr
    (fun k => rawElf (u32 (progHdr.offset + i * pageSize + k))) s.fileSize
  let (heap, vmmCtx, _) ← vmmMapPages A mi m.heap s.vmmCtx alignedVaddr physicalAddr 1 flags
  let (m, fileSize) ← zeroRest mi cur progHdr { m with heap := heap } virtualAddr s.fileSize
  let (heap, kernVmmCtx) ← vmmUnmapPages A mi m.heap kernVmmCtx alignedVaddr 1
  .ok ⟨{ m with heap := heap, tables := pagingUnmapAddr mi kernPagingCtx m.tables alignedVaddr }, kernVmmCtx, vmmCtx, fileSize⟩

/-- `handle_loadable_segment` -/
def handleLoadableSegment (kernPagingCtx : PagingContext) (progHdr : ProgHdr) (rawElf : Mem) (m : Machine)
    (kernVmmCtx vmmCtx : VmmContext) : Except Fault Loading :=
  let size := if progHdr.memsz < progHdr.filesz then progHdr.filesz else progHdr.memsz
  (List.range (pagingPageCount size)).foldlM (loadPage A mi cur kernPagingCtx progHdr rawElf)
    ⟨m, kernVmmCtx, vmmCtx, progHdr.filesz⟩

/-- the loop of `elf_load`, over `n` headers from header `i` on -/
def loadHeaders (kernPagingCtx : PagingContext) (header : Hdr) (rawElf : Mem) :
    ℕ → ℕ → Machine → VmmContext → VmmContext → Except Fault (Machine × VmmContext × VmmContext)
  | 0, _, m, kernVmmCtx, vmmCtx => .ok (m, kernVmmCtx, vmmCtx)
  | n + 1, i, m, kernVmmCtx, vmmCtx =>
    let progHdr := progHdrAt rawElf (u32 (header.phoff + i * header.phentsize))
    if progHdr.type = elfProgHdrTypeNull then .ok (m, kernVmmCtx, vmmCtx)
    else if progHdr.type = elfProgHdrTypeLoad then do
      let s ← handleLoadableSegment A mi cur kernPagingCtx progHdr rawElf m kernVmmCtx vmmCtx
      loadHeaders kernPagingCtx header rawElf n (i + 1) s.machine s.kernVmmCtx s.vmmCtx
    else .error (.panic (.unsupportedProgHdrType progHdr.type))

/-- `elf_load` -/
def elfLoad (kernPagingCtx : PagingContext) (header : Hdr) (rawElf : Mem) (m : Machine) (kernVmmCtx vmmCtx : VmmContext) :
    Except Fault (Machine × VmmContext × VmmContext) :=
  loadHeaders A mi cur kernPagingCtx header rawElf header.phnum 0 m kernVmmCtx vmmCtx

end Code

/-! ## Stores leave the contexts alone -/

section Stores

variable {mi : KernelMeminfo} {cur : Current} {m m' : Machine} {addr num : ℕ}

theorem access_heap {physicalAddr : ℕ} (hok : access mi cur m addr = .ok (m', physicalAddr)) : m'.heap = m.heap := by
  unfold access at hok
  split at hok
  · cases hok
    rfl
  · obtain ⟨⟨bitmap, tables⟩, _, hok⟩ := bind_ok.1 hok
    dsimp only at hok
    split at hok
    · cases hok
      rfl
    · cases hok

theorem store_heap {v : UInt8} (hok : store mi cur m addr v = .ok m') : m'.heap = m.heap := by
  obtain ⟨⟨m₁, physicalAddr⟩, haccess, hok⟩ := bind_ok.1 hok
  cases hok
  have hheap := access_heap haccess
  exact hheap

theorem memcpy_heap {source : ℕ → UInt8} (hok : memcpy mi cur m addr source num = .ok m') : m'.heap = m.heap :=
  foldlM_range_inv (P := fun _ m' => m'.heap = m.heap) rfl (fun _ _ _ _ hP hstore => (store_heap hstore).trans hP) hok

theorem memset_heap {v : UInt8} (hok : memset mi cur m addr v num = .ok m') : m'.heap = m.heap :=
  foldlM_range_inv (P := fun _ m' => m'.heap = m.heap) rfl (fun _ _ _ _ hP hstore => (store_heap hstore).trans hP) hok

theorem zeroRest_heap {progHdr : ProgHdr} {fileSize fileSize' : ℕ}
    (hok : zeroRest mi cur progHdr m addr fileSize = .ok (m', fileSize')) : m'.heap = m.heap := by
  unfold zeroRest at hok
  split_ifs at hok
  · obtain ⟨m₁, hset, hok⟩ := bind_ok.1 hok
    cases hok
    exact memset_heap hset
  · cases hok
    rfl
  · cases hok
    rfl

end Stores

/-! ## One page -/

/-- the two contexts are in cells of their own -/
structure Both (s : Loading) (lk : List (ℕ × Area)) (tk : BinaryTree (ℕ × VmmAllocation)) (lu : List (ℕ × Area))
    (tu : BinaryTree (ℕ × VmmAllocation)) : Prop where
  kern : Rep s.machine.heap s.kernVmmCtx lk tk
  task : Rep s.machine.heap s.vmmCtx lu tu
  apart : ∀ p ∈ own lu tu, p ∉ own lk tk

/-- the page that the `i`-th round loads -/
def pageAt (progHdr : ProgHdr) (i : ℕ) : ℕ := pagingAlignAddr (u32 (progHdr.vaddr + i * pageSize))

section Page

variable {A : Allocator} {mi : KernelMeminfo} {cur : Current} {kernPagingCtx : PagingContext} {progHdr : ProgHdr}
  {rawElf : Mem} {s s' : Loading} {i : ℕ} {lk lu : List (ℕ × Area)} {tk tu : BinaryTree (ℕ × VmmAllocation)}

/-- a block of one page that contains a page starts at it -/
theorem fitOk_page {l : List (ℕ × Area)} {va flags : ℕ} (hf : FreeOk l) (hva : va % pageSize = 0) (h0 : va ≠ 0) :
    FitOk mi l va 1 flags := by
  intro c hc hone
  have hcl := List.mem_of_find?_eq_some hc
  have hsuit := List.find?_some hc
  have hal := (hf.area c hcl).aligned
  simp only [suits, isAddrInRange, Bool.and_eq_true, Bool.or_eq_true, decide_eq_true_eq] at hsuit
  rcases hsuit.1 with hzero | hin
  · exact absurd hzero.1 h0
  · rw [hone] at hin
    simp only [pageSize] at hal hva hin
    omega

/-- a page that is mapped was free, and is not any more -/
theorem map_page_free {h h' : Heap} {ctx ctx' : VmmContext} {l l' : List (ℕ × Area)}
    {t t' : BinaryTree (ℕ × VmmAllocation)} {va pa flags r : ℕ} (hr : Rep h ctx l t) (hf : FreeOk l) (h0 : va ≠ 0)
    (hok : vmmMapPages A mi h ctx va pa 1 flags = .ok (h', ctx', r)) (hr' : Rep h' ctx' l' t') :
    FreeOk l' ∧ ∀ x, freeCover l x = freeCover l' x + Tiling.hit (va / pageSize, 1) x := by
  have hva := (map_frame hr hok).1
  obtain ⟨l₁, c, l₂, m, _, rfl, hcut, haddr, hrep, _⟩ := map_cases hr hf hva (fitOk_page hf hva h0) hok
  obtain rfl := hr'.list.unique hrep.list hr'.list.ne_zero hrep.list.ne_zero
  rw [haddr h0] at hcut
  exact ⟨hf.refine hcut.ok hcut.inside, fun x => (hcut.cover x).symm⟩

theorem pageAt_area (progHdr : ProgHdr) (i : ℕ) : AreaOk ⟨pageAt progHdr i, 1⟩ := by
  have hlt := u32_lt (progHdr.vaddr + i * pageSize)
  unfold pageAt pagingAlignAddr
  refine ⟨Nat.mul_mod_left _ _, Nat.one_pos, ?_⟩
  simp only [pageSize] at hlt ⊢
  omega

/-- what one page does to the task's free list and to the two trees: it is not page 0; both contexts get its record, and in
the kernel's the node that is found at its address moves on -/
structure PageLoaded (va flags : ℕ) (lu : List (ℕ × Area)) (tk tu : BinaryTree (ℕ × VmmAllocation)) (lu' : List (ℕ × Area))
    (tk' tu' : BinaryTree (ℕ × VmmAllocation)) : Prop where
  ne_zero : va ≠ 0
  aligned : va % pageSize = 0
  free : FreeOk lu → FreeOk lu' ∧ ∀ x, freeCover lu x = freeCover lu' x + Tiling.hit (va / pageSize, 1) x
  trees : ∃ pa tk₁ c, Grown tk ⟨va, pa, 1, flags⟩ tk₁ ∧ Grown tu ⟨va, pa, 1, flags⟩ tu' ∧ (ptrs (cells tk₁)).Nodup ∧
    descend (startDir va) tk₁ = some c ∧ c.2.virtualAddr = va ∧ tk' = tk₁.map (setCell c.1 (shrunk c.2 1))

/-- **One page.** -/
theorem loadPage_spec (hb : Both s lk tk lu tu) (hok : loadPage A mi cur kernPagingCtx progHdr rawElf s i = .ok s') :
    ∃ lk' tk' lu' tu', Both s' lk' tk' lu' tu' ∧
      PageLoaded (pageAt progHdr i) (segmentFlags progHdr) lu tk tu lu' tk' tu' ∧
      (FreeOk lk → ∀ x, x % pageSize = 0 → x / pageSize ≠ pageAt progHdr i / pageSize → Free lk (x / pageSize) → Offers lk' x) ∧
      ∃ pa bm, pmmAllocPage s.machine.bitmap = .ok (pa, bm) ∧ Grown tu ⟨pageAt progHdr i, pa, 1, segmentFlags progHdr⟩ tu' := by
  obtain ⟨⟨pa, bitmap⟩, hpmm, hok⟩ := bind_ok.1 hok
  obtain ⟨⟨h₁, kern₁, r₁⟩, hkern, hok⟩ := bind_ok.1 hok
  obtain ⟨m₁, hcopy, hok⟩ := bind_ok.1 hok
  obtain ⟨⟨h₂, task₂, r₂⟩, htask, hok⟩ := bind_ok.1 hok
  obtain ⟨⟨m₂, fileSize⟩, hzero, hok⟩ := bind_ok.1 hok
  obtain ⟨⟨h₃, kern₃⟩, hunmap, hok⟩ := bind_ok.1 hok
  cases hok
  have hcopy := memcpy_heap hcopy
  have hzero := zeroRest_heap hzero
  dsimp only at hkern hcopy htask hzero hunmap
  rw [hcopy] at htask
  rw [hzero] at hunmap
  -- the kernel's context
  obtain ⟨hva, _, haddr₁, lk₁, tk₁, hk₁, hgrown₁, hf₁⟩ := map_frame hb.kern hkern
  obtain ⟨hu₁, hapart₁⟩ := hb.task.frame hf₁ hb.apart
  -- the task's context
  obtain ⟨_, _, haddr₂, lu', tu', hu₂, hgrown₂, hf₂⟩ := map_frame hu₁ htask
  obtain ⟨hk₂, hapart₂⟩ := hk₁.frame hf₂ fun p hp hp' => hapart₁ p hp' hp
  -- the kernel's again
  obtain ⟨hne, c, lk', hfound, hcva, hk₃, hf₃⟩ := @unmap_frame A mi ⟨h₂, kern₁⟩ ⟨h₃, kern₃⟩ lk₁ tk₁ _ hk₂ hva
    (bind_ok.2 ⟨(h₃, kern₃), hunmap, rfl⟩)
  obtain ⟨hu₃, hapart₃⟩ := hu₂.frame hf₃ fun p hp hp' => hapart₂ p hp' hp
  rw [haddr₁ hne] at hgrown₁
  rw [haddr₂ hne] at hgrown₂
  refine ⟨lk', _, lu', tu', ⟨hk₃, hu₃, hapart₃⟩, ⟨hne, hva, fun hf => map_page_free hu₁ hf hne htask hu₂, ?_⟩, ?_,
    pa, bitmap, hpmm, hgrown₂⟩
  · exact ⟨pa, tk₁, c, hgrown₁, hgrown₂, hk₁.nodup_tree, hfound, hcva, rfl⟩
  · intro hf x hx hpage hfree
    obtain ⟨hf₁, hcover⟩ := map_page_free hb.kern hf hne hkern hk₁
    have hhit : Tiling.hit (pageAt progHdr i / pageSize, 1) (pageAt progHdr i / pageSize) = 1 :=
      Tiling.hit_of_mem le_rfl (Nat.lt_succ_self _)
    have hself : freeCover lk (pageAt progHdr i / pageSize) = _ + Tiling.hit (pageAt progHdr i / pageSize, 1) _ := hcover _
    rw [hhit] at hself
    have hle := hf.cover_le_one (pageAt progHdr i / pageSize)
    refine unmap_keeps hk₂ hf₁ (pageAt_area progHdr i) (fun hused => ?_) hunmap hk₃ hx ?_
    · have hpos : 0 < freeCover lk₁ (pageAt progHdr i / pageSize) := hused
      omega
    · have hother : Tiling.hit (pageAt progHdr i / pageSize, 1) (x / pageSize) = 0 := by
        rw [Tiling.hit_eq, if_neg (by dsimp only; omega)]
      have hsame : freeCover lk (x / pageSize) = _ + Tiling.hit (pageAt progHdr i / pageSize, 1) _ := hcover _
      rw [hother] at hsame
      unfold Free at hfree ⊢
      omega

/-- pages that are not page 0 follow each other without wrapping -/
theorem pageAt_eq (hi : progHdr.vaddr / pageSize + i < 2 ^ 20) :
    pageAt progHdr i = (progHdr.vaddr / pageSize + i) * pageSize := by
  have := progHdr.vaddr_lt
  unfold pageAt pagingAlignAddr u32
  simp only [pageSize] at hi ⊢
  omega

theorem pageAt_zero (hi : progHdr.vaddr / pageSize + i = 2 ^ 20) : pageAt progHdr i = 0 := by
  have := progHdr.vaddr_lt
  unfold pageAt pagingAlignAddr u32
  simp only [pageSize] at hi ⊢
  omega

end Page

/-! ### A concrete machine -/

section Concrete

/-- a kernel context in which page 0x401000 is mapped -/
def kernel : Heap × VmmContext × ℕ :=
  returned (emptyHeap, ⟨0, 0⟩, 0) (vmmMapPages .top .atOneMegabyte fresh.1 fresh.2 0x401000 0x800000 1 3)

/-- and a new context in the same heap -/
def task : Heap × VmmContext := returned (emptyHeap, ⟨0, 0⟩) (vmmNewContext .top .atOneMegabyte entries kernel.1)

def machine : Machine := ⟨task.1, someUsed, blank, fun _ => 0⟩

def current : Current := ⟨kernel.2.1, context⟩

def kernelList : List (ℕ × Area) := listOf ⟨task.1, kernel.2.1⟩
def kernelTree : BinaryTree (ℕ × VmmAllocation) := treeOf ⟨task.1, kernel.2.1⟩
def taskList : List (ℕ × Area) := listOf ⟨task.1, task.2⟩
def taskTree : BinaryTree (ℕ × VmmAllocation) := treeOf ⟨task.1, task.2⟩

theorem both_machine (fileSize : ℕ) :
    Both ⟨machine, kernel.2.1, task.2, fileSize⟩ kernelList kernelTree taskList taskTree := by
  have hk : Shape ⟨task.1, kernel.2.1⟩ kernelList kernelTree := by decide +kernel
  have ht : Shape ⟨task.1, task.2⟩ taskList taskTree := by decide +kernel
  have hkern : Rep task.1 kernel.2.1 kernelList kernelTree := ⟨hk.list, hk.tree, by decide +kernel, by decide +kernel⟩
  have htask : Rep task.1 task.2 taskList taskTree := ⟨ht.list, ht.tree, by decide +kernel, by decide +kernel⟩
  exact ⟨hkern, htask, by decide +kernel⟩

/-- a new context beside a kernel context -/
def newTask : Heap × VmmContext := returned (emptyHeap, ⟨0, 0⟩) (vmmNewContext .top .atOneMegabyte entries fresh.1)

def newMachine : Machine := ⟨newTask.1, someUsed, blank, fun _ => 0⟩

def newKernelList : List (ℕ × Area) := listOf ⟨newTask.1, fresh.2⟩
def newKernelTree : BinaryTree (ℕ × VmmAllocation) := treeOf ⟨newTask.1, fresh.2⟩
def newTaskList : List (ℕ × Area) := listOf ⟨newTask.1, newTask.2⟩
def newTaskTree : BinaryTree (ℕ × VmmAllocation) := treeOf ⟨newTask.1, newTask.2⟩

theorem both_new (fileSize : ℕ) :
    Both ⟨newMachine, fresh.2, newTask.2, fileSize⟩ newKernelList newKernelTree newTaskList newTaskTree := by
  have hk : Shape ⟨newTask.1, fresh.2⟩ newKernelList newKernelTree := by decide +kernel
  have ht : Shape ⟨newTask.1, newTask.2⟩ newTaskList newTaskTree := by decide +kernel
  have hkern : Rep newTask.1 fresh.2 newKernelList newKernelTree := ⟨hk.list, hk.tree, by decide +kernel, by decide +kernel⟩
  have htask : Rep newTask.1 newTask.2 newTaskList newTaskTree := ⟨ht.list, ht.tree, by decide +kernel, by decide +kernel⟩
  exact ⟨hkern, htask, by decide +kernel⟩

def newCurrent : Current := ⟨fresh.2, context⟩

theorem newKernelList_ok : FreeOk newKernelList := by
  have hal : ∀ c ∈ newKernelList, c.2.virtualAddr % pageSize = 0 := by decide +kernel
  have hpos : ∀ c ∈ newKernelList, 0 < c.2.pageCount := by decide +kernel
  have hfits : ∀ c ∈ newKernelList, c.2.virtualAddr + c.2.pageCount * pageSize ≤ 2 ^ 32 := by decide +kernel
  exact ⟨fun c hc => ⟨hal c hc, hpos c hc, hfits c hc⟩, by decide +kernel⟩

theorem newTaskList_ok : FreeOk newTaskList := by
  have hal : ∀ c ∈ newTaskList, c.2.virtualAddr % pageSize = 0 := by decide +kernel
  have hpos : ∀ c ∈ newTaskList, 0 < c.2.pageCount := by decide +kernel
  have hfits : ∀ c ∈ newTaskList, c.2.virtualAddr + c.2.pageCount * pageSize ≤ 2 ^ 32 := by decide +kernel
  exact ⟨fun c hc => ⟨hal c hc, hpos c hc, hfits c hc⟩, by decide +kernel⟩

end Concrete

end Gubos.Elf
