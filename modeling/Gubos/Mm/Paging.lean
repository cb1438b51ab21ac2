/-
Page directories and page tables (`mm/paging.c`), and the two-level walk of the processor.

A `page_table_t` is 1024 entries; directories and tables are named by their virtual addresses, and `tables + i` is the i-th
element of an array of them. The kernel reaches a table by its virtual address, the walk by the physical address in the
directory entry: the two differ by `higher_half_base`.

`paging_map_virtual_to_physical` writes the flags of its page into the table entry AND into the directory entry, which 1024
pages share. The walk grants what both entries grant.

- `directory_entry`, `table_entry`: after any calls a directory entry has the flags of the last call in its 4 MB, and a
  table entry the frame and flags of the last call for its page;
- `walk_mapAll`: what the walk therefore finds, and `processorWalk_mapAll`: so does the processor, which reads frames;
- `permissions_independent`: every page has the translation and permissions of its last call exactly when, in every
  4 MB region, the last call grants what the last calls for the region's pages grant;
- `kernel_page_hides_user_page`: mapping a kernel page takes the user permission from a user page next to it.

Premise (`Placed`): the tables are an aligned array in the address space, the directory is not one of them, and
`higher_half_base` is aligned.
-/
import Gubos.Core.Bytes
import Gubos.Layout

namespace Gubos.Paging

open Gubos.Core

/-! ## The code -/

/-- `PAGE_DIRECTORY_INDEX`, `PAGE_TABLE_INDEX` -/
def pageDirectoryIndex (vaddr : ℕ) : ℕ := vaddr >>> 22
def pageTableIndex (vaddr : ℕ) : ℕ := (vaddr >>> 12) &&& 1023

/-- `PAGE_TABLE_SIZE` -/
def pageTableSize : ℕ := 1024

/-- the `page_table_t` objects by address, each with its entries -/
abbrev Tables := ℕ → ℕ → ℕ

def setEntry (mem : Tables) (table i v : ℕ) : Tables := Function.update mem table (Function.update (mem table) i v)

/-- `paging_context_t` -/
structure PagingContext where
  pageDirectory : ℕ
  pageTables : ℕ
deriving DecidableEq, Repr

/-- `vmm_virtual_to_physical`, `vmm_physical_to_virtual` -/
def vmmVirtualToPhysical (mi : KernelMeminfo) (addr : ℕ) : ℕ := u32 (addr + 2 ^ 32 - mi.higherHalfBase)
def vmmPhysicalToVirtual (mi : KernelMeminfo) (addr : ℕ) : ℕ := u32 (addr + mi.higherHalfBase)

/-- `paging_ctx.page_tables + i`; an element has the size of a page -/
def PagingContext.table (ctx : PagingContext) (i : ℕ) : ℕ := u32 (ctx.pageTables + i * pageSize)

/-- `paging_map_virtual_to_physical` -/
def pagingMapVirtualToPhysical (mi : KernelMeminfo) (ctx : PagingContext) (mem : Tables) (virtualAddr physicalAddr flags : ℕ) :
    Tables :=
  let pageTable := ctx.table (pageDirectoryIndex virtualAddr)
  let pageTableAddr := vmmVirtualToPhysical mi pageTable
  let pageStartAddr := (physicalAddr >>> 12) <<< 12
  let mem := setEntry mem ctx.pageDirectory (pageDirectoryIndex virtualAddr) (pageTableAddr ||| flags)
  setEntry mem pageTable (pageTableIndex virtualAddr) (pageStartAddr ||| flags)

/-- `paging_unmap_addr` -/
def pagingUnmapAddr (mi : KernelMeminfo) (ctx : PagingContext) (mem : Tables) (virtualAddr : ℕ) : Tables :=
  let pageTable := ctx.table (pageDirectoryIndex virtualAddr)
  let pageTableAddr := vmmVirtualToPhysical mi pageTable
  let mem := setEntry mem ctx.pageDirectory (pageDirectoryIndex virtualAddr) pageTableAddr
  setEntry mem pageTable (pageTableIndex virtualAddr) 0

/-- `paging_page_count`, in 32 bits -/
def pagingPageCount (size : ℕ) : ℕ := u32 (size + pageSize - 1) / pageSize

/-- `paging_align_addr` -/
def pagingAlignAddr (addr : ℕ) : ℕ := addr / pageSize * pageSize

/-- `paging_is_aligned` -/
def pagingIsAligned (addr : ℕ) : Bool := addr &&& (pageSize - 1) = 0

/-! ## The walk -/

/-- what the walk finds: the frame, and whether writes and user-mode accesses are allowed -/
structure Translation where
  frame : ℕ
  write : Bool
  user : Bool
deriving DecidableEq, Repr

/-- bits 0, 1 and 2 of an entry, and the address in its upper 20 bits -/
def present (entry : ℕ) : Bool := entry.testBit 0
def writable (entry : ℕ) : Bool := entry.testBit 1
def userAccess (entry : ℕ) : Bool := entry.testBit 2
def frameOf (entry : ℕ) : ℕ := entry / pageSize * pageSize

/-- the two-level walk, with the table of a directory entry read where the kernel has it: not present at either level is
`none`, and the permissions are those of both entries. `walk_eq_processorWalk`: this is the processor's walk where the
directory entry leads to a table of the context, as those that `paging_map_virtual_to_physical` writes do -/
def walk (mi : KernelMeminfo) (mem : Tables) (pageDirectory virtualAddr : ℕ) : Option Translation :=
  let pde := mem pageDirectory (pageDirectoryIndex virtualAddr)
  if present pde then
    let pte := mem (vmmPhysicalToVirtual mi (frameOf pde)) (pageTableIndex virtualAddr)
    if present pte then some ⟨frameOf pte, writable pde && writable pte, userAccess pde && userAccess pte⟩ else none
  else none

/-- the walk of the processor, over physical memory: the directory is in frame `cr3`, the table in the frame of the
directory entry -/
def processorWalk (frames : ℕ → ℕ → ℕ) (cr3 virtualAddr : ℕ) : Option Translation :=
  let pde := frames cr3 (pageDirectoryIndex virtualAddr)
  if present pde then
    let pte := frames (frameOf pde) (pageTableIndex virtualAddr)
    if present pte then some ⟨frameOf pte, writable pde && writable pte, userAccess pde && userAccess pte⟩ else none
  else none

/-- physical memory: the directory of the context is in `frame`, its tables are where `vmm_virtual_to_physical` says, and
`others` is in every other frame -/
def contents (mi : KernelMeminfo) (ctx : PagingContext) (frame : ℕ) (others : ℕ → ℕ → ℕ) (mem : Tables) (f : ℕ) : ℕ → ℕ :=
  if f = frame then mem ctx.pageDirectory
  else if ∃ i < pageTableSize, f = vmmVirtualToPhysical mi (ctx.table i) then mem (vmmPhysicalToVirtual mi f)
  else others f

/-! ## Entries and indices -/

theorem pageDirectoryIndex_eq (va : ℕ) : pageDirectoryIndex va = va / 4194304 := Nat.shiftRight_eq_div_pow va 22

theorem pageTableIndex_eq (va : ℕ) : pageTableIndex va = va / 4096 % 1024 := by
  unfold pageTableIndex
  rw [Nat.shiftRight_eq_div_pow, show 1023 = 2 ^ 10 - 1 by norm_num, Nat.and_two_pow_sub_one_eq_mod]

theorem pagingAlignAddr_le (addr : ℕ) : pagingAlignAddr addr ≤ addr := Nat.div_mul_le_self _ _

theorem pagingAlignAddr_div (addr : ℕ) : pagingAlignAddr addr / pageSize = addr / pageSize := by
  unfold pagingAlignAddr
  exact Nat.mul_div_cancel _ (by decide)

/-- an address and its page are in the same 4 MB -/
theorem pageDirectoryIndex_align (addr : ℕ) : pageDirectoryIndex (pagingAlignAddr addr) = pageDirectoryIndex addr := by
  rw [pageDirectoryIndex_eq, pageDirectoryIndex_eq]
  unfold pagingAlignAddr pageSize
  omega

theorem pagingIsAligned_iff (addr : ℕ) : pagingIsAligned addr = true ↔ addr % pageSize = 0 := by
  unfold pagingIsAligned pageSize
  rw [decide_eq_true_eq, show 4096 - 1 = 2 ^ 12 - 1 by norm_num, Nat.and_two_pow_sub_one_eq_mod]

theorem pageStart_eq (pa : ℕ) : (pa >>> 12) <<< 12 = pa / pageSize * pageSize := by
  rw [Nat.shiftRight_eq_div_pow, Nat.shiftLeft_eq]
  rfl

/-- an aligned address and flags below 4096 do not overlap -/
theorem or_flags {a f : ℕ} (ha : a % pageSize = 0) (hf : f < 4096) : a ||| f = a + f := by
  obtain ⟨k, rfl⟩ := Nat.dvd_of_mod_eq_zero ha
  exact (Nat.two_pow_add_eq_or_of_lt (show f < 2 ^ 12 from hf) k).symm

theorem frameOf_or {a f : ℕ} (ha : a % pageSize = 0) (hf : f < 4096) : frameOf (a ||| f) = a := by
  rw [or_flags ha hf]
  unfold frameOf pageSize at *
  omega

theorem testBit_or_flags {a f i : ℕ} (ha : a % pageSize = 0) (hi : i < 12) : (a ||| f).testBit i = f.testBit i := by
  obtain ⟨k, rfl⟩ := Nat.dvd_of_mod_eq_zero ha
  have h : (pageSize * k).testBit i = false := by
    rw [show pageSize * k = 2 ^ 12 * k from rfl, Nat.testBit_two_pow_mul]
    simp [hi]
  rw [Nat.testBit_or, h, Bool.false_or]

theorem setEntry_self (mem : Tables) (table i v : ℕ) : setEntry mem table i v table i = v := by
  unfold setEntry
  rw [Function.update_self, Function.update_self]

theorem setEntry_of_ne {mem : Tables} {table i t j : ℕ} (v : ℕ) (h : t ≠ table ∨ j ≠ i) :
    setEntry mem table i v t j = mem t j := by
  unfold setEntry
  by_cases ht : t = table
  · subst ht
    rw [Function.update_self, Function.update_of_ne (h.resolve_left (by simp))]
  · rw [Function.update_of_ne ht]

theorem vmmPhysicalToVirtual_virtualToPhysical (mi : KernelMeminfo) {addr : ℕ} (h : addr < 2 ^ 32) :
    vmmPhysicalToVirtual mi (vmmVirtualToPhysical mi addr) = addr := by
  have := mi.higherHalfBase_lt
  unfold vmmPhysicalToVirtual vmmVirtualToPhysical u32
  omega

theorem vmmVirtualToPhysical_inj (mi : KernelMeminfo) {a b : ℕ} (ha : a < 2 ^ 32) (hb : b < 2 ^ 32)
    (h : vmmVirtualToPhysical mi a = vmmVirtualToPhysical mi b) : a = b := by
  rw [← vmmPhysicalToVirtual_virtualToPhysical mi ha, h, vmmPhysicalToVirtual_virtualToPhysical mi hb]

/-! ## Where the tables are -/

/-- the page tables are an aligned array of 1024 in the address space, the directory is not one of them -/
structure Placed (mi : KernelMeminfo) (ctx : PagingContext) : Prop where
  base : mi.higherHalfBase % pageSize = 0
  aligned : ctx.pageTables % pageSize = 0
  fits : ctx.pageTables + pageTableSize * pageSize ≤ 2 ^ 32
  apart : ctx.pageDirectory < ctx.pageTables ∨ ctx.pageTables + pageTableSize * pageSize ≤ ctx.pageDirectory

instance (mi : KernelMeminfo) (ctx : PagingContext) : Decidable (Placed mi ctx) :=
  decidable_of_iff (mi.higherHalfBase % pageSize = 0 ∧ ctx.pageTables % pageSize = 0 ∧
      ctx.pageTables + pageTableSize * pageSize ≤ 2 ^ 32 ∧
      (ctx.pageDirectory < ctx.pageTables ∨ ctx.pageTables + pageTableSize * pageSize ≤ ctx.pageDirectory))
    ⟨fun ⟨h1, h2, h3, h4⟩ => ⟨h1, h2, h3, h4⟩, fun h => ⟨h.base, h.aligned, h.fits, h.apart⟩⟩

section Placed

variable {mi : KernelMeminfo} {ctx : PagingContext} {i j : ℕ}

theorem Placed.table_eq (h : Placed mi ctx) (hi : i < 1024) : ctx.table i = ctx.pageTables + i * 4096 := by
  have := h.fits
  unfold PagingContext.table pageTableSize pageSize at *
  exact u32_of_lt (by omega)

theorem Placed.table_lt (h : Placed mi ctx) (hi : i < 1024) : ctx.table i < 2 ^ 32 := by
  have := h.fits
  rw [h.table_eq hi]
  unfold pageTableSize pageSize at this
  omega

theorem Placed.table_inj (h : Placed mi ctx) (hi : i < 1024) (hj : j < 1024) (he : ctx.table i = ctx.table j) :
    i = j := by
  rw [h.table_eq hi, h.table_eq hj] at he
  omega

theorem Placed.directory_ne (h : Placed mi ctx) (hi : i < 1024) : ctx.pageDirectory ≠ ctx.table i := by
  have := h.apart
  rw [h.table_eq hi]
  unfold pageTableSize pageSize at this
  omega

theorem table_congr {ctx' : PagingContext} (h : ctx'.pageTables = ctx.pageTables) (i : ℕ) : ctx'.table i = ctx.table i := by
  unfold PagingContext.table
  rw [h]

/-- a directory is none of the tables of a context that shares them -/
theorem Placed.directory_ne_shared {ctx' : PagingContext} (h : Placed mi ctx) (hs : ctx'.pageTables = ctx.pageTables)
    (hi : i < 1024) : ctx.pageDirectory ≠ ctx'.table i := by
  rw [table_congr hs]
  exact h.directory_ne hi

/-- the frame of a directory that is where `vmm_virtual_to_physical` says is not that of a table -/
theorem Placed.directory_frame_ne (h : Placed mi ctx) (hd : ctx.pageDirectory < 2 ^ 32) (i : ℕ) (hi : i < pageTableSize) :
    vmmVirtualToPhysical mi ctx.pageDirectory ≠ vmmVirtualToPhysical mi (ctx.table i) :=
  fun he => h.directory_ne hi (vmmVirtualToPhysical_inj mi hd (h.table_lt hi) he)

/-- the comment in the code: the physical address of a table has room for the flags -/
theorem Placed.table_aligned (h : Placed mi ctx) (hi : i < 1024) :
    vmmVirtualToPhysical mi (ctx.table i) % pageSize = 0 := by
  have h1 := h.base
  have h2 := h.aligned
  have h3 := mi.higherHalfBase_lt
  rw [h.table_eq hi]
  unfold vmmVirtualToPhysical u32 pageSize at *
  omega

theorem pageDirectoryIndex_lt {va : ℕ} (h : va < 2 ^ 32) : pageDirectoryIndex va < 1024 := by
  rw [pageDirectoryIndex_eq]
  omega

variable (mem : Tables) {va : ℕ} (pa flags : ℕ)

/-- one call: the directory -/
theorem map_directory (h : Placed mi ctx) (hva : va < 2 ^ 32) (d : ℕ) :
    pagingMapVirtualToPhysical mi ctx mem va pa flags ctx.pageDirectory d =
      if d = pageDirectoryIndex va then vmmVirtualToPhysical mi (ctx.table d) ||| flags
      else mem ctx.pageDirectory d := by
  unfold pagingMapVirtualToPhysical
  rw [setEntry_of_ne _ (Or.inl (h.directory_ne (pageDirectoryIndex_lt hva)))]
  split_ifs with hd
  · rw [hd, setEntry_self]
  · rw [setEntry_of_ne _ (Or.inr hd)]

/-- one call: the tables -/
theorem map_table (h : Placed mi ctx) (hva : va < 2 ^ 32) {d : ℕ} (hd : d < 1024) (t : ℕ) :
    pagingMapVirtualToPhysical mi ctx mem va pa flags (ctx.table d) t =
      if d = pageDirectoryIndex va ∧ t = pageTableIndex va then pa / pageSize * pageSize ||| flags
      else mem (ctx.table d) t := by
  unfold pagingMapVirtualToPhysical
  rw [pageStart_eq]
  have hdir : ∀ v, setEntry mem ctx.pageDirectory (pageDirectoryIndex va) v (ctx.table d) t = mem (ctx.table d) t :=
    fun v => setEntry_of_ne v (Or.inl (Ne.symm (h.directory_ne hd)))
  split_ifs with ht
  · rw [ht.1, ht.2, setEntry_self]
  · rw [setEntry_of_ne, hdir]
    by_contra hc
    rw [not_or, not_not, not_not] at hc
    exact ht ⟨h.table_inj hd (pageDirectoryIndex_lt hva) hc.1, hc.2⟩

end Placed

/-! ## The processor's walk -/

section Contents

variable {mi : KernelMeminfo} {ctx : PagingContext} {frame : ℕ} {others : ℕ → ℕ → ℕ} {mem : Tables}

theorem contents_directory : contents mi ctx frame others mem frame = mem ctx.pageDirectory := if_pos rfl

theorem contents_table (h : Placed mi ctx) (hframe : ∀ i < pageTableSize, frame ≠ vmmVirtualToPhysical mi (ctx.table i))
    {i : ℕ} (hi : i < pageTableSize) :
    contents mi ctx frame others mem (vmmVirtualToPhysical mi (ctx.table i)) = mem (ctx.table i) := by
  unfold contents
  rw [if_neg (hframe i hi).symm, if_pos ⟨i, hi, rfl⟩, vmmPhysicalToVirtual_virtualToPhysical mi (h.table_lt hi)]

theorem contents_other {f : ℕ} (hdir : f ≠ frame) (htab : ∀ i < pageTableSize, f ≠ vmmVirtualToPhysical mi (ctx.table i)) :
    contents mi ctx frame others mem f = others f := by
  unfold contents
  rw [if_neg hdir, if_neg fun ⟨i, hi, h⟩ => htab i hi h]

/-- **The walk is that of the processor**, whatever the other frames hold, where a present directory entry leads to a
table of the context. -/
theorem walk_eq_processorWalk (h : Placed mi ctx)
    (hframe : ∀ i < pageTableSize, frame ≠ vmmVirtualToPhysical mi (ctx.table i)) {va : ℕ}
    (hlead : present (mem ctx.pageDirectory (pageDirectoryIndex va)) = true →
      ∃ i < pageTableSize, frameOf (mem ctx.pageDirectory (pageDirectoryIndex va)) = vmmVirtualToPhysical mi (ctx.table i)) :
    walk mi mem ctx.pageDirectory va = processorWalk (contents mi ctx frame others mem) frame va := by
  unfold walk processorWalk
  simp only [contents_directory]
  cases hpde : present (mem ctx.pageDirectory (pageDirectoryIndex va)) with
  | false => rfl
  | true =>
    obtain ⟨i, hi, hi'⟩ := hlead hpde
    rw [hi', contents_table h hframe hi, vmmPhysicalToVirtual_virtualToPhysical mi (h.table_lt hi)]

end Contents

/-! ## Sequences of calls -/

/-- the arguments of a call with `PAGE_FLAG_PRESENT`, and the write and user flags or not -/
structure MapCall where
  virtualAddr : ℕ
  physicalAddr : ℕ
  flags : ℕ
  virtualAddr_lt : virtualAddr < 2 ^ 32
  physicalAddr_lt : physicalAddr < 2 ^ 32
  flags_lt : flags < 8
  flags_present : flags.testBit 0 = true

/-- the call grants writes, user-mode accesses -/
def MapCall.write (c : MapCall) : Bool := c.flags &&& pageFlagWrite ≠ 0
def MapCall.user (c : MapCall) : Bool := c.flags &&& pageFlagUser ≠ 0

def MapCall.apply (mi : KernelMeminfo) (ctx : PagingContext) (mem : Tables) (c : MapCall) : Tables :=
  pagingMapVirtualToPhysical mi ctx mem c.virtualAddr c.physicalAddr c.flags

def mapAll (mi : KernelMeminfo) (ctx : PagingContext) (mem : Tables) (calls : List MapCall) : Tables :=
  calls.foldl (MapCall.apply mi ctx) mem

/-- the last of the calls that meets `P` -/
def lastCall (P : MapCall → Bool) (calls : List MapCall) : Option MapCall := calls.reverse.find? P

/-- calls in the 4 MB of `va`, and calls for its page -/
def inRegion (va : ℕ) (c : MapCall) : Bool := pageDirectoryIndex c.virtualAddr = pageDirectoryIndex va
def forPage (va : ℕ) (c : MapCall) : Bool := c.virtualAddr / pageSize = va / pageSize

/-- what the last call for the page of `va` asks for -/
def requested (calls : List MapCall) (va : ℕ) : Option Translation :=
  (lastCall (forPage va) calls).map fun c => ⟨c.physicalAddr / pageSize * pageSize, c.write, c.user⟩

/-- in every region below the last the last call grants what the last calls for the region's pages grant -/
def RegionGrants (calls : List MapCall) : Prop :=
  ∀ va < 0xFFC00000, ∀ c d, lastCall (forPage va) calls = some c → lastCall (inRegion va) calls = some d →
    (c.write = true → d.write = true) ∧ (c.user = true → d.user = true)

/-- directory and tables start zeroed -/
def Zeroed (ctx : PagingContext) (mem : Tables) : Prop :=
  (∀ d < 1024, mem ctx.pageDirectory d = 0) ∧ ∀ d < 1024, ∀ t < 1024, mem (ctx.table d) t = 0

theorem lastCall_snoc (P : MapCall → Bool) (calls : List MapCall) (c : MapCall) :
    lastCall P (calls ++ [c]) = if P c then some c else lastCall P calls := by
  unfold lastCall
  rw [List.reverse_append, List.reverse_singleton, List.singleton_append, List.find?_cons]
  cases P c <;> rfl

theorem mapAll_snoc (mi : KernelMeminfo) (ctx : PagingContext) (mem : Tables) (calls : List MapCall) (c : MapCall) :
    mapAll mi ctx mem (calls ++ [c]) = MapCall.apply mi ctx (mapAll mi ctx mem calls) c := by
  unfold mapAll
  rw [List.foldl_append, List.foldl_cons, List.foldl_nil]

theorem inRegion_iff {va : ℕ} {c : MapCall} :
    inRegion va c = true ↔ pageDirectoryIndex va = pageDirectoryIndex c.virtualAddr := by
  unfold inRegion
  rw [decide_eq_true_eq, eq_comm]

theorem forPage_iff {va : ℕ} {c : MapCall} : forPage va c = true ↔
    pageDirectoryIndex va = pageDirectoryIndex c.virtualAddr ∧ pageTableIndex va = pageTableIndex c.virtualAddr := by
  unfold forPage
  rw [decide_eq_true_eq, pageDirectoryIndex_eq, pageDirectoryIndex_eq, pageTableIndex_eq, pageTableIndex_eq]
  unfold pageSize
  omega

/-- an entry written by a call: an aligned address with the call's flags -/
structure Entry (c : MapCall) (a entry : ℕ) : Prop where
  frame : frameOf entry = a
  present : present entry = true
  write : writable entry = c.write
  user : userAccess entry = c.user

theorem entry_or (c : MapCall) {a : ℕ} (ha : a % pageSize = 0) : Entry c a (a ||| c.flags) := by
  have hlt := c.flags_lt
  have hbit : ∀ f < 8, f.testBit 1 = decide (f &&& pageFlagWrite ≠ 0) ∧ f.testBit 2 = decide (f &&& pageFlagUser ≠ 0) := by
    decide
  refine ⟨frameOf_or ha (by omega), ?_, ?_, ?_⟩
  · unfold Paging.present
    rw [testBit_or_flags ha (by decide)]
    exact c.flags_present
  · unfold writable MapCall.write
    rw [testBit_or_flags ha (by decide)]
    exact (hbit _ hlt).1
  · unfold userAccess MapCall.user
    rw [testBit_or_flags ha (by decide)]
    exact (hbit _ hlt).2

theorem lastCall_some {P : MapCall → Bool} {calls : List MapCall} {c : MapCall} (h : lastCall P calls = some c) :
    P c = true ∧ c ∈ calls :=
  ⟨List.find?_some h, List.mem_reverse.1 (List.mem_of_find?_eq_some h)⟩

/-- the only call that meets `P` is the last -/
theorem lastCall_unique {P : MapCall → Bool} {calls : List MapCall} {c : MapCall} (hc : c ∈ calls) (hP : P c = true)
    (huniq : ∀ d ∈ calls, P d = true → d = c) : lastCall P calls = some c := by
  cases h : lastCall P calls with
  | none =>
    unfold lastCall at h
    rw [List.find?_eq_none] at h
    exact absurd hP (h c (List.mem_reverse.2 hc))
  | some d =>
    obtain ⟨hd, hm⟩ := lastCall_some h
    rw [huniq d hm hd]

/-- a region without calls has no calls for its pages -/
theorem lastCall_forPage_none {va : ℕ} {calls : List MapCall} (h : lastCall (inRegion va) calls = none) :
    lastCall (forPage va) calls = none := by
  unfold lastCall at h ⊢
  rw [List.find?_eq_none] at h ⊢
  intro c hc hpage
  exact h c hc (inRegion_iff.2 (forPage_iff.1 hpage).1)

section Calls

variable {mi : KernelMeminfo} {ctx : PagingContext} {mem : Tables} (hp : Placed mi ctx) (hz : Zeroed ctx mem)

include hp hz

/-- **Directory entries.** After any calls: the flags of the last call in the 4 MB. -/
theorem directory_entry (calls : List MapCall) {va : ℕ} (hva : va < 2 ^ 32) :
    mapAll mi ctx mem calls ctx.pageDirectory (pageDirectoryIndex va) =
      (lastCall (inRegion va) calls).elim 0
        fun c => vmmVirtualToPhysical mi (ctx.table (pageDirectoryIndex va)) ||| c.flags := by
  induction calls using List.reverseRecOn with
  | nil =>
    unfold mapAll lastCall
    rw [List.foldl_nil, List.reverse_nil, List.find?_nil, Option.elim_none]
    exact hz.1 _ (pageDirectoryIndex_lt hva)
  | append_singleton calls c ih =>
    rw [mapAll_snoc, lastCall_snoc]
    unfold MapCall.apply
    rw [map_directory _ _ _ hp c.virtualAddr_lt, ih]
    by_cases h : inRegion va c = true
    · rw [if_pos (inRegion_iff.1 h), if_pos h, Option.elim_some]
    · rw [if_neg (fun hc => h (inRegion_iff.2 hc)), if_neg h]

/-- **Table entries.** After any calls: the frame and flags of the last call for the page. -/
theorem table_entry (calls : List MapCall) {va : ℕ} (hva : va < 2 ^ 32) :
    mapAll mi ctx mem calls (ctx.table (pageDirectoryIndex va)) (pageTableIndex va) =
      (lastCall (forPage va) calls).elim 0 fun c => c.physicalAddr / pageSize * pageSize ||| c.flags := by
  induction calls using List.reverseRecOn with
  | nil =>
    unfold mapAll lastCall
    rw [List.foldl_nil, List.reverse_nil, List.find?_nil, Option.elim_none]
    refine hz.2 _ (pageDirectoryIndex_lt hva) _ ?_
    rw [pageTableIndex_eq]
    omega
  | append_singleton calls c ih =>
    rw [mapAll_snoc, lastCall_snoc]
    unfold MapCall.apply
    rw [map_table _ _ _ hp c.virtualAddr_lt (pageDirectoryIndex_lt hva), ih]
    by_cases h : forPage va c = true
    · rw [if_pos (forPage_iff.1 h), if_pos h, Option.elim_some]
    · rw [if_neg (fun hc => h (forPage_iff.2 hc)), if_neg h]

/-- **The walk after any calls.** The frame of the page's last call, with what that call and the last call in the region
both grant. -/
theorem walk_mapAll (calls : List MapCall) {va : ℕ} (hva : va < 2 ^ 32) :
    walk mi (mapAll mi ctx mem calls) ctx.pageDirectory va =
      (lastCall (forPage va) calls).bind fun c => (lastCall (inRegion va) calls).map fun d =>
        ⟨c.physicalAddr / pageSize * pageSize, d.write && c.write, d.user && c.user⟩ := by
  have hidx := pageDirectoryIndex_lt hva
  unfold walk
  simp only
  rw [directory_entry hp hz calls hva]
  cases hd : lastCall (inRegion va) calls with
  | none =>
    rw [lastCall_forPage_none hd, Option.elim_none, if_neg (by decide), Option.bind_none]
  | some d =>
    have hde := entry_or d (hp.table_aligned hidx)
    rw [Option.elim_some, if_pos hde.present, hde.frame, vmmPhysicalToVirtual_virtualToPhysical mi (hp.table_lt hidx),
      table_entry hp hz calls hva]
    cases hc : lastCall (forPage va) calls with
    | none => rw [Option.elim_none, if_neg (by decide), Option.bind_none]
    | some c =>
      have hce := entry_or c (Nat.mul_mod_left (c.physicalAddr / pageSize) pageSize)
      rw [Option.elim_some, if_pos hce.present, hde.write, hde.user, hce.frame, hce.write, hce.user]
      rfl

/-- what `walk_mapAll` says is what the processor finds -/
theorem processorWalk_mapAll {frame : ℕ} (hframe : ∀ i < pageTableSize, frame ≠ vmmVirtualToPhysical mi (ctx.table i))
    (others : ℕ → ℕ → ℕ) (calls : List MapCall) {va : ℕ} (hva : va < 2 ^ 32) :
    processorWalk (contents mi ctx frame others (mapAll mi ctx mem calls)) frame va =
      walk mi (mapAll mi ctx mem calls) ctx.pageDirectory va := by
  have hidx := pageDirectoryIndex_lt hva
  refine (walk_eq_processorWalk hp hframe fun hpde => ⟨_, hidx, ?_⟩).symm
  rw [directory_entry hp hz calls hva] at hpde ⊢
  cases hd : lastCall (inRegion va) calls with
  | none =>
    rw [hd, Option.elim_none] at hpde
    exact absurd hpde (by decide)
  | some d =>
    rw [Option.elim_some]
    exact (entry_or d (hp.table_aligned hidx)).frame

/-- **Permissions are per page exactly when every region grants them.** After any calls, every page below the last 4 MB
has the frame and permissions of its last call, and none if there was none, if and only if the last call of each region
grants what the last calls for its pages grant. -/
theorem permissions_independent (calls : List MapCall) :
    (∀ va < 0xFFC00000, walk mi (mapAll mi ctx mem calls) ctx.pageDirectory va = requested calls va) ↔
      RegionGrants calls := by
  unfold RegionGrants requested
  refine forall₂_congr fun va hva => ?_
  rw [walk_mapAll hp hz calls (by omega)]
  cases hc : lastCall (forPage va) calls with
  | none => simp
  | some c =>
    cases hd : lastCall (inRegion va) calls with
    | none => simp [lastCall_forPage_none hd] at hc
    | some d =>
      simp only [Option.bind_some, Option.map_some, Option.some.injEq, Translation.mk.injEq, true_and,
        Bool.and_eq_right_iff_imp]
      constructor
      · intro h c' d' hc' hd'
        rwa [← hc', ← hd']
      · intro h
        exact h c d rfl rfl

end Calls

/-! ## A user page and a kernel page in one region -/

/-- user page 0x400000 at frame 0x1000, and kernel page 0x401000 at frame 0x2000 -/
def userPage : MapCall := ⟨0x400000, 0x1000, 7, by decide, by decide, by decide, by decide⟩
def kernelPage : MapCall := ⟨0x401000, 0x2000, 3, by decide, by decide, by decide, by decide⟩

/-- a directory at 0xC0100000 with its tables after it -/
def context : PagingContext := ⟨0xC0100000, 0xC0101000⟩

def blank : Tables := fun _ _ => 0

/-- the kernel page first: the user page grants all that the kernel page does, and both pages are as requested -/
theorem permissions_independent_user_last :
    RegionGrants [kernelPage, userPage] ∧
      ∀ va < 0xFFC00000, walk .atOneMegabyte (mapAll .atOneMegabyte context blank [kernelPage, userPage]) context.pageDirectory va =
        requested [kernelPage, userPage] va := by
  have hg : RegionGrants [kernelPage, userPage] := by
    intro va _ c d _ hd
    have hall : d.write = true ∧ d.user = true := by
      change lastCall (inRegion va) ([kernelPage] ++ [userPage]) = some d at hd
      rw [lastCall_snoc] at hd
      split_ifs at hd with hu
      · cases hd
        decide
      · -- the kernel page is in the same region
        have hk : inRegion va kernelPage = true := by
          obtain ⟨hk, hm⟩ := lastCall_some hd
          rwa [List.mem_singleton.1 hm] at hk
        exact absurd hk hu
    exact ⟨fun _ => hall.1, fun _ => hall.2⟩
  exact ⟨hg, (permissions_independent (show Placed .atOneMegabyte context by decide) ⟨fun _ _ => rfl, fun _ _ _ _ => rfl⟩ _).2 hg⟩

/-- **A kernel page hides a user page.** After the user page the kernel page of the same region is mapped: the user page
keeps its frame and its table entry, and loses the user permission. -/
theorem kernel_page_hides_user_page :
    requested [userPage, kernelPage] 0x400000 = some ⟨0x1000, true, true⟩ ∧
      walk .atOneMegabyte (mapAll .atOneMegabyte context blank [userPage]) context.pageDirectory 0x400000 =
        some ⟨0x1000, true, true⟩ ∧
      walk .atOneMegabyte (mapAll .atOneMegabyte context blank [userPage, kernelPage]) context.pageDirectory 0x400000 =
        some ⟨0x1000, true, false⟩ := by
  decide

end Gubos.Paging
