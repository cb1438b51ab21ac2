/-
The page directories of the boot (`paging_bootstrap.c`, and `paging_create_page_directory` and `init_paging` in
`mm/paging.c`).

The kernel first runs on a directory of 4 MB pages, in which the image is mapped from `virtual_start` on, and then on 4 KB
pages, mapped from `higher_half_base` on; the instruction after the switch is fetched through the new structures.

- `translate_bootstrap`, `translate_create`: what each of the two directories translates the image to;
- `boot_switch_seamless`: every address of the image has the same translation under both;
- `initial_mapping_exact`: the 4 KB pages are those of the image and of the heap, and no others below the last 4 MB.

`translate` is the translation of the processor with `CR4.PSE` set, as `boot.S` sets it: an entry with the page-size flag
maps 4 MB.

Premises: what the linker script guarantees about the image (`LinkedImage`), and that the tables are an array of pages
apart from the directory (`Placed`), neither at address 0.
-/
import Gubos.Core.Loop
import Gubos.Mm.Paging
import Gubos.Panic

namespace Gubos.Paging

open Gubos.Core

/-! ## The code -/

/-- `KERNEL_PAGE_SIZE`, `PAGE_FLAG_PAGE_SIZE` -/
def kernelPageSize : ℕ := 4194304
def pageFlagPageSize : ℕ := 128

/-- the body of the loop of `paging_bootstrap` -/
def bootstrapPage (mi : KernelMeminfo) (kernelPageDirectory : ℕ) (mem : Tables) (i : ℕ) : Tables :=
  let virtualAddress := u32 (mi.virtualStart + i * kernelPageSize)
  let physicalAddress := u32 (mi.physicalStart + i * kernelPageSize)
  let entry := u32 (pageDirectoryIndex physicalAddress <<< 22)
  setEntry mem kernelPageDirectory (pageDirectoryIndex virtualAddress)
    (entry ||| pageFlagPresent ||| pageFlagPageSize ||| pageFlagWrite)

/-- `page_table_t`, all entries 0 -/
def zeroTable (mem : Tables) (table : ℕ) : Tables := Function.update mem table fun _ => 0

/-- `paging_bootstrap`; the counter is 64-bit, and the loop ends within 1024 rounds -/
def pagingBootstrap (mi : KernelMeminfo) (mem : Tables) (kernelPageDirectory : ℕ) : Tables :=
  forLoop (fun i => mi.virtualStart + i * kernelPageSize < mi.virtualEnd) (bootstrapPage mi kernelPageDirectory) 1024 0
    (zeroTable mem kernelPageDirectory)

/-- the body of the first loop of `paging_create_page_directory` -/
def mapKernelPage (mi : KernelMeminfo) (ctx : PagingContext) (mem : Tables) (i : ℕ) : Tables :=
  let virtualAddr := u32 (mi.higherHalfBase + i * pageSize)
  let physicalAddr := u32 (i * pageSize)
  pagingMapVirtualToPhysical mi ctx mem virtualAddr physicalAddr (pageFlagPresent ||| pageFlagWrite)

/-- the body of the second: the heap -/
def mapHeapPage (mi : KernelMeminfo) (ctx : PagingContext) (mem : Tables) (i : ℕ) : Tables :=
  let virtualAddr := u32 (kernelHeapVirtStart + i * pageSize)
  let physicalAddr := u32 (kernelHeapPhysStart + i * pageSize)
  pagingMapVirtualToPhysical mi ctx mem virtualAddr physicalAddr (pageFlagPresent ||| pageFlagWrite)

/-- `paging_create_page_directory`; `pageDirectoryVar` is `&page_directory`, the address of the PARAMETER. The counters are
64-bit, and the loops end within 2^20 rounds. -/
def pagingCreatePageDirectory (mi : KernelMeminfo) (mem : Tables) (pageDirectory pageTables pageDirectoryVar : ℕ) :
    Except Fault (Tables × PagingContext) :=
  if pageDirectory = 0 then .error (.panic .noPageDirectory)
  else if pageTables = 0 then .error (.panic .noPageTables)
  else
    let ctx : PagingContext := ⟨pageDirectory, pageTables⟩
    let mem := zeroTable mem pageDirectory
    let mem := (List.range pageTableSize).foldl (fun mem i => zeroTable mem (ctx.table i)) mem
    let mem := forLoop (fun i => mi.higherHalfBase + i * pageSize < mi.virtualEnd) (mapKernelPage mi ctx) (2 ^ 20) 0 mem
    let mem := forLoop (fun i => i * pageSize < kernelHeapSize) (mapHeapPage mi ctx) (2 ^ 20) 0 mem
    let cr3 := vmmVirtualToPhysical mi pageDirectoryVar
    .ok (setEntry mem pageDirectory (pageTableSize - 1) (cr3 ||| pageFlagPresent ||| pageFlagWrite), ctx)

/-- `init_paging`, with the address it loads into CR3 -/
def initPaging (mi : KernelMeminfo) (mem : Tables) (initActivePageDirectory initKernelPageTables pageDirectoryVar : ℕ) :
    Except Fault (Tables × PagingContext × ℕ) := do
  let (mem, ctx) ← pagingCreatePageDirectory mi mem initActivePageDirectory initKernelPageTables pageDirectoryVar
  .ok (mem, ctx, vmmVirtualToPhysical mi ctx.pageDirectory)

/-! ## Translation -/

/-- bit 7 of a directory entry: it maps 4 MB -/
def large (entry : ℕ) : Bool := entry.testBit 7

/-- the physical address of a virtual one -/
def translate (mi : KernelMeminfo) (mem : Tables) (pageDirectory virtualAddr : ℕ) : Option ℕ :=
  let pde := mem pageDirectory (pageDirectoryIndex virtualAddr)
  if present pde && large pde then some (pde / kernelPageSize * kernelPageSize + virtualAddr % kernelPageSize)
  else (walk mi mem pageDirectory virtualAddr).map fun t => t.frame + virtualAddr % pageSize

/-- what the linker script guarantees: the image ends on a 4 MB boundary below the heap, and is seen at a 4 MB multiple
above where it is loaded -/
structure LinkedImage (mi : KernelMeminfo) : Prop where
  nonempty : mi.virtualStart < mi.virtualEnd
  below_heap : mi.virtualEnd ≤ kernelHeapVirtStart
  end_aligned : mi.virtualEnd % kernelPageSize = 0
  delta : mi.virtualStart = mi.physicalStart + mi.higherHalfBase
  base_aligned : mi.higherHalfBase % kernelPageSize = 0

instance (mi : KernelMeminfo) : Decidable (LinkedImage mi) :=
  decidable_of_iff (mi.virtualStart < mi.virtualEnd ∧ mi.virtualEnd ≤ kernelHeapVirtStart ∧
      mi.virtualEnd % kernelPageSize = 0 ∧ mi.virtualStart = mi.physicalStart + mi.higherHalfBase ∧
      mi.higherHalfBase % kernelPageSize = 0)
    ⟨fun ⟨h1, h2, h3, h4, h5⟩ => ⟨h1, h2, h3, h4, h5⟩,
      fun h => ⟨h.nonempty, h.below_heap, h.end_aligned, h.delta, h.base_aligned⟩⟩

/-! ## 4 MB pages -/

section Bootstrap

variable {mi : KernelMeminfo} (mem : Tables) (kd : ℕ)

/-- the entry for physical address `a` -/
def largeEntry (a : ℕ) : ℕ := u32 (a / kernelPageSize * kernelPageSize) ||| pageFlagPresent ||| pageFlagPageSize |||
  pageFlagWrite

theorem bootstrapPage_eq (hl : LinkedImage mi) {i : ℕ} (hi : mi.virtualStart + i * kernelPageSize < mi.virtualEnd) :
    bootstrapPage mi kd mem i = setEntry mem kd (mi.virtualStart / kernelPageSize + i)
      (largeEntry ((mi.virtualStart / kernelPageSize + i) * kernelPageSize - mi.higherHalfBase)) := by
  have h1 := mi.virtualEnd_lt
  have h2 := hl.delta
  have h3 := hl.base_aligned
  have hv : u32 (mi.virtualStart + i * kernelPageSize) = mi.virtualStart + i * kernelPageSize := u32_of_lt (by omega)
  have hp : u32 (mi.physicalStart + i * kernelPageSize) = mi.physicalStart + i * kernelPageSize := u32_of_lt (by omega)
  unfold bootstrapPage largeEntry
  dsimp only
  rw [hv, hp, pageDirectoryIndex_eq, pageDirectoryIndex_eq, Nat.shiftLeft_eq]
  simp only [kernelPageSize] at *
  have e1 : (mi.virtualStart + i * 4194304) / 4194304 = mi.virtualStart / 4194304 + i := by omega
  have e2 : (mi.physicalStart + i * 4194304) / 4194304 * 2 ^ 22 =
      ((mi.virtualStart / 4194304 + i) * 4194304 - mi.higherHalfBase) / 4194304 * 4194304 := by omega
  rw [e1, e2]

/-- **The bootstrap directory.** Its entries for the image map 4 MB each, and the others are 0. -/
theorem bootstrap_entry (hl : LinkedImage mi) (d : ℕ) :
    pagingBootstrap mi mem kd kd d =
      if mi.virtualStart / kernelPageSize ≤ d ∧ d < mi.virtualEnd / kernelPageSize then
        largeEntry (d * kernelPageSize - mi.higherHalfBase) else 0 := by
  have h1 := mi.virtualEnd_lt
  have h2 := hl.nonempty
  have h3 := hl.end_aligned
  generalize hn : mi.virtualEnd / kernelPageSize - mi.virtualStart / kernelPageSize = n
  have hcond : ∀ i, decide (mi.virtualStart + i * kernelPageSize < mi.virtualEnd) = true ↔ i < n := by
    intro i
    rw [decide_eq_true_eq]
    simp only [kernelPageSize] at h3 hn ⊢
    omega
  have hend : mi.virtualEnd / kernelPageSize = mi.virtualStart / kernelPageSize + n := by
    simp only [kernelPageSize] at h3 hn ⊢
    omega
  have hfuel : n ≤ 1024 := by
    simp only [kernelPageSize] at hn
    omega
  unfold pagingBootstrap
  rw [forLoop_eq hcond hfuel, hend]
  refine @foldl_range_inv _ _ n (fun i (mem : Tables) => mem kd d = if mi.virtualStart / kernelPageSize ≤ d ∧
    d < mi.virtualStart / kernelPageSize + i then largeEntry (d * kernelPageSize - mi.higherHalfBase) else 0) _ ?_ ?_
  · -- before the first round all entries are 0
    rw [if_neg (by omega)]
    unfold zeroTable
    rw [Function.update_self]
  · intro i hi mem ih
    have hi' := of_decide_eq_true ((hcond i).2 hi)
    rw [bootstrapPage_eq mem kd hl hi']
    by_cases hd : d = mi.virtualStart / kernelPageSize + i
    · rw [hd, setEntry_self, if_pos (by omega)]
    · rw [setEntry_of_ne _ (Or.inr hd), ih]
      have hiff : d < mi.virtualStart / kernelPageSize + (i + 1) ↔ d < mi.virtualStart / kernelPageSize + i := by omega
      simp only [hiff]

theorem largeEntry_spec {a : ℕ} (ha : a < 2 ^ 32) :
    present (largeEntry a) = true ∧ large (largeEntry a) = true ∧
      largeEntry a / kernelPageSize * kernelPageSize = a / kernelPageSize * kernelPageSize := by
  obtain ⟨q, hq⟩ : ∃ q, a / kernelPageSize = q := ⟨_, rfl⟩
  have hu : u32 (q * kernelPageSize) = 2 ^ 22 * q := by
    rw [u32_of_lt (by simp only [kernelPageSize] at *; omega), Nat.mul_comm]
    rfl
  have he : largeEntry a = 2 ^ 22 * q + 131 := by
    unfold largeEntry
    rw [hq, hu, Nat.or_assoc, Nat.or_assoc]
    exact (Nat.two_pow_add_eq_or_of_lt (show 131 < 2 ^ 22 by decide) q).symm
  rw [he, hq]
  refine ⟨?_, ?_, ?_⟩
  · unfold present
    rw [Nat.two_pow_add_eq_or_of_lt (by decide), Nat.testBit_or, Nat.testBit_two_pow_mul]
    rfl
  · unfold large
    rw [Nat.two_pow_add_eq_or_of_lt (by decide), Nat.testBit_or, Nat.testBit_two_pow_mul]
    rfl
  · simp only [kernelPageSize]
    omega

/-- the image under 4 MB pages -/
theorem translate_bootstrap (hl : LinkedImage mi) {va : ℕ} (h1 : mi.virtualStart ≤ va) (h2 : va < mi.virtualEnd) :
    translate mi (pagingBootstrap mi mem kd) kd va = some (va - mi.higherHalfBase) := by
  have hlt := mi.virtualEnd_lt
  have hdelta := hl.delta
  have hbase := hl.base_aligned
  have hend := hl.end_aligned
  simp only [kernelPageSize] at hbase hend
  have hin : mi.virtualStart / kernelPageSize ≤ pageDirectoryIndex va ∧
      pageDirectoryIndex va < mi.virtualEnd / kernelPageSize := by
    rw [pageDirectoryIndex_eq]
    simp only [kernelPageSize]
    omega
  have hentry := bootstrap_entry mem kd hl (pageDirectoryIndex va)
  rw [if_pos hin] at hentry
  have hsmall : pageDirectoryIndex va * kernelPageSize - mi.higherHalfBase < 2 ^ 32 := by
    rw [pageDirectoryIndex_eq]
    simp only [kernelPageSize]
    omega
  obtain ⟨hp, hlg, hf⟩ := largeEntry_spec hsmall
  unfold translate
  dsimp only
  simp only [hentry, hp, hlg, Bool.and_self, if_true]
  rw [hf, pageDirectoryIndex_eq]
  simp only [kernelPageSize, Option.some.injEq]
  omega

end Bootstrap

/-! ## 4 KB pages -/

/-- the calls that `paging_create_page_directory` makes: for the image, and for the heap -/
def kernelCall (mi : KernelMeminfo) (i : ℕ) : MapCall :=
  ⟨u32 (mi.higherHalfBase + i * pageSize), u32 (i * pageSize), pageFlagPresent ||| pageFlagWrite, u32_lt _, u32_lt _,
    by decide, by decide⟩

def heapCall (i : ℕ) : MapCall :=
  ⟨u32 (kernelHeapVirtStart + i * pageSize), u32 (kernelHeapPhysStart + i * pageSize), pageFlagPresent ||| pageFlagWrite,
    u32_lt _, u32_lt _, by decide, by decide⟩

/-- how many of the first kind -/
def kernelPages (mi : KernelMeminfo) : ℕ := (mi.virtualEnd - mi.higherHalfBase + (pageSize - 1)) / pageSize

def createCalls (mi : KernelMeminfo) : List MapCall :=
  (List.range (kernelPages mi)).map (kernelCall mi) ++ (List.range (kernelHeapSize / pageSize)).map heapCall

section Create

variable {mi : KernelMeminfo} {ctx : PagingContext} (mem : Tables)

/-- the two `memset` loops -/
theorem zeroed_tables : Zeroed ctx ((List.range pageTableSize).foldl (fun mem i => zeroTable mem (ctx.table i))
    (zeroTable mem ctx.pageDirectory)) := by
  have hinv := @foldl_range_inv _ (fun (mem : Tables) i => zeroTable mem (ctx.table i)) pageTableSize
    (fun n mem => (∀ d, mem ctx.pageDirectory d = 0) ∧ ∀ d < n, ∀ t, mem (ctx.table d) t = 0)
    (zeroTable mem ctx.pageDirectory) ?_ ?_
  · exact ⟨fun d _ => hinv.1 d, fun d hd t _ => hinv.2 d hd t⟩
  · refine ⟨fun d => ?_, fun d hd => absurd hd (Nat.not_lt_zero d)⟩
    unfold zeroTable
    rw [Function.update_self]
  · intro i _ mem ⟨hdir, htab⟩
    -- a table that was zero stays zero, whichever is cleared
    have hkeep : ∀ a t, mem a t = 0 → zeroTable mem (ctx.table i) a t = 0 := by
      intro a t ha
      unfold zeroTable
      by_cases he : a = ctx.table i
      · rw [he, Function.update_self]
      · rw [Function.update_of_ne he]
        exact ha
    refine ⟨fun d => hkeep _ _ (hdir d), fun d hd t => ?_⟩
    rcases Nat.lt_succ_iff_lt_or_eq.1 hd with hd | rfl
    · exact hkeep _ _ (htab d hd t)
    · unfold zeroTable
      rw [Function.update_self]

/-- **What the function returns.** The calls for the image and the heap, on zeroed tables, and the last directory entry. -/
theorem create_eq (hd : ctx.pageDirectory ≠ 0) (ht : ctx.pageTables ≠ 0) (var : ℕ) :
    ∃ mem₀, Zeroed ctx mem₀ ∧ pagingCreatePageDirectory mi mem ctx.pageDirectory ctx.pageTables var =
      .ok (setEntry (mapAll mi ctx mem₀ (createCalls mi)) ctx.pageDirectory 1023
        (vmmVirtualToPhysical mi var ||| pageFlagPresent ||| pageFlagWrite), ctx) := by
  refine ⟨_, zeroed_tables mem, ?_⟩
  have h1 := mi.virtualEnd_lt
  have hk : ∀ i, decide (mi.higherHalfBase + i * pageSize < mi.virtualEnd) = true ↔ i < kernelPages mi := by
    intro i
    rw [decide_eq_true_eq]
    unfold kernelPages
    simp only [pageSize]
    omega
  have hkn : kernelPages mi ≤ 2 ^ 20 := by
    unfold kernelPages
    simp only [pageSize]
    omega
  have hh : ∀ i, decide (i * pageSize < kernelHeapSize) = true ↔ i < kernelHeapSize / pageSize := by
    intro i
    rw [decide_eq_true_eq]
    simp only [pageSize, kernelHeapSize]
    omega
  unfold pagingCreatePageDirectory mapAll createCalls
  rw [if_neg hd, if_neg ht, List.foldl_append, List.foldl_map, List.foldl_map]
  dsimp only
  rw [forLoop_eq hk hkn, forLoop_eq hh (by decide)]
  rfl

/-- the last directory entry is not read below the last 4 MB -/
theorem setEntry_last_directory (v : ℕ) {va : ℕ} (hva : va < 0xFFC00000) :
    setEntry mem ctx.pageDirectory 1023 v ctx.pageDirectory (pageDirectoryIndex va) =
      mem ctx.pageDirectory (pageDirectoryIndex va) := by
  refine setEntry_of_ne v (Or.inr ?_)
  rw [pageDirectoryIndex_eq]
  omega

theorem walk_setEntry_last (v : ℕ) {va : ℕ} (hp : Placed mi ctx) (hva : va < 0xFFC00000)
    (hpde : present (mem ctx.pageDirectory (pageDirectoryIndex va)) = true →
      vmmPhysicalToVirtual mi (frameOf (mem ctx.pageDirectory (pageDirectoryIndex va))) = ctx.table (pageDirectoryIndex va)) :
    walk mi (setEntry mem ctx.pageDirectory 1023 v) ctx.pageDirectory va = walk mi mem ctx.pageDirectory va := by
  have htab : ∀ t, setEntry mem ctx.pageDirectory 1023 v (ctx.table (pageDirectoryIndex va)) t =
      mem (ctx.table (pageDirectoryIndex va)) t :=
    fun t => setEntry_of_ne v (Or.inl (Ne.symm (hp.directory_ne (pageDirectoryIndex_lt (by omega)))))
  unfold walk
  dsimp only
  rw [setEntry_last_directory mem v hva]
  by_cases hpr : present (mem ctx.pageDirectory (pageDirectoryIndex va)) = true
  · rw [hpde hpr, htab]
  · rw [if_neg hpr, if_neg hpr]

theorem translate_setEntry_last (v : ℕ) {va : ℕ} (hp : Placed mi ctx) (hva : va < 0xFFC00000)
    (hpde : present (mem ctx.pageDirectory (pageDirectoryIndex va)) = true →
      vmmPhysicalToVirtual mi (frameOf (mem ctx.pageDirectory (pageDirectoryIndex va))) = ctx.table (pageDirectoryIndex va)) :
    translate mi (setEntry mem ctx.pageDirectory 1023 v) ctx.pageDirectory va = translate mi mem ctx.pageDirectory va := by
  unfold translate
  rw [walk_setEntry_last mem v hp hva hpde, setEntry_last_directory mem v hva]

/-- a directory entry that calls have written leads to its table -/
theorem mapAll_leads (hp : Placed mi ctx) {mem₀ : Tables} (hz : Zeroed ctx mem₀) (calls : List MapCall) {va : ℕ}
    (hva : va < 2 ^ 32) (hpr : present (mapAll mi ctx mem₀ calls ctx.pageDirectory (pageDirectoryIndex va)) = true) :
    vmmPhysicalToVirtual mi (frameOf (mapAll mi ctx mem₀ calls ctx.pageDirectory (pageDirectoryIndex va))) =
      ctx.table (pageDirectoryIndex va) := by
  have hidx := pageDirectoryIndex_lt hva
  rw [directory_entry hp hz calls hva] at hpr ⊢
  cases hd : lastCall (inRegion va) calls with
  | none =>
    rw [hd, Option.elim_none] at hpr
    exact absurd hpr (by decide)
  | some d =>
    rw [Option.elim_some, (entry_or d (hp.table_aligned hidx)).frame, vmmPhysicalToVirtual_virtualToPhysical mi (hp.table_lt hidx)]

/-- an entry written for a table does not map 4 MB -/
theorem not_large {a f : ℕ} (ha : a % pageSize = 0) (hf : f < 8) : large (a ||| f) = false := by
  unfold large
  rw [testBit_or_flags ha (by decide)]
  exact Nat.testBit_lt_two_pow (show f < 2 ^ 7 by omega)

/-- the image starts at a page and ends below the heap -/
structure BelowHeap (mi : KernelMeminfo) : Prop where
  base : mi.higherHalfBase % pageSize = 0
  end_le : mi.virtualEnd ≤ kernelHeapVirtStart

theorem LinkedImage.belowHeap (hl : LinkedImage mi) : BelowHeap mi where
  base := by
    have h := hl.base_aligned
    simp only [kernelPageSize, pageSize] at h ⊢
    omega
  end_le := hl.below_heap

/-- the addresses of the calls do not wrap -/
theorem BelowHeap.kernelCall_addr (hb : BelowHeap mi) {i : ℕ} (hi : i < kernelPages mi) :
    (kernelCall mi i).virtualAddr = mi.higherHalfBase + i * pageSize := by
  have hlt := mi.virtualEnd_lt
  have hend := hb.end_le
  unfold kernelPages at hi
  simp only [pageSize, kernelHeapVirtStart] at hi hend
  exact u32_of_lt (by simp only [pageSize]; omega)

theorem heapCall_addr {i : ℕ} (hi : i < kernelHeapSize / pageSize) :
    (heapCall i).virtualAddr = kernelHeapVirtStart + i * pageSize := by
  simp only [pageSize, kernelHeapSize] at hi
  exact u32_of_lt (by simp only [pageSize, kernelHeapVirtStart]; omega)

/-- a call is for a page of the image or of the heap -/
theorem mem_createCalls {c : MapCall} (hc : c ∈ createCalls mi) :
    (∃ i < kernelPages mi, c = kernelCall mi i) ∨ ∃ i < kernelHeapSize / pageSize, c = heapCall i := by
  rcases List.mem_append.1 hc with hc | hc
  · obtain ⟨i, hi, rfl⟩ := List.mem_map.1 hc
    exact .inl ⟨i, List.mem_range.1 hi, rfl⟩
  · obtain ⟨i, hi, rfl⟩ := List.mem_map.1 hc
    exact .inr ⟨i, List.mem_range.1 hi, rfl⟩

/-- the call for a page of the image -/
theorem lastCall_kernel (hb : BelowHeap mi) {va : ℕ} (h1 : mi.higherHalfBase ≤ va)
    (h2 : va / pageSize * pageSize < mi.virtualEnd) :
    lastCall (forPage va) (createCalls mi) = some (kernelCall mi ((va - mi.higherHalfBase) / pageSize)) := by
  have hbase := hb.base
  have hend := hb.end_le
  have hin : (va - mi.higherHalfBase) / pageSize < kernelPages mi := by
    unfold kernelPages
    simp only [pageSize] at h2 hbase ⊢
    omega
  refine lastCall_unique (List.mem_append_left _ (List.mem_map_of_mem (List.mem_range.2 hin))) ?_ ?_
  · unfold forPage
    rw [decide_eq_true_eq, hb.kernelCall_addr hin]
    simp only [pageSize] at hbase ⊢
    omega
  · intro c hc hpage
    unfold forPage at hpage
    rw [decide_eq_true_eq] at hpage
    rcases mem_createCalls hc with ⟨i, hi, rfl⟩ | ⟨i, hi, rfl⟩
    · rw [hb.kernelCall_addr hi] at hpage
      have he : i = (va - mi.higherHalfBase) / pageSize := by
        simp only [pageSize] at hpage hbase ⊢
        omega
      rw [he]
    · -- the heap is above the image
      rw [heapCall_addr hi] at hpage
      simp only [pageSize, kernelHeapVirtStart] at hpage h2 hend
      omega

/-- the call for a page of the heap -/
theorem lastCall_heap (hb : BelowHeap mi) {va : ℕ} (h1 : kernelHeapVirtStart ≤ va)
    (h2 : va < kernelHeapVirtStart + kernelHeapSize) :
    lastCall (forPage va) (createCalls mi) = some (heapCall ((va - kernelHeapVirtStart) / pageSize)) := by
  have hbase := hb.base
  have hend := hb.end_le
  have hin : (va - kernelHeapVirtStart) / pageSize < kernelHeapSize / pageSize := by
    simp only [pageSize, kernelHeapSize, kernelHeapVirtStart] at h1 h2 ⊢
    omega
  refine lastCall_unique (List.mem_append_right _ (List.mem_map_of_mem (List.mem_range.2 hin))) ?_ ?_
  · unfold forPage
    rw [decide_eq_true_eq, heapCall_addr hin]
    simp only [pageSize, kernelHeapVirtStart] at h1 ⊢
    omega
  · intro c hc hpage
    unfold forPage at hpage
    rw [decide_eq_true_eq] at hpage
    rcases mem_createCalls hc with ⟨i, hi, rfl⟩ | ⟨i, hi, rfl⟩
    · rw [hb.kernelCall_addr hi] at hpage
      unfold kernelPages at hi
      simp only [pageSize, kernelHeapVirtStart] at hpage h1 hend hi hbase
      omega
    · rw [heapCall_addr hi] at hpage
      have he : i = (va - kernelHeapVirtStart) / pageSize := by
        simp only [pageSize, kernelHeapVirtStart] at hpage h1 ⊢
        omega
      rw [he]

/-- no call for the other pages -/
theorem lastCall_other (hb : BelowHeap mi) {va : ℕ}
    (h1 : ¬ (mi.higherHalfBase ≤ va ∧ va / pageSize * pageSize < mi.virtualEnd))
    (h2 : ¬ (kernelHeapVirtStart ≤ va ∧ va < kernelHeapVirtStart + kernelHeapSize)) :
    lastCall (forPage va) (createCalls mi) = none := by
  have hbase := hb.base
  cases hcall : lastCall (forPage va) (createCalls mi) with
  | none => rfl
  | some c =>
    obtain ⟨hpage, hc⟩ := lastCall_some hcall
    unfold forPage at hpage
    rw [decide_eq_true_eq] at hpage
    rcases mem_createCalls hc with ⟨i, hi, rfl⟩ | ⟨i, hi, rfl⟩
    · rw [hb.kernelCall_addr hi] at hpage
      refine absurd ⟨?_, ?_⟩ h1
      · simp only [pageSize] at hpage hbase
        omega
      · unfold kernelPages at hi
        simp only [pageSize] at hpage hbase hi ⊢
        omega
    · rw [heapCall_addr hi] at hpage
      refine absurd ⟨?_, ?_⟩ h2
      · simp only [pageSize, kernelHeapVirtStart] at hpage ⊢
        omega
      · simp only [pageSize, kernelHeapVirtStart, kernelHeapSize] at hpage hi ⊢
        omega

/-- the image under 4 KB pages -/
theorem translate_create (hl : LinkedImage mi) (hp : Placed mi ctx) {mem₀ : Tables} (hz : Zeroed ctx mem₀) (v : ℕ) {va : ℕ}
    (h1 : mi.virtualStart ≤ va) (h2 : va < mi.virtualEnd) :
    translate mi (setEntry (mapAll mi ctx mem₀ (createCalls mi)) ctx.pageDirectory 1023 v) ctx.pageDirectory va =
      some (va - mi.higherHalfBase) := by
  have hlt := mi.virtualEnd_lt
  have hbelow := hl.below_heap
  have hdelta := hl.delta
  have hbase := hl.base_aligned
  simp only [kernelHeapVirtStart] at hbelow
  simp only [kernelPageSize] at hbase
  have hva : va < 2 ^ 32 := by omega
  have hidx := pageDirectoryIndex_lt hva
  have hcall := lastCall_kernel hl.belowHeap (show mi.higherHalfBase ≤ va by omega)
    (lt_of_le_of_lt (Nat.div_mul_le_self va pageSize) h2)
  obtain ⟨d, hreg⟩ : ∃ d, lastCall (inRegion va) (createCalls mi) = some d := by
    rw [← Option.isSome_iff_exists, Option.isSome_iff_ne_none]
    intro hn
    rw [lastCall_forPage_none hn] at hcall
    cases hcall
  have hentry := directory_entry hp hz (createCalls mi) hva
  rw [hreg, Option.elim_some] at hentry
  have hal := hp.table_aligned hidx
  have hlarge : large (mapAll mi ctx mem₀ (createCalls mi) ctx.pageDirectory (pageDirectoryIndex va)) = false := by
    rw [hentry]
    exact not_large hal d.flags_lt
  rw [translate_setEntry_last _ v hp (by omega)]
  · unfold translate
    dsimp only
    rw [hlarge, Bool.and_false, if_neg (by decide), walk_mapAll hp hz _ hva, hcall, hreg]
    simp only [Option.bind_some, Option.map_some, Option.some.injEq, kernelCall]
    simp only [pageSize]
    rw [u32_of_lt (by omega)]
    omega
  · exact mapAll_leads hp hz _ hva

/-- **The switch is seamless.** Every address of the image is present, and translates to the address minus
`higher_half_base`, under the directory of `paging_bootstrap` and under the structures of `paging_create_page_directory`. -/
theorem boot_switch_seamless (hl : LinkedImage mi) (hp : Placed mi ctx) (hd : ctx.pageDirectory ≠ 0)
    (ht : ctx.pageTables ≠ 0) (kd var : ℕ) :
    ∃ mem', pagingCreatePageDirectory mi mem ctx.pageDirectory ctx.pageTables var = .ok (mem', ctx) ∧
      ∀ va, mi.virtualStart ≤ va → va < mi.virtualEnd →
        translate mi (pagingBootstrap mi mem kd) kd va = some (va - mi.higherHalfBase) ∧
        translate mi mem' ctx.pageDirectory va = some (va - mi.higherHalfBase) := by
  obtain ⟨mem₀, hz, hok⟩ := @create_eq mi ctx mem hd ht var
  refine ⟨_, hok, fun va h1 h2 => ⟨translate_bootstrap mem kd hl h1 h2, translate_create hl hp hz _ h1 h2⟩⟩

/-! ### The whole mapping -/

/-- directory and tables are page-aligned objects of the kernel image, apart and not at address 0 -/
structure InImage (mi : KernelMeminfo) (ctx : PagingContext) : Prop where
  directory_aligned : ctx.pageDirectory % pageSize = 0
  tables_aligned : ctx.pageTables % pageSize = 0
  directory_ne : ctx.pageDirectory ≠ 0
  tables_ne : ctx.pageTables ≠ 0
  directory_start : mi.virtualStart ≤ ctx.pageDirectory
  tables_start : mi.virtualStart ≤ ctx.pageTables
  directory_end : ctx.pageDirectory + pageSize ≤ mi.virtualEnd
  tables_end : ctx.pageTables + pageTableSize * pageSize ≤ mi.virtualEnd
  apart : ctx.pageDirectory + pageSize ≤ ctx.pageTables ∨ ctx.pageTables + pageTableSize * pageSize ≤ ctx.pageDirectory

/-- the walk sends the address to physical address `pa`, writable and not for users -/
def Sends (mi : KernelMeminfo) (mem : Tables) (pageDirectory va pa : ℕ) : Prop :=
  ∃ frame, walk mi mem pageDirectory va = some ⟨frame, true, false⟩ ∧ frame + va % pageSize = pa

theorem InImage.placed (hc : InImage mi ctx) (hb : BelowHeap mi) : Placed mi ctx where
  base := hb.base
  aligned := hc.tables_aligned
  fits := hc.tables_end.trans mi.virtualEnd_lt.le
  apart := hc.apart.imp (fun h => lt_of_lt_of_le (Nat.lt_add_of_pos_right (by decide)) h) id

/-- all calls ask for kernel pages that can be written -/
theorem createCalls_flags {c : MapCall} (hc : c ∈ createCalls mi) : c.write = true ∧ c.user = false := by
  have hflags : c.flags = pageFlagPresent ||| pageFlagWrite := by
    rcases mem_createCalls hc with ⟨i, _, rfl⟩ | ⟨i, _, rfl⟩
    · rfl
    · rfl
  unfold MapCall.write MapCall.user
  rw [hflags]
  decide

/-- so no page takes anything from another -/
theorem createCalls_grants : RegionGrants (createCalls mi) := by
  intro va _ c d hc hd
  refine ⟨fun _ => (createCalls_flags (lastCall_some hd).2).1, fun hu => ?_⟩
  rw [(createCalls_flags (lastCall_some hc).2).2] at hu
  cases hu

/-- what the last call for a page asks for -/
theorem requested_create {va : ℕ} {c : MapCall} (hcall : lastCall (forPage va) (createCalls mi) = some c) :
    requested (createCalls mi) va = some ⟨c.physicalAddr / pageSize * pageSize, true, false⟩ := by
  obtain ⟨hw, hu⟩ := createCalls_flags (lastCall_some hcall).2
  unfold requested
  rw [hcall, Option.map_some, hw, hu]

/-- **The initial mapping is exact.** The pages of the image and of the heap, and nothing else below the last 4 MB. -/
theorem initial_mapping_exact (hb : BelowHeap mi) (hc : InImage mi ctx) (var : ℕ) :
    ∃ mem', pagingCreatePageDirectory mi mem ctx.pageDirectory ctx.pageTables var = .ok (mem', ctx) ∧
      ∀ va < 0xFFC00000,
        (mi.higherHalfBase ≤ va ∧ va / pageSize * pageSize < mi.virtualEnd →
          Sends mi mem' ctx.pageDirectory va (va - mi.higherHalfBase)) ∧
        (kernelHeapVirtStart ≤ va ∧ va < kernelHeapVirtStart + kernelHeapSize →
          Sends mi mem' ctx.pageDirectory va (kernelHeapPhysStart + (va - kernelHeapVirtStart))) ∧
        (¬ (mi.higherHalfBase ≤ va ∧ va / pageSize * pageSize < mi.virtualEnd) →
          ¬ (kernelHeapVirtStart ≤ va ∧ va < kernelHeapVirtStart + kernelHeapSize) →
          walk mi mem' ctx.pageDirectory va = none) := by
  have hp := hc.placed hb
  have hbase := hb.base
  have hend := hb.end_le
  obtain ⟨mem₀, hz, hok⟩ := @create_eq mi ctx mem hc.directory_ne hc.tables_ne var
  refine ⟨_, hok, fun va hva => ?_⟩
  have hwalk := (permissions_independent hp hz (createCalls mi)).2 createCalls_grants va hva
  unfold Sends
  rw [walk_setEntry_last _ _ hp hva (mapAll_leads hp hz _ (by omega)), hwalk]
  refine ⟨fun ⟨h1, h2⟩ => ?_, fun ⟨h1, h2⟩ => ?_, fun h1 h2 => ?_⟩
  · rw [requested_create (lastCall_kernel hb h1 h2)]
    refine ⟨_, rfl, ?_⟩
    change u32 ((va - mi.higherHalfBase) / pageSize * pageSize) / pageSize * pageSize + va % pageSize = va - mi.higherHalfBase
    have hlt : (va - mi.higherHalfBase) / pageSize * pageSize < 2 ^ 32 :=
      lt_of_le_of_lt ((Nat.div_mul_le_self _ _).trans (Nat.sub_le _ _)) (by omega)
    rw [u32_of_lt hlt]
    simp only [pageSize] at hbase ⊢
    omega
  · rw [requested_create (lastCall_heap hb h1 h2)]
    refine ⟨_, rfl, ?_⟩
    change u32 (kernelHeapPhysStart + (va - kernelHeapVirtStart) / pageSize * pageSize) / pageSize * pageSize + va % pageSize =
      kernelHeapPhysStart + (va - kernelHeapVirtStart)
    have hlt : kernelHeapPhysStart + (va - kernelHeapVirtStart) / pageSize * pageSize < 2 ^ 32 := by
      simp only [pageSize, kernelHeapVirtStart, kernelHeapPhysStart, kernelHeapSize] at h1 h2 ⊢
      omega
    rw [u32_of_lt hlt]
    simp only [pageSize, kernelHeapVirtStart, kernelHeapPhysStart] at h1 ⊢
    omega
  · unfold requested
    rw [lastCall_other hb h1 h2, Option.map_none]

end Create

theorem eightMegabytes_lt : 0x800000 < 2 ^ 32 := by decide

/-- an image of 5 MB at 1 MB: its last 4 MB page is the second -/
def fiveMegabytes : KernelMeminfo :=
  ⟨0x100000, 0x800000, 0xC0100000, 0xC0800000, 0xC0000000, KernelMeminfo.atOneMegabyte.physicalStart_lt, eightMegabytes_lt,
    KernelMeminfo.atOneMegabyte.virtualStart_lt, by decide, KernelMeminfo.atOneMegabyte.higherHalfBase_lt⟩

/-- the last byte of such an image -/
theorem boot_switch_seamless_last_byte :
    LinkedImage fiveMegabytes ∧ ∃ mem',
      pagingCreatePageDirectory fiveMegabytes blank context.pageDirectory context.pageTables 0xC0103FFC =
        .ok (mem', context) ∧
      translate fiveMegabytes (pagingBootstrap fiveMegabytes blank 0x101000) 0x101000 0xC07FFFFF = some 0x7FFFFF ∧
      translate fiveMegabytes mem' context.pageDirectory 0xC07FFFFF = some 0x7FFFFF := by
  have hl : LinkedImage fiveMegabytes := by decide
  have hp : Placed fiveMegabytes context := by decide
  obtain ⟨mem', hok, h⟩ := boot_switch_seamless blank hl hp (by decide) (by decide) 0x101000 0xC0103FFC
  exact ⟨hl, mem', hok, h 0xC07FFFFF (by decide) (by decide)⟩

/-- the second page of such an image, the last byte of the heap, and the page after the image -/
theorem initial_mapping_exact_five_megabytes :
    ∃ mem', pagingCreatePageDirectory fiveMegabytes blank context.pageDirectory context.pageTables 0xC0103FFC =
        .ok (mem', context) ∧
      Sends fiveMegabytes mem' context.pageDirectory 0xC0001234 0x1234 ∧
      Sends fiveMegabytes mem' context.pageDirectory 0xE2FFFFFF 0x37FFFFF ∧
      walk fiveMegabytes mem' context.pageDirectory 0xC0800000 = none := by
  have hb : BelowHeap fiveMegabytes := ⟨by decide, by decide⟩
  have hc : InImage fiveMegabytes context :=
    ⟨by decide, by decide, by decide, by decide, by decide, by decide, by decide, by decide, by decide⟩
  obtain ⟨mem', hok, h⟩ := initial_mapping_exact blank hb hc 0xC0103FFC
  exact ⟨mem', hok, (h 0xC0001234 (by decide)).1 (by decide), (h 0xE2FFFFFF (by decide)).2.1 (by decide),
    (h 0xC0800000 (by decide)).2.2 (by decide) (by decide)⟩

end Gubos.Paging
