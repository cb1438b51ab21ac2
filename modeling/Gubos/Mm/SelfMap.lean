/-
The last entry of every page directory (`init_paging` in `mm/paging.c`, `vmm_clone_paging_context` in `mm/vmm.c`).

The last 4 MB of the address space are reserved: the last entry of a directory points to the directory itself, so that the
directory and the tables it names are seen there (comment in `paging_create_page_directory`). A cloned directory gets the
frame that the PMM returned for it. The directory of `init_paging` gets the address of the local variable
`page_directory`, not of the directory.

- `selfMapped_exposes`: what the last 4 MB show where the last entry is right;
- `step_inv`: mapping, unmapping and cloning leave the last entries alone;
- `self_map_of_clones`: after any calls, the directories whose last entry is right are the cloned ones;
- `init_directory_not_self_mapped`: the directory of `init_paging`, with the variable on the kernel stack.

The page fault that the first access to a new directory takes is a `map` step of its own.

Premises: the kernel's VMM context does not have the pages of the directory and the tables in its free list, and the variable
is not in the page of the directory (`Start`).
-/
import Gubos.Mm.Calls
import Gubos.Mm.PageUnmap
import Gubos.Mm.PagingInit
import Gubos.Mm.Pmm

namespace Gubos.SelfMap

open Gubos.Core Gubos.Paging Gubos.Vmm Gubos.Pmm

/-! ## The code -/

/-- `memcpy` of a `page_table_t` -/
def copyTable (mem : Tables) (destination source : ℕ) : Tables := Function.update mem destination (mem source)

/-- `vmm_clone_paging_context`, with the frame of the new directory -/
def vmmClonePagingContext (A : Allocator) (mi : KernelMeminfo) (s : Space) (bm : Bitmap) (mem : Tables)
    (pagingCtx : PagingContext) : Except Fault (Space × Bitmap × Tables × PagingContext × ℕ) := do
  let (physicalAddr, bm) ← pmmAllocPage bm
  let (heap, ctx, pageDirectory) ←
    vmmMapPages A mi s.heap s.ctx 0 physicalAddr 1 (pageFlagPresent ||| pageFlagWrite)
  let mem := copyTable mem pageDirectory pagingCtx.pageDirectory
  let mem := setEntry mem pageDirectory (pageTableSize - 1) (physicalAddr ||| pageFlagPresent ||| pageFlagWrite)
  .ok (⟨heap, ctx⟩, bm, mem, ⟨pageDirectory, pagingCtx.pageTables⟩, physicalAddr)

/-! ## Runs -/

/-- a paging context, the frame of its directory, and whether it is a clone -/
structure Directory where
  ctx : PagingContext
  frame : ℕ
  cloned : Bool
deriving DecidableEq, Repr

structure St where
  space : Space
  bitmap : Bitmap
  tables : Tables
  contexts : List Directory

inductive Op where
  | map (virtualAddr physicalAddr flags : ℕ)
  | unmap (virtualAddr : ℕ)
  | clone
deriving DecidableEq, Repr

/-- a call on context `d` -/
def call (A : Allocator) (mi : KernelMeminfo) (s : St) (d : Directory) : Op → Except Fault St
  | .map virtualAddr physicalAddr flags =>
    .ok { s with tables := pagingMapVirtualToPhysical mi d.ctx s.tables virtualAddr physicalAddr flags }
  | .unmap virtualAddr => .ok { s with tables := pagingUnmapAddr mi d.ctx s.tables virtualAddr }
  | .clone => do
    let (space, bitmap, tables, ctx, frame) ← vmmClonePagingContext A mi s.space s.bitmap s.tables d.ctx
    .ok ⟨space, bitmap, tables, s.contexts ++ [⟨ctx, frame, true⟩]⟩

/-- a call on the `i`-th context, if there is one -/
def step (A : Allocator) (mi : KernelMeminfo) (s : St) (o : ℕ × Op) : Except Fault St :=
  match s.contexts[o.1]? with
  | none => .ok s
  | some d => call A mi s d o.2

/-- mapping and unmapping below the last 4 MB; a clone while the first free block that suits does not consist of one page -/
def Allowed (mi : KernelMeminfo) (s : St) (o : ℕ × Op) : Prop :=
  match o.2 with
  | .map virtualAddr _ _ => virtualAddr < 0xFFC00000
  | .unmap virtualAddr => virtualAddr < 0xFFC00000
  | .clone => ∀ l t, Shape s.space l t → FitOk mi l 0 1 (pageFlagPresent ||| pageFlagWrite)

/-! ## The self-map -/

/-- the frame that the two-level walk finds, with the frames of physical memory read as tables -/
def walkFrames (frames : ℕ → ℕ → ℕ) (directory : ℕ → ℕ) (virtualAddr : ℕ) : Option ℕ :=
  let pde := directory (pageDirectoryIndex virtualAddr)
  if present pde then
    let pte := frames (frameOf pde) (pageTableIndex virtualAddr)
    if present pte then some (frameOf pte) else none
  else none

/-- the last entry of a directory that is in frame `frame` -/
structure LastEntry (directory : ℕ → ℕ) (frame : ℕ) : Prop where
  present : present (directory 1023) = true
  writable : writable (directory 1023) = true
  frame : frameOf (directory 1023) = frame

/-- the last 4 MB show the frames of the directory's entries, the last of which is that of the directory -/
def Exposes (directory : ℕ → ℕ) (frame : ℕ) : Prop :=
  ∀ frames : ℕ → ℕ → ℕ, frames frame = directory → ∀ i < 1024,
    walkFrames frames directory (0xFFC00000 + i * pageSize) =
      if present (directory i) then some (frameOf (directory i)) else none

def SelfMapped (s : St) (d : Directory) : Prop :=
  LastEntry (s.tables d.ctx.pageDirectory) d.frame ∧ Exposes (s.tables d.ctx.pageDirectory) d.frame

theorem selfMapped_exposes {directory : ℕ → ℕ} {frame : ℕ} (h : LastEntry directory frame) : Exposes directory frame := by
  intro frames hf i hi
  have hd : pageDirectoryIndex (0xFFC00000 + i * pageSize) = 1023 := by
    rw [pageDirectoryIndex_eq]
    simp only [pageSize]
    omega
  have ht : pageTableIndex (0xFFC00000 + i * pageSize) = i := by
    rw [pageTableIndex_eq]
    simp only [pageSize]
    omega
  unfold walkFrames
  dsimp only
  rw [hd, ht, if_pos h.present, h.frame, hf]

/-- the present and write flags do not change the frame of an entry -/
theorem frameOf_present_write (a : ℕ) : frameOf (a ||| pageFlagPresent ||| pageFlagWrite) = frameOf a := by
  have h : (a ||| 3) >>> 12 = a >>> 12 := by
    rw [Nat.shiftRight_or_distrib]
    exact Nat.or_zero _
  rw [Nat.shiftRight_eq_div_pow, Nat.shiftRight_eq_div_pow] at h
  unfold frameOf
  rw [Nat.or_assoc]
  exact congrArg (· * pageSize) h

theorem present_present_write (a : ℕ) : present (a ||| pageFlagPresent ||| pageFlagWrite) = true := by
  unfold present
  rw [Nat.or_assoc, Nat.testBit_or]
  exact Bool.or_true _

theorem writable_present_write (a : ℕ) : writable (a ||| pageFlagPresent ||| pageFlagWrite) = true := by
  unfold writable
  rw [Nat.or_assoc, Nat.testBit_or]
  exact Bool.or_true _

/-! ## The invariant -/

/-- what the last entry of a directory was set to -/
def lastEntry (mi : KernelMeminfo) (var : ℕ) (d : Directory) : ℕ :=
  (if d.cloned then d.frame else vmmVirtualToPhysical mi var) ||| pageFlagPresent ||| pageFlagWrite

/-- the tables and the directories are in pages that are not free -/
structure Reserved (pageTables : ℕ) (contexts : List Directory) (l : List (ℕ × Area)) : Prop where
  tables : ∀ i < 1024, freeCover l (pageTables / pageSize + i) = 0
  directories : ∀ d ∈ contexts, freeCover l (d.ctx.pageDirectory / pageSize) = 0

structure Inv (mi : KernelMeminfo) (pageTables var : ℕ) (s : St) : Prop where
  vmm : ∃ l t, Rep s.space.heap s.space.ctx l t ∧ FreeOk l ∧ Reserved pageTables s.contexts l
  shared : ∀ d ∈ s.contexts, d.ctx.pageTables = pageTables
  placed : ∀ d ∈ s.contexts, Placed mi d.ctx
  aligned : ∀ d ∈ s.contexts, d.cloned = true → d.frame % pageSize = 0
  first : ∀ d ∈ s.contexts, d.cloned = false →
    d.frame = vmmVirtualToPhysical mi d.ctx.pageDirectory ∧ d.ctx.pageDirectory % pageSize = 0 ∧
      d.ctx.pageDirectory < 2 ^ 32 ∧ var < 2 ^ 32 ∧ var / pageSize ≠ d.ctx.pageDirectory / pageSize
  entry : ∀ d ∈ s.contexts, s.tables d.ctx.pageDirectory 1023 = lastEntry mi var d

section Steps

variable {A : Allocator} {mi : KernelMeminfo} {pageTables var : ℕ} {s s' : St}

/-- entry `j` of `directory` is neither of the two that a call below the last 4 MB writes -/
theorem last_ne {ctx ctx' : PagingContext} (hp : Placed mi ctx) (hs : ctx'.pageTables = ctx.pageTables) {va : ℕ}
    (hva : va < 0xFFC00000) :
    1023 ≠ pageDirectoryIndex va ∧ ctx.pageDirectory ≠ ctx'.table (pageDirectoryIndex va) := by
  have hidx : pageDirectoryIndex va < 1023 := by
    rw [pageDirectoryIndex_eq]
    omega
  exact ⟨by omega, hp.directory_ne_shared hs (by omega)⟩

/-- the last entries of all directories stay -/
theorem Inv.setTables (h : Inv mi pageTables var s) {tables : Tables}
    (hsame : ∀ d ∈ s.contexts, tables d.ctx.pageDirectory 1023 = s.tables d.ctx.pageDirectory 1023) :
    Inv mi pageTables var { s with tables := tables } :=
  { h with entry := fun d hd => (hsame d hd).trans (h.entry d hd) }

theorem inv_map (h : Inv mi pageTables var s) {d : Directory} (hd : d ∈ s.contexts) {va pa flags : ℕ}
    (hva : va < 0xFFC00000) :
    Inv mi pageTables var { s with tables := pagingMapVirtualToPhysical mi d.ctx s.tables va pa flags } := by
  refine h.setTables fun e he => ?_
  obtain ⟨h1, h2⟩ := last_ne (h.placed e he) ((h.shared d hd).trans (h.shared e he).symm) hva
  unfold pagingMapVirtualToPhysical
  rw [setEntry_of_ne _ (Or.inl h2), setEntry_of_ne _ (Or.inr h1)]

theorem inv_unmap (h : Inv mi pageTables var s) {d : Directory} (hd : d ∈ s.contexts) {va : ℕ} (hva : va < 0xFFC00000) :
    Inv mi pageTables var { s with tables := pagingUnmapAddr mi d.ctx s.tables va } := by
  refine h.setTables fun e he => ?_
  obtain ⟨h1, h2⟩ := last_ne (h.placed e he) ((h.shared d hd).trans (h.shared e he).symm) hva
  exact unmapAddr_of_ne s.tables (Or.inr h1) (Or.inl h2)

/-- a page that was free is none of the reserved ones -/
theorem Reserved.ne {contexts : List Directory} {l : List (ℕ × Area)} (h : Reserved pageTables contexts l) {r : ℕ}
    (hfree : freeCover l (r / pageSize) ≠ 0) :
    (∀ d ∈ contexts, d.ctx.pageDirectory ≠ r) ∧ ∀ i < 1024, r / pageSize ≠ pageTables / pageSize + i := by
  refine ⟨fun d hd he => hfree ?_, fun i hi he => hfree ?_⟩
  · rw [← he]
    exact h.directories d hd
  · rw [he]
    exact h.tables i hi

theorem Reserved.mono {contexts : List Directory} {l l' : List (ℕ × Area)} (h : Reserved pageTables contexts l)
    (hle : ∀ p, freeCover l p = 0 → freeCover l' p = 0) : Reserved pageTables contexts l' :=
  ⟨fun i hi => hle _ (h.tables i hi), fun d hd => hle _ (h.directories d hd)⟩

/-- what a clone leaves: a page `r` that was free, and is none of the tables, is a copy of the directory -/
structure Cloned (mi : KernelMeminfo) (pageTables : ℕ) (s : St) (d : Directory) (r pa : ℕ) (s' : St) : Prop where
  vmm : ∃ l t, Rep s'.space.heap s'.space.ctx l t ∧ FreeOk l ∧ Reserved pageTables s'.contexts l
  contexts : s'.contexts = s.contexts ++ [⟨⟨r, d.ctx.pageTables⟩, pa, true⟩]
  tables : s'.tables = setEntry (copyTable s.tables r d.ctx.pageDirectory) r (pageTableSize - 1)
    (pa ||| pageFlagPresent ||| pageFlagWrite)
  aligned : pa % pageSize = 0
  apart : ∀ e ∈ s.contexts, e.ctx.pageDirectory ≠ r
  placed : Placed mi ⟨r, d.ctx.pageTables⟩

namespace Cloned

variable {d : Directory} {r pa : ℕ}

theorem cases (h : Cloned mi pageTables s d r pa s') {e : Directory} (he : e ∈ s'.contexts) :
    e ∈ s.contexts ∨ e = ⟨⟨r, d.ctx.pageTables⟩, pa, true⟩ := by
  rw [h.contexts] at he
  exact (List.mem_append.1 he).imp_right List.mem_singleton.1

/-- the new directory is all that was written -/
theorem table_of_ne (h : Cloned mi pageTables s d r pa s') {t : ℕ} (ht : t ≠ r) : s'.tables t = s.tables t := by
  rw [h.tables]
  funext j
  rw [setEntry_of_ne _ (Or.inl ht)]
  exact congrFun (Function.update_of_ne ht _ _) j

/-- its entries, but the last, are copies -/
theorem copied (h : Cloned mi pageTables s d r pa s') {j : ℕ} (hj : j < 1023) :
    s'.tables r j = s.tables d.ctx.pageDirectory j := by
  rw [h.tables, setEntry_of_ne _ (Or.inr (show j ≠ pageTableSize - 1 by simp only [pageTableSize]; omega))]
  exact congrFun (Function.update_self ..) j

end Cloned

/-- **Cloning.** -/
theorem clone_cloned (h : Inv mi pageTables var s) {d : Directory} (hd : d ∈ s.contexts)
    (hfit : ∀ l t, Shape s.space l t → FitOk mi l 0 1 (pageFlagPresent ||| pageFlagWrite))
    (hok : call A mi s d .clone = .ok s') : ∃ r pa, Cloned mi pageTables s d r pa s' := by
  obtain ⟨⟨space, bitmap, tables, ctx, frame⟩, hclone, hok⟩ := bind_ok.1 hok
  cases hok
  obtain ⟨⟨pa, bm⟩, halloc, hclone⟩ := bind_ok.1 hclone
  obtain ⟨⟨heap, vctx, r⟩, hmap, hclone⟩ := bind_ok.1 hclone
  cases hclone
  obtain ⟨l, t, hrep, hf, hres⟩ := h.vmm
  obtain ⟨l₁, c, l₂, m, t', rfl, hcut, _, hrep', _⟩ :=
    map_cases hrep hf rfl (hfit l t ⟨hrep.list, hrep.tree⟩) hmap
  have hpl := h.placed d hd
  have hshared := h.shared d hd
  -- the page of the new directory was free, and is not free any more
  have hral := hcut.aligned
  have hhit : Tiling.hit (span ⟨r, 1⟩) (r / pageSize) = 1 := Tiling.hit_of_mem le_rfl (Nat.lt_succ_self _)
  have hcover := fun x => @Cut.cover l₁ l₂ c 1 r m hcut x
  have hone := hf.cover_le_one (r / pageSize)
  obtain ⟨hdir, htab⟩ := hres.ne (r := r) (by have := hcover (r / pageSize); omega)
  refine ⟨r, frame, ⟨_, t', hrep', hf.refine hcut.ok hcut.inside, ?_, ?_⟩, rfl, rfl, (allocPage_aligned halloc).1, hdir, ?_⟩
  · intro j hj
    have h1 := hres.tables j hj
    have h2 := hcover (pageTables / pageSize + j)
    omega
  · intro e he
    rcases List.mem_append.1 he with he | he
    · have h1 := hres.directories e he
      have h2 := hcover (e.ctx.pageDirectory / pageSize)
      omega
    · rw [List.mem_singleton.1 he]
      have := hcover (r / pageSize)
      dsimp only
      omega
  · refine ⟨hpl.base, hpl.aligned, hpl.fits, ?_⟩
    dsimp only
    by_contra hin
    have hal := hpl.aligned
    refine htab ((r - pageTables) / pageSize) ?_ ?_
    · simp only [hshared, pageTableSize, pageSize] at hin hal ⊢
      omega
    · simp only [hshared, pageTableSize, pageSize] at hin hal hral ⊢
      omega

theorem inv_clone (h : Inv mi pageTables var s) {d : Directory} (hd : d ∈ s.contexts)
    (hfit : ∀ l t, Shape s.space l t → FitOk mi l 0 1 (pageFlagPresent ||| pageFlagWrite))
    (hok : call A mi s d .clone = .ok s') : Inv mi pageTables var s' := by
  obtain ⟨r, pa, hcl⟩ := clone_cloned h hd hfit hok
  refine ⟨hcl.vmm, fun e he => ?_, fun e he => ?_, fun e he hc => ?_, fun e he hc => ?_, fun e he => ?_⟩
  · rcases hcl.cases he with he | rfl
    · exact h.shared e he
    · exact h.shared d hd
  · rcases hcl.cases he with he | rfl
    · exact h.placed e he
    · exact hcl.placed
  · rcases hcl.cases he with he | rfl
    · exact h.aligned e he hc
    · exact hcl.aligned
  · rcases hcl.cases he with he | rfl
    · exact h.first e he hc
    · cases hc
  · rcases hcl.cases he with he | rfl
    · rw [hcl.table_of_ne (hcl.apart e he)]
      exact h.entry e he
    · rw [hcl.tables]
      exact setEntry_self _ _ _ _

/-- **One step.** -/
theorem step_inv (h : Inv mi pageTables var s) {o : ℕ × Op} (hC : Allowed mi s o) (hok : step A mi s o = .ok s') :
    Inv mi pageTables var s' := by
  obtain ⟨i, o⟩ := o
  unfold step at hok
  dsimp only at hok
  cases hi : s.contexts[i]? with
  | none =>
    rw [hi] at hok
    cases hok
    exact h
  | some d =>
    rw [hi] at hok
    have hd : d ∈ s.contexts := List.mem_of_getElem? hi
    cases o with
    | map va pa flags =>
      cases hok
      exact inv_map h hd hC
    | unmap va =>
      cases hok
      exact inv_unmap h hd hC
    | clone => exact inv_clone h hd hC hok

/-- where the last entries are as set, those of the clones are right, and those of the others are not -/
theorem Inv.selfMapped_iff (h : Inv mi pageTables var s) {d : Directory} (hd : d ∈ s.contexts) :
    SelfMapped s d ↔ d.cloned = true := by
  have he := h.entry d hd
  unfold lastEntry at he
  cases hc : d.cloned with
  | true =>
    rw [hc, if_pos rfl] at he
    refine ⟨fun _ => rfl, fun _ => ?_⟩
    have hlast : LastEntry (s.tables d.ctx.pageDirectory) d.frame := by
      refine ⟨?_, ?_, ?_⟩
      · rw [he]
        exact present_present_write _
      · rw [he]
        exact writable_present_write _
      · have hal := h.aligned d hd hc
        rw [he, frameOf_present_write]
        unfold frameOf
        exact Nat.div_mul_cancel (Nat.dvd_of_mod_eq_zero hal)
    exact ⟨hlast, selfMapped_exposes hlast⟩
  | false =>
    rw [hc, if_neg Bool.false_ne_true] at he
    refine ⟨fun hs => ?_, fun hf => absurd hf Bool.false_ne_true⟩
    obtain ⟨hframe, hal, hlt, hvar, hne⟩ := h.first d hd hc
    have hbase := (h.placed d hd).base
    have hhigh := mi.higherHalfBase_lt
    have hfe := hs.1.frame
    rw [he, frameOf_present_write, hframe] at hfe
    exfalso
    unfold frameOf vmmVirtualToPhysical u32 at hfe
    simp only [pageSize] at hfe hal hne hbase
    omega

/-- where `init_paging` starts: the directory and the tables are in the kernel image, whose pages are not free in the
kernel's context, and the variable `page_directory` is on the stack -/
structure Start (mi : KernelMeminfo) (ctx : PagingContext) (var : ℕ) (space : Space) : Prop where
  vmm : ∃ l t, Rep space.heap space.ctx l t ∧ FreeOk l ∧ (∀ i < 1024, freeCover l (ctx.pageTables / pageSize + i) = 0) ∧
    freeCover l (ctx.pageDirectory / pageSize) = 0
  placed : Placed mi ctx
  directory_ne : ctx.pageDirectory ≠ 0
  tables_ne : ctx.pageTables ≠ 0
  aligned : ctx.pageDirectory % pageSize = 0
  directory_lt : ctx.pageDirectory < 2 ^ 32
  var_lt : var < 2 ^ 32
  on_stack : var / pageSize ≠ ctx.pageDirectory / pageSize

theorem inv_start {ctx ctx' : PagingContext} {space : Space} (hs : Start mi ctx var space) (bitmap : Bitmap)
    {mem tables : Tables} {cr3 : ℕ}
    (hinit : initPaging mi mem ctx.pageDirectory ctx.pageTables var = .ok (tables, ctx', cr3)) :
    Inv mi ctx.pageTables var ⟨space, bitmap, tables, [⟨ctx', cr3, false⟩]⟩ := by
  obtain ⟨mem₀, _, hcreate⟩ := @create_eq mi ctx mem hs.directory_ne hs.tables_ne var
  unfold initPaging at hinit
  rw [hcreate] at hinit
  cases hinit
  obtain ⟨l, t, hrep, hf, htab, hdir⟩ := hs.vmm
  refine ⟨⟨l, t, hrep, hf, htab, ?_⟩, ?_, ?_, ?_, ?_, ?_⟩
  · intro d hd
    rw [List.mem_singleton.1 hd]
    exact hdir
  · intro d hd
    rw [List.mem_singleton.1 hd]
  · intro d hd
    rw [List.mem_singleton.1 hd]
    exact hs.placed
  · intro d hd hc
    rw [List.mem_singleton.1 hd] at hc
    cases hc
  · intro d hd _
    rw [List.mem_singleton.1 hd]
    exact ⟨rfl, hs.aligned, hs.directory_lt, hs.var_lt, hs.on_stack⟩
  · intro d hd
    rw [List.mem_singleton.1 hd]
    unfold lastEntry
    dsimp only
    rw [setEntry_self, if_neg Bool.false_ne_true]

/-- **The self-map.** After `init_paging` and any calls below the last 4 MB, the last entry of a directory is present,
writable and holds the frame of the directory, if and only if the directory is a clone. -/
theorem self_map_of_clones {ctx ctx' : PagingContext} {space : Space} (hs : Start mi ctx var space) {bitmap : Bitmap}
    {mem tables : Tables} {cr3 : ℕ}
    (hinit : initPaging mi mem ctx.pageDirectory ctx.pageTables var = .ok (tables, ctx', cr3)) {ops : List (ℕ × Op)}
    (hrun : Runs (step A mi) (Allowed mi) ⟨space, bitmap, tables, [⟨ctx', cr3, false⟩]⟩ ops s) :
    ∀ d ∈ s.contexts, SelfMapped s d ↔ d.cloned = true := by
  have hinv : Inv mi ctx.pageTables var s :=
    hrun.inv (P := Inv mi ctx.pageTables var) (fun _ _ _ h hC hok => step_inv h hC hok) (inv_start hs bitmap hinit)
  exact fun d hd => hinv.selfMapped_iff hd

end Steps

/-! ## Concrete runs -/

section Concrete

/-- the directory in the kernel image, the tables in the last 4 MB, and a variable on the stack -/
def kernelContext : PagingContext := ⟨0xC0100000, 0xFFC00000⟩
def stackVariable : ℕ := 0xC01FFFD0

def kernelSpace : Space := ⟨fresh.1, fresh.2⟩

def booted : Tables × PagingContext × ℕ := returned (blank, kernelContext, 0)
  (initPaging .atOneMegabyte blank kernelContext.pageDirectory kernelContext.pageTables stackVariable)

theorem booted_eq : initPaging .atOneMegabyte blank kernelContext.pageDirectory kernelContext.pageTables stackVariable =
    .ok booted := eq_returned _ (by decide +kernel)

theorem start_kernelSpace : Start .atOneMegabyte kernelContext stackVariable kernelSpace := by
  have hcover : ∀ x, 0xC0100 ≤ x → x < 0xC0200 ∨ 0xFFC00 ≤ x → freeCover freshBlocks x = 0 := by
    intro x h1 h2
    simp only [freshBlocks, freeCover_cons, freeCover_nil, Tiling.hit_eq, span, pageSize]
    rw [if_neg (by omega), if_neg (by omega), if_neg (by omega)]
  refine ⟨⟨_, _, fresh_rep, freshBlocks_ok, ?_, ?_⟩, ?_, ?_, ?_, ?_, ?_, ?_, ?_⟩
  · intro i _
    apply hcover
    · simp only [kernelContext, pageSize]
      omega
    · simp only [kernelContext, pageSize]
      omega
  · exact hcover _ (by decide) (by decide)
  · decide
  · decide
  · decide
  · decide
  · decide
  · decide
  · decide

/-- `Allowed`, for the free list that is read from memory -/
def Checked (mi : KernelMeminfo) (s : St) (o : ℕ × Op) : Prop :=
  match o.2 with
  | .map virtualAddr _ _ => virtualAddr < 0xFFC00000
  | .unmap virtualAddr => virtualAddr < 0xFFC00000
  | .clone => Shape s.space (listOf s.space) (treeOf s.space) ∧
      FitOk mi (listOf s.space) 0 1 (pageFlagPresent ||| pageFlagWrite)

instance (mi : KernelMeminfo) (s : St) : ∀ o, Decidable (Checked mi s o)
  | (_, .map virtualAddr _ _) => inferInstanceAs (Decidable (virtualAddr < 0xFFC00000))
  | (_, .unmap virtualAddr) => inferInstanceAs (Decidable (virtualAddr < 0xFFC00000))
  | (_, .clone) => inferInstanceAs (Decidable (Shape s.space (listOf s.space) (treeOf s.space) ∧
      FitOk mi (listOf s.space) 0 1 (pageFlagPresent ||| pageFlagWrite)))

theorem allowed_of_checked {mi : KernelMeminfo} {s : St} {o : ℕ × Op} (h : Checked mi s o) : Allowed mi s o := by
  obtain ⟨i, o⟩ := o
  cases o with
  | map va pa flags => exact h
  | unmap va => exact h
  | clone =>
    intro l t hs
    obtain ⟨rfl, rfl⟩ := hs.unique h.1
    exact h.2

/-- the directory is cloned, the clone is cloned, and a page is mapped and unmapped in the second clone -/
def twoClones : List (ℕ × Op) := [(0, .clone), (1, .clone), (2, .map 0x400000 0x5000 7), (2, .unmap 0x400000)]

def start : St := ⟨kernelSpace, someUsed, booted.1, [⟨booted.2.1, booted.2.2, false⟩]⟩

def afterTwoClones : St := returned start (Runs.exec (step .top .atOneMegabyte) start twoClones)

/-- the second clone, in frame 9 -/
def secondClone : Directory := ⟨⟨0xC0200000, 0xFFC00000⟩, 0x9000, true⟩

theorem self_map_of_clones_second :
    Runs (step .top .atOneMegabyte) (Allowed .atOneMegabyte) start twoClones afterTwoClones ∧
      secondClone ∈ afterTwoClones.contexts ∧ SelfMapped afterTwoClones secondClone := by
  have hchecked : Runs (step .top .atOneMegabyte) (Checked .atOneMegabyte) start twoClones afterTwoClones :=
    .of_exec (by decide +kernel) (eq_returned _ (by decide +kernel))
  have hr := hchecked.mono fun s o hC => allowed_of_checked hC
  have hm : secondClone ∈ afterTwoClones.contexts := by decide +kernel
  exact ⟨hr, hm, (self_map_of_clones start_kernelSpace booted_eq hr secondClone hm).2 rfl⟩

/-- **The directory of `init_paging` is not mapped to itself.** The directory is in frame 0x100000, and its last entry points
to frame 0x1FF000, where the variable is. -/
theorem init_directory_not_self_mapped :
    initPaging .atOneMegabyte blank kernelContext.pageDirectory kernelContext.pageTables stackVariable = .ok booted ∧
      booted.2 = (kernelContext, 0x100000) ∧ frameOf (booted.1 kernelContext.pageDirectory 1023) = 0x1FF000 ∧
      ¬ SelfMapped start ⟨kernelContext, 0x100000, false⟩ := by
  have hframe : frameOf (booted.1 kernelContext.pageDirectory 1023) = 0x1FF000 := by decide +kernel
  refine ⟨booted_eq, by decide +kernel, hframe, fun hs => ?_⟩
  have he : frameOf (booted.1 kernelContext.pageDirectory 1023) = 0x100000 := hs.1.frame
  rw [hframe] at he
  exact absurd he (by decide)

end Concrete

end Gubos.SelfMap
