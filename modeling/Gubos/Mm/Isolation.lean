/-
Two user tasks and their page faults (`interrupts/page_fault.c`, `vmm_clone_paging_context` in `mm/vmm.c`).

Every user task has a page directory of its own, but `vmm_clone_paging_context` copies the pointer to the page tables: all
directories lead to the SAME 1024 tables. A fault of one task writes its page into the shared table, and its directory entry. So a
task sees what the other has mapped in every 4 MB region in which both directories have an entry.

- `shared_of_clones`: after `init_paging` and calls of the kernel on its contexts, directories are different, lead to the same
  tables, and have in the user half only what the kernel mapped there;
- `fault_handled`: what a fault of a task writes;
- `fault_inv`: what it keeps, if the other directory has no entry for its 4 MB, and the frame was not mapped for the other task
  (`FaultApart`);
- `isolation_kept`: so in every run of such faults, a walk of a user address ends in a frame of the task's own record, or nowhere,
  and any other fault ends this;
- `stack_pages_shared`: two tasks that touch the same page of their stacks.

What the kernel mapped in the user half before is there for both tasks: the stack of the first task is at address 0 (see
`kernel_stack_at_zero`), its pages are in the shared tables and its record is in the VMM context of every task.

Premises: before the tasks run, VMM calls of the kernel leave its free list in order, and unmap no directory or table (`VmmAllowed`);
its records may go wrong. User records are page-aligned, have `PAGE_FLAG_PRESENT` and no bits above the flags, and their frames are
marked in the bitmap (`UserRecords`; the loader and `init_create_user_task` take a page of the PMM for each). The pages that are in
the user half at the start have frames of the records that both tasks have for them (`Inherited`; they have if the PMM gave that
stack consecutive frames). A page is left in the PMM when a record needs one. The VMM contexts are fixed, as the handler does not
change them. TLB contents are ignored.
-/
import Gubos.Mm.Backing
import Gubos.Mm.SelfMap

namespace Gubos.Isolation

open Gubos.Core Gubos.Paging Gubos.Vmm Gubos.Pmm Gubos.PageFault Gubos.Backing Gubos.SelfMap

/-! ## Directories before the tasks run -/

/-- what the kernel does before the tasks run: it calls on a paging context, or maps and unmaps in its own VMM context -/
inductive BootCall where
  | paging (context : ℕ) (o : SelfMap.Op)
  | vmm (o : Call)
deriving DecidableEq, Repr

def bootStep (A : Allocator) (mi : KernelMeminfo) (s : SelfMap.St) : BootCall → Except Fault SelfMap.St
  | .paging i o => SelfMap.step A mi s (i, o)
  | .vmm o => do
    let space ← Vmm.step A mi s.space o
    .ok { s with space := space }

/-- the pages of the tables and of the directories -/
def ReservedPage (pageTables : ℕ) (contexts : List Directory) (p : ℕ) : Prop :=
  (∃ i < 1024, p = pageTables / pageSize + i) ∨ ∃ d ∈ contexts, p = d.ctx.pageDirectory / pageSize

/-- the pages are not free and go back to the free list as they are; a node that is removed has the right parent link -/
structure ReturnOk (mi : KernelMeminfo) (s : Space) (l : List (ℕ × Area)) (t : BinaryTree (ℕ × VmmAllocation))
    (virtualAddr pageCount : ℕ) : Prop where
  merge : MergeOk mi (before virtualAddr l).getLast? (after virtualAddr l).head? virtualAddr pageCount
  parent : pageCount = virtualAddr → ∀ c ∈ descend (startDir virtualAddr) t, ParentOk s.heap s.ctx t c.1
  apart : ∀ c ∈ l, c.2.virtualAddr + c.2.pageCount * pageSize ≤ virtualAddr ∨
    virtualAddr + pageCount * pageSize ≤ c.2.virtualAddr

/-- a call of the VMM that leaves the free list in order; what it unmaps is not free, and not reserved. The records may go wrong,
as they do when a file has two pages in a row. -/
def VmmAllowed (mi : KernelMeminfo) (pageTables : ℕ) (s : SelfMap.St) : Call → Prop
  | .map virtualAddr _ pageCount flags => virtualAddr % pageSize = 0 ∧
      ∀ l t, Shape s.space l t → FitOk mi l virtualAddr pageCount flags
  | .unmap virtualAddr pageCount => AreaOk ⟨virtualAddr, pageCount⟩ ∧
      (∀ p, ReservedPage pageTables s.contexts p → Tiling.hit (span ⟨virtualAddr, pageCount⟩) p = 0) ∧
      ∀ l t, Shape s.space l t → ReturnOk mi s.space l t virtualAddr pageCount

def BootAllowed (mi : KernelMeminfo) (pageTables : ℕ) (s : SelfMap.St) : BootCall → Prop
  | .paging i o => Allowed mi s (i, o)
  | .vmm o => VmmAllowed mi pageTables s o

/-- calls with flags in the lower 12 bits that map in the user half no pages but `pages` -/
def KernelCall (mi : KernelMeminfo) (pages : ℕ → Prop) : BootCall → Prop
  | .paging _ (.map virtualAddr _ flags) =>
    (mi.higherHalfBase ≤ virtualAddr ∨ pages (virtualAddr / pageSize)) ∧ flags < 4096
  | .paging _ (.unmap _) => True
  | .paging _ .clone => True
  | .vmm _ => True

instance (mi : KernelMeminfo) (pages : ℕ → Prop) [DecidablePred pages] : ∀ o, Decidable (KernelCall mi pages o)
  | .paging _ (.map virtualAddr _ flags) =>
    inferInstanceAs (Decidable ((mi.higherHalfBase ≤ virtualAddr ∨ pages (virtualAddr / pageSize)) ∧ flags < 4096))
  | .paging _ (.unmap _) => .isTrue trivial
  | .paging _ .clone => .isTrue trivial
  | .vmm _ => .isTrue trivial

theorem KernelCall.any {mi : KernelMeminfo} {pages : ℕ → Prop} {o : BootCall} (h : KernelCall mi pages o) :
    KernelCall mi (fun _ => True) o := by
  cases o with
  | paging i o =>
    cases o with
    | map virtualAddr physicalAddr flags => exact ⟨.inr trivial, h.2⟩
    | unmap virtualAddr => trivial
    | clone => trivial
  | vmm o => trivial

/-- the present entries of a directory, but the last, lead to its tables -/
def LeadsToTables (mi : KernelMeminfo) (mem : Tables) (ctx : PagingContext) : Prop :=
  ∀ i < 1023, present (mem ctx.pageDirectory i) = true → frameOf (mem ctx.pageDirectory i) = vmmVirtualToPhysical mi (ctx.table i)

/-- the pages of the user half that are in the tables -/
def UserPages (mi : KernelMeminfo) (pages : ℕ → Prop) (mem : Tables) (ctx : PagingContext) : Prop :=
  ∀ x < mi.higherHalfBase, present (tableEntry ctx mem x) = true → pages (x / pageSize)

/-- the 4 MB of the user half that have an entry in the directory -/
def UserRegions (mi : KernelMeminfo) (pages : ℕ → Prop) (mem : Tables) (ctx : PagingContext) : Prop :=
  ∀ i, (i + 1) * 4194304 ≤ mi.higherHalfBase → present (mem ctx.pageDirectory i) = true → ∃ p, pages p ∧ p / 1024 = i

structure Before (mi : KernelMeminfo) (pages : ℕ → Prop) (s : SelfMap.St) : Prop where
  leads : ∀ d ∈ s.contexts, LeadsToTables mi s.tables d.ctx
  distinct : (s.contexts.map fun d => d.ctx.pageDirectory).Nodup
  tables : ∀ d ∈ s.contexts, UserPages mi pages s.tables d.ctx
  regions : ∀ d ∈ s.contexts, UserRegions mi pages s.tables d.ctx

section BeforeTasks

variable {A : Allocator} {mi : KernelMeminfo} {pageTables var : ℕ} {s s' : SelfMap.St} {mem mem' : Tables}
  {ctx ctx' : PagingContext} {va pa flags : ℕ} {pages : ℕ → Prop}

theorem tableEntry_congr (h : ctx'.pageTables = ctx.pageTables) (x : ℕ) : tableEntry ctx' mem x = tableEntry ctx mem x := by
  unfold tableEntry
  rw [table_congr h]

theorem tableEntry_align (x : ℕ) : tableEntry ctx mem (pagingAlignAddr x) = tableEntry ctx mem x := by
  have hidx : pageTableIndex (pagingAlignAddr x) = pageTableIndex x := by
    rw [pageTableIndex_eq, pageTableIndex_eq]
    unfold pagingAlignAddr
    simp only [pageSize]
    omega
  unfold tableEntry
  rw [pageDirectoryIndex_align, hidx]

/-- an entry of a directory after a call on a context with the same tables -/
theorem map_entry (hp : Placed mi ctx) (h : ctx'.pageTables = ctx.pageTables) (hva : va < 2 ^ 32) (i : ℕ) :
    pagingMapVirtualToPhysical mi ctx' mem va pa flags ctx.pageDirectory i =
      if ctx.pageDirectory = ctx'.pageDirectory ∧ i = pageDirectoryIndex va then
        vmmVirtualToPhysical mi (ctx.table i) ||| flags
      else mem ctx.pageDirectory i := by
  have hne := hp.directory_ne_shared h (pageDirectoryIndex_lt hva)
  unfold pagingMapVirtualToPhysical
  rw [setEntry_of_ne _ (Or.inl hne)]
  split_ifs with hd
  · rw [hd.1, hd.2, setEntry_self, table_congr h]
  · exact setEntry_of_ne _ (not_and_or.1 hd)

/-- and an entry of the tables -/
theorem map_page (hp : Placed mi ctx') (hva : va < 2 ^ 32) {x : ℕ} (hx : x < 2 ^ 32) :
    tableEntry ctx' (pagingMapVirtualToPhysical mi ctx' mem va pa flags) x =
      if x / pageSize = va / pageSize then pa / pageSize * pageSize ||| flags else tableEntry ctx' mem x := by
  unfold tableEntry
  rw [map_table mem pa flags hp hva (pageDirectoryIndex_lt hx)]
  refine if_congr ?_ rfl rfl
  rw [pageDirectoryIndex_eq, pageDirectoryIndex_eq, pageTableIndex_eq, pageTableIndex_eq]
  simp only [pageSize]
  omega

theorem LeadsToTables.map (hl : LeadsToTables mi mem ctx) (hp : Placed mi ctx) (h : ctx'.pageTables = ctx.pageTables)
    (hva : va < 2 ^ 32) (hflags : flags < 4096) :
    LeadsToTables mi (pagingMapVirtualToPhysical mi ctx' mem va pa flags) ctx := by
  intro i hi hpres
  rw [map_entry hp h hva] at hpres ⊢
  split_ifs at hpres ⊢
  · exact frameOf_or (hp.table_aligned (by omega)) hflags
  · exact hl i hi hpres

/-- an address of the kernel half is in none of the 4 MB of the user half -/
theorem region_ne {i : ℕ} (hi : (i + 1) * 4194304 ≤ mi.higherHalfBase) (hlow : mi.higherHalfBase ≤ va) :
    i ≠ pageDirectoryIndex va := by
  rw [pageDirectoryIndex_eq]
  omega

theorem UserRegions.map (hr : UserRegions mi pages mem ctx) (hp : Placed mi ctx) (h : ctx'.pageTables = ctx.pageTables)
    (hva : va < 2 ^ 32) (hlow : mi.higherHalfBase ≤ va ∨ pages (va / pageSize)) :
    UserRegions mi pages (pagingMapVirtualToPhysical mi ctx' mem va pa flags) ctx := by
  intro i hi hpres
  rw [map_entry hp h hva] at hpres
  split_ifs at hpres with hd
  · refine ⟨va / pageSize, hlow.resolve_left fun hbase => region_ne hi hbase hd.2, ?_⟩
    rw [hd.2, pageDirectoryIndex_eq]
    simp only [pageSize]
    omega
  · exact hr i hi hpres

/-- an entry of a directory after an unmapping through a context with the same tables: it is not present any more -/
theorem unmap_entry (hp : Placed mi ctx) (h : ctx'.pageTables = ctx.pageTables) (hva : va < 2 ^ 32) {i : ℕ}
    (hpres : present (pagingUnmapAddr mi ctx' mem va ctx.pageDirectory i) = true) :
    pagingUnmapAddr mi ctx' mem va ctx.pageDirectory i = mem ctx.pageDirectory i := by
  have hidx := pageDirectoryIndex_lt hva
  have hne := hp.directory_ne_shared h hidx
  unfold pagingUnmapAddr at hpres ⊢
  rw [setEntry_of_ne _ (Or.inl hne)] at hpres ⊢
  by_cases hd : ctx.pageDirectory = ctx'.pageDirectory ∧ i = pageDirectoryIndex va
  · rw [hd.1, hd.2, setEntry_self, table_congr h, present_of_aligned (hp.table_aligned hidx)] at hpres
    cases hpres
  · exact setEntry_of_ne _ (not_and_or.1 hd)

theorem UserRegions.unmap (hr : UserRegions mi pages mem ctx) (hp : Placed mi ctx) (h : ctx'.pageTables = ctx.pageTables)
    (hva : va < 2 ^ 32) : UserRegions mi pages (pagingUnmapAddr mi ctx' mem va) ctx := by
  intro i hi hpres
  rw [unmap_entry hp h hva hpres] at hpres
  exact hr i hi hpres

theorem LeadsToTables.unmap (hl : LeadsToTables mi mem ctx) (hp : Placed mi ctx) (h : ctx'.pageTables = ctx.pageTables)
    (hva : va < 2 ^ 32) : LeadsToTables mi (pagingUnmapAddr mi ctx' mem va) ctx := by
  intro i hi hpres
  have hentry := unmap_entry hp h hva hpres
  rw [hentry] at hpres ⊢
  exact hl i hi hpres

theorem UserPages.map (hb : UserPages mi pages mem ctx) (hp : Placed mi ctx) (h : ctx'.pageTables = ctx.pageTables)
    (hp' : Placed mi ctx') (hva : va < 2 ^ 32) (hlow : mi.higherHalfBase ≤ va ∨ pages (va / pageSize)) :
    UserPages mi pages (pagingMapVirtualToPhysical mi ctx' mem va pa flags) ctx := by
  intro x hx hpres
  rw [tableEntry_congr h.symm, map_page hp' hva (hx.trans mi.higherHalfBase_lt)] at hpres
  split_ifs at hpres with hpage
  · rw [hpage]
    refine hlow.resolve_left fun hbase => ?_
    have hal := hp.base
    simp only [pageSize] at hal hpage
    omega
  · rw [tableEntry_congr h] at hpres
    exact hb x hx hpres

theorem UserPages.unmap (hb : UserPages mi pages mem ctx) (h : ctx'.pageTables = ctx.pageTables) (hp' : Placed mi ctx') :
    UserPages mi pages (pagingUnmapAddr mi ctx' mem va) ctx := by
  intro x hx hpres
  have hidx := pageDirectoryIndex_lt (hx.trans mi.higherHalfBase_lt)
  refine hb x hx ?_
  unfold tableEntry at hpres ⊢
  rw [← table_congr h] at hpres ⊢
  by_cases hsame : ctx'.table (pageDirectoryIndex x) = ctx'.table (pageDirectoryIndex va) ∧ pageTableIndex x = pageTableIndex va
  · rw [hsame.1, hsame.2, unmapAddr_table] at hpres
    cases hpres
  · rwa [unmapAddr_of_ne mem (Or.inl (Ne.symm (hp'.directory_ne hidx))) (not_and_or.1 hsame)] at hpres

/-- a clone has the entries of the directory it is made from -/
theorem before_clone (h : SelfMap.Inv mi pageTables var s) (hu : Before mi pages s) {d : Directory} (hd : d ∈ s.contexts) {r : ℕ}
    (hcl : Cloned mi pageTables s d r pa s') : Before mi pages s' := by
  have hshared : ∀ e ∈ s.contexts, d.ctx.pageTables = e.ctx.pageTables := fun e he => (h.shared d hd).trans (h.shared e he).symm
  -- the new directory is none of the tables, and none of the others
  have htables : ∀ e ∈ s.contexts, ∀ x < mi.higherHalfBase, tableEntry e.ctx s'.tables x = tableEntry e.ctx s.tables x := by
    intro e he x hx
    have hne := hcl.placed.directory_ne_shared (hshared e he).symm (pageDirectoryIndex_lt (hx.trans mi.higherHalfBase_lt))
    unfold tableEntry
    rw [hcl.table_of_ne (Ne.symm hne)]
  refine ⟨fun e he => ?_, ?_, fun e he => ?_, fun e he => ?_⟩
  · rcases hcl.cases he with he | rfl
    · intro j hj hpres
      rw [hcl.table_of_ne (hcl.apart e he)] at hpres ⊢
      exact hu.leads e he j hj hpres
    · intro j hj hpres
      dsimp only at hpres ⊢
      rw [hcl.copied hj] at hpres ⊢
      exact hu.leads d hd j hj hpres
  · rw [hcl.contexts, List.map_append, List.map_singleton]
    refine List.Nodup.append hu.distinct (List.nodup_singleton _) ?_
    intro q hq hr
    obtain ⟨e, he, rfl⟩ := List.mem_map.1 hq
    exact hcl.apart e he (List.mem_singleton.1 hr)
  · intro x hx
    rcases hcl.cases he with he | rfl
    · rw [htables e he x hx]
      exact hu.tables e he x hx
    · have hsame : tableEntry ⟨r, d.ctx.pageTables⟩ s'.tables x = tableEntry d.ctx s'.tables x := rfl
      rw [hsame, htables d hd x hx]
      exact hu.tables d hd x hx
  · intro j hj
    have hlt := mi.higherHalfBase_lt
    rcases hcl.cases he with he | rfl
    · rw [hcl.table_of_ne (hcl.apart e he)]
      exact hu.regions e he j hj
    · dsimp only
      rw [hcl.copied (by omega)]
      exact hu.regions d hd j hj

/-- **A call of the VMM.** It leaves the tables and the directories reserved. -/
theorem vmm_inv (h : SelfMap.Inv mi pageTables var s) {o : Call} {space : Space} (hC : VmmAllowed mi pageTables s o)
    (hok : Vmm.step A mi s.space o = .ok space) : SelfMap.Inv mi pageTables var { s with space := space } := by
  obtain ⟨l, t, hrep, hf, hres⟩ := h.vmm
  cases o with
  | map va pa n flags =>
    obtain ⟨hva, hfit⟩ := hC
    obtain ⟨⟨heap, vctx, r⟩, hmap, hok⟩ := bind_ok.1 hok
    cases hok
    obtain ⟨l₁, c, l₂, m, t', rfl, hcut, _, hrep', _⟩ := map_cases hrep hf hva (hfit l t ⟨hrep.list, hrep.tree⟩) hmap
    refine { h with vmm := ⟨_, t', hrep', hf.refine hcut.ok hcut.inside, hres.mono fun p hp => ?_⟩ }
    have hcover := @Cut.cover l₁ l₂ c n r m hcut p
    omega
  | unmap va n =>
    obtain ⟨ha, hout, hreturn⟩ := hC
    obtain ⟨hmerge, hparent, hapart⟩ := hreturn l t ⟨hrep.list, hrep.tree⟩
    obtain ⟨c, h₁, ctx₁, hfound, _, hadd, hcases⟩ := unmap_cases hrep hok
    obtain ⟨l', hrep', hf', hcover, _⟩ := addFreeBlocks_regained hrep hf ha hapart hmerge hadd
    have hres' : Reserved pageTables s.contexts l' := by
      refine ⟨fun i hi => ?_, fun d hd => ?_⟩
      · rw [hcover, hres.tables i hi, hout _ (.inl ⟨i, hi, rfl⟩)]
      · rw [hcover, hres.directories d hd, hout _ (.inr ⟨d, hd, rfl⟩)]
    rcases hcases with ⟨_, hshift⟩ | ⟨hdelete, hremove⟩
    · exact { h with vmm := ⟨l', _, (hshift l' hrep').1, hf', hres'⟩ }
    · exact { h with vmm := ⟨l', _, hremove (hparent hdelete c hfound) l' hrep', hf', hres'⟩ }

/-- **One call before the tasks run.** -/
theorem step_before (h : SelfMap.Inv mi pageTables var s) (hu : Before mi pages s) {o : BootCall}
    (hC : BootAllowed mi pageTables s o) (hk : KernelCall mi pages o) (hok : bootStep A mi s o = .ok s') :
    SelfMap.Inv mi pageTables var s' ∧ Before mi pages s' := by
  cases o with
  | vmm o =>
    obtain ⟨space, hspace, hok⟩ := bind_ok.1 hok
    cases hok
    exact ⟨vmm_inv h hC hspace, hu.leads, hu.distinct, hu.tables, hu.regions⟩
  | paging i o =>
    refine ⟨SelfMap.step_inv h hC hok, ?_⟩
    unfold bootStep SelfMap.step at hok
    dsimp only at hok
    cases hi : s.contexts[i]? with
    | none =>
      rw [hi] at hok
      cases hok
      exact hu
    | some d =>
      rw [hi] at hok
      have hd : d ∈ s.contexts := List.mem_of_getElem? hi
      have hshared : ∀ e ∈ s.contexts, d.ctx.pageTables = e.ctx.pageTables :=
        fun e he => (h.shared d hd).trans (h.shared e he).symm
      cases o with
      | map va pa flags =>
        cases hok
        have hva : va < 0xFFC00000 := hC
        exact ⟨fun e he => (hu.leads e he).map (h.placed e he) (hshared e he) (by omega) hk.2, hu.distinct,
          fun e he => (hu.tables e he).map (h.placed e he) (hshared e he) (h.placed d hd) (by omega) hk.1,
          fun e he => (hu.regions e he).map (h.placed e he) (hshared e he) (by omega) hk.1⟩
      | unmap va =>
        cases hok
        have hva : va < 0xFFC00000 := hC
        exact ⟨fun e he => (hu.leads e he).unmap (h.placed e he) (hshared e he) (by omega), hu.distinct,
          fun e he => (hu.tables e he).unmap (hshared e he) (h.placed d hd),
          fun e he => (hu.regions e he).unmap (h.placed e he) (hshared e he) (by omega)⟩
      | clone =>
        obtain ⟨r, pa, hcl⟩ := clone_cloned h hd hC hok
        exact before_clone h hu hd hcl

/-- `init_paging` maps nothing below the higher half -/
theorem lastCall_low (hb : BelowHeap mi) (hlow : mi.higherHalfBase ≤ kernelHeapVirtStart) {i : ℕ}
    (hi : (i + 1) * 4194304 ≤ mi.higherHalfBase) : lastCall (inRegion (i * 4194304)) (createCalls mi) = none := by
  cases hcall : lastCall (inRegion (i * 4194304)) (createCalls mi) with
  | none => rfl
  | some c =>
    obtain ⟨hregion, hc⟩ := lastCall_some hcall
    rw [inRegion_iff, pageDirectoryIndex_eq, pageDirectoryIndex_eq] at hregion
    rcases mem_createCalls hc with ⟨j, hj, rfl⟩ | ⟨j, hj, rfl⟩
    · rw [hb.kernelCall_addr hj] at hregion
      omega
    · rw [heapCall_addr hj] at hregion
      omega

/-- what `init_paging` leaves -/
theorem before_start {space : Space} {bitmap : Bitmap} {mem tables : Tables} {cr3 : ℕ} (hb : BelowHeap mi)
    (hlow : mi.higherHalfBase ≤ kernelHeapVirtStart) (hs : Start mi ctx var space)
    (hinit : initPaging mi mem ctx.pageDirectory ctx.pageTables var = .ok (tables, ctx', cr3)) :
    Before mi pages ⟨space, bitmap, tables, [⟨ctx', cr3, false⟩]⟩ := by
  obtain ⟨mem₀, hz, hcreate⟩ := @create_eq mi ctx mem hs.directory_ne hs.tables_ne var
  unfold initPaging at hinit
  rw [hcreate] at hinit
  cases hinit
  have hp := hs.placed
  have hentry : ∀ i < 1023, setEntry (mapAll mi ctx mem₀ (createCalls mi)) ctx.pageDirectory 1023
      (vmmVirtualToPhysical mi var ||| pageFlagPresent ||| pageFlagWrite) ctx.pageDirectory i =
        (lastCall (inRegion (i * 4194304)) (createCalls mi)).elim 0 fun c => vmmVirtualToPhysical mi (ctx.table i) ||| c.flags := by
    intro i hi
    have hidx : pageDirectoryIndex (i * 4194304) = i := by
      rw [pageDirectoryIndex_eq]
      exact Nat.mul_div_cancel _ (by decide)
    have hdir := @directory_entry mi ctx mem₀ hp hz (createCalls mi) (i * 4194304) (by omega)
    rw [hidx] at hdir
    rw [setEntry_of_ne _ (Or.inr (show i ≠ 1023 by omega)), hdir]
  refine ⟨fun d hd => ?_, List.nodup_singleton _, fun d hd => ?_, fun d hd => ?_⟩
  · rw [List.mem_singleton.1 hd]
    intro i hi hpres
    dsimp only at hpres ⊢
    rw [hentry i hi] at hpres ⊢
    cases hcall : lastCall (inRegion (i * 4194304)) (createCalls mi) with
    | none =>
      rw [hcall, Option.elim_none] at hpres
      exact absurd hpres (by decide)
    | some c =>
      have hflags : c.flags < 4096 := c.flags_lt.trans (by decide)
      rw [Option.elim_some]
      exact frameOf_or (hp.table_aligned (hi.trans (by decide))) hflags
  · rw [List.mem_singleton.1 hd]
    intro x hx hpres
    have hx32 := hx.trans mi.higherHalfBase_lt
    have hnone : lastCall (forPage x) (createCalls mi) = none := by
      refine lastCall_other hb (fun h => absurd h.1 (not_le.2 hx)) fun h => ?_
      exact absurd (hlow.trans h.1) (not_le.2 hx)
    unfold tableEntry at hpres
    dsimp only at hpres
    rw [setEntry_of_ne _ (Or.inl (Ne.symm (hp.directory_ne (pageDirectoryIndex_lt hx32)))), table_entry hp hz _ hx32, hnone,
      Option.elim_none] at hpres
    cases hpres
  · rw [List.mem_singleton.1 hd]
    intro i hi hpres
    have hlt := mi.higherHalfBase_lt
    dsimp only at hpres
    rw [hentry i (by omega), lastCall_low hb hlow hi, Option.elim_none] at hpres
    cases hpres

/-- **Before the tasks run.** -/
theorem shared_of_clones {space : Space} {bitmap : Bitmap} {tables : Tables} {cr3 : ℕ} {ops : List BootCall}
    (hb : BelowHeap mi) (hlow : mi.higherHalfBase ≤ kernelHeapVirtStart) (hs : Start mi ctx var space)
    (hinit : initPaging mi mem ctx.pageDirectory ctx.pageTables var = .ok (tables, ctx', cr3))
    (hrun : Runs (bootStep A mi) (fun s o => BootAllowed mi ctx.pageTables s o ∧ KernelCall mi pages o)
      ⟨space, bitmap, tables, [⟨ctx', cr3, false⟩]⟩ ops s) : SelfMap.Inv mi ctx.pageTables var s ∧ Before mi pages s := by
  refine hrun.inv (P := fun s => SelfMap.Inv mi ctx.pageTables var s ∧ Before mi pages s) ?_
    ⟨inv_start hs bitmap hinit, before_start hb hlow hs hinit⟩
  intro s o s' hi hC hok
  exact step_before hi.1 hi.2 hC.1 hC.2 hok

end BeforeTasks

/-! ## Two tasks -/

inductive TaskId where
  | a
  | b
deriving DecidableEq, Repr

def TaskId.other : TaskId → TaskId
  | .a => .b
  | .b => .a

/-- `vmm_context`, with the heap its nodes are in, and `paging_ctx` of a task -/
structure Task where
  space : Space
  pagingCtx : PagingContext

/-- `page` was mapped to `frame` on behalf of `task` -/
structure Mapped where
  task : TaskId
  page : ℕ
  frame : ℕ
deriving DecidableEq, Repr

structure Machine where
  bitmap : Bitmap
  tables : Tables
  mapped : List Mapped

/-- a page fault of a task -/
structure TaskFault where
  task : TaskId
  addr : ℕ
  errCode : ℕ
deriving DecidableEq, Repr

/-- `page_fault_handler` while `task` is the current one -/
def step (mi : KernelMeminfo) (tasks : TaskId → Task) (m : Machine) (f : TaskFault) : Except Fault Machine := do
  let t := tasks f.task
  let (bitmap, tables) ← pageFaultHandler mi t.space t.pagingCtx m.bitmap m.tables f.addr f.errCode
  let page := pagingAlignAddr f.addr
  .ok ⟨bitmap, tables, ⟨f.task, page, frameOf (tableEntry t.pagingCtx tables page)⟩ :: m.mapped⟩

/-- `frame` is one of the frames of the task's record for `x`, or the one that was taken for the page as the record has no
physical address. A record that starts with frame 0 looks like one without an address. -/
def BelongsTo (tasks : TaskId → Task) (m : Machine) (w : TaskId) (x frame : ℕ) : Prop :=
  ∃ d, vmmFindAllocation (tasks w).space.heap (tasks w).space.ctx (pagingAlignAddr x) = .ok d ∧ d.pageCount ≠ 0 ∧
    ((∃ i < d.pageCount, frame = d.physicalAddr + i * pageSize) ∨
      (d.physicalAddr = 0 ∧ ⟨w, pagingAlignAddr x, frame⟩ ∈ m.mapped))

/-- what a task can reach in the user half is its own -/
def Isolated (mi : KernelMeminfo) (tasks : TaskId → Task) (m : Machine) : Prop :=
  ∀ w, ∀ x < mi.higherHalfBase, ∀ tr, Paging.walk mi m.tables (tasks w).pagingCtx.pageDirectory x = some tr →
    BelongsTo tasks m w x tr.frame ∧ ∀ p, ⟨w.other, p, tr.frame⟩ ∉ m.mapped

/-- the lookup of `x` finds a record of the task -/
def RecordAt (t : Task) (x : ℕ) (d : VmmAllocation) : Prop :=
  vmmFindAllocation t.space.heap t.space.ctx x = .ok d ∧ d.pageCount ≠ 0

/-- the records of the two tasks in the user half -/
structure UserRecords (mi : KernelMeminfo) (tasks : TaskId → Task) (bm : Bitmap) : Prop where
  aligned : ∀ w, ∀ x < mi.higherHalfBase, ∀ d, RecordAt (tasks w) x d → d.physicalAddr % pageSize = 0
  flags : ∀ w, ∀ x < mi.higherHalfBase, ∀ d, RecordAt (tasks w) x d → d.flags < 4096 ∧ d.flags.testBit 0 = true
  marked : ∀ w, ∀ x < mi.higherHalfBase, ∀ d, RecordAt (tasks w) x d → d.physicalAddr ≠ 0 →
    used bm (d.physicalAddr / pageSize) = true

/-- a page of the user half that is in the tables at the start: it has a frame of the records that both tasks have there, which
is marked; a record that starts with this frame is in the same region -/
structure InheritedPage (mi : KernelMeminfo) (tasks : TaskId → Task) (bm : Bitmap) (x frame : ℕ) : Prop where
  belongs : ∀ w, ∃ d, RecordAt (tasks w) (pagingAlignAddr x) d ∧ ∃ i < d.pageCount, frame = d.physicalAddr + i * pageSize
  marked : used bm (frame / pageSize) = true
  apart : ∀ w, ∀ x' < mi.higherHalfBase, ∀ d, RecordAt (tasks w) x' d → d.physicalAddr ≠ 0 → d.physicalAddr = frame →
    pageDirectoryIndex x' = pageDirectoryIndex x

/-- what is in the user half at the start belongs to both tasks -/
def Inherited (mi : KernelMeminfo) (tasks : TaskId → Task) (bm : Bitmap) (mem : Tables) : Prop :=
  ∀ x < mi.higherHalfBase, present (tableEntry (tasks .a).pagingCtx mem x) = true →
    InheritedPage mi tasks bm x (frameOf (tableEntry (tasks .a).pagingCtx mem x))

/-- a fault in the user half, with a page of the PMM if the record has no physical address -/
def UserFault (mi : KernelMeminfo) (tasks : TaskId → Task) (m : Machine) (f : TaskFault) : Prop :=
  f.addr < mi.higherHalfBase ∧
    ∀ d, vmmFindAllocation (tasks f.task).space.heap (tasks f.task).space.ctx (pagingAlignAddr f.addr) = .ok d →
      d.physicalAddr = 0 → ∃ q < 2 ^ 20, used m.bitmap q = false

/-- the other task has an entry for the 4 MB in its directory -/
def OtherUses (tasks : TaskId → Task) (m : Machine) (f : TaskFault) : Prop :=
  present (m.tables (tasks f.task.other).pagingCtx.pageDirectory (pageDirectoryIndex f.addr)) = true

instance (tasks : TaskId → Task) (m : Machine) (f : TaskFault) : Decidable (OtherUses tasks m f) :=
  inferInstanceAs (Decidable (present _ = true))

/-- the other task has no entry for the 4 MB in its directory, and the frame of the record was not mapped for it -/
def FaultApart (tasks : TaskId → Task) (m : Machine) (f : TaskFault) : Prop :=
  ¬ OtherUses tasks m f ∧
    ∀ d, vmmFindAllocation (tasks f.task).space.heap (tasks f.task).space.ctx (pagingAlignAddr f.addr) = .ok d →
      d.physicalAddr ≠ 0 → ∀ p, ⟨f.task.other, p, d.physicalAddr⟩ ∉ m.mapped

/-- two directories over the same tables -/
structure SharedTables (mi : KernelMeminfo) (tasks : TaskId → Task) : Prop where
  placed : ∀ w, Placed mi (tasks w).pagingCtx
  shared : ∀ w w', (tasks w).pagingCtx.pageTables = (tasks w').pagingCtx.pageTables
  distinct : ∀ w, (tasks w.other).pagingCtx.pageDirectory ≠ (tasks w).pagingCtx.pageDirectory
  below : mi.higherHalfBase ≤ 0xFFC00000

/-- where a mapped frame comes from: the record of its page, or a page that was clear at the start -/
def FrameOrigin (mi : KernelMeminfo) (tasks : TaskId → Task) (bm₀ bm : Bitmap) (e : Mapped) : Prop :=
  ∃ q, e.frame = q * pageSize ∧ used bm q = true ∧
    ((e.page < mi.higherHalfBase ∧ ∃ d, RecordAt (tasks e.task) e.page d ∧ d.physicalAddr ≠ 0 ∧ e.frame = d.physicalAddr) ∨
      used bm₀ q = false)

/-- `frame` was mapped for `w` at the page of `x` -/
structure Owned (tasks : TaskId → Task) (m : Machine) (w : TaskId) (x frame : ℕ) : Prop where
  belongs : BelongsTo tasks m w x frame
  mapped : ⟨w, pagingAlignAddr x, frame⟩ ∈ m.mapped

/-- of the two directories only that of the task it was mapped for has an entry for the region -/
structure Alone (tasks : TaskId → Task) (m : Machine) (e : Mapped) : Prop where
  own : present (m.tables (tasks e.task).pagingCtx.pageDirectory (pageDirectoryIndex e.page)) = true
  other : present (m.tables (tasks e.task.other).pagingCtx.pageDirectory (pageDirectoryIndex e.page)) = false

/-- a page of the user half is as it was at the start, or was mapped for a task -/
structure Inv (mi : KernelMeminfo) (tasks : TaskId → Task) (m₀ m : Machine) : Prop where
  leads : ∀ w, LeadsToTables mi m.tables (tasks w).pagingCtx
  owner : ∀ x < mi.higherHalfBase, present (tableEntry (tasks .a).pagingCtx m.tables x) = true →
    tableEntry (tasks .a).pagingCtx m.tables x = tableEntry (tasks .a).pagingCtx m₀.tables x ∨
      ∃ w, Owned tasks m w x (frameOf (tableEntry (tasks .a).pagingCtx m.tables x))
  origin : ∀ e ∈ m.mapped, FrameOrigin mi tasks m₀.bitmap m.bitmap e
  alone : ∀ e ∈ m.mapped, Alone tasks m e
  apart : ∀ e ∈ m.mapped, ∀ e' ∈ m.mapped, e.frame = e'.frame → e.task = e'.task
  marked : ∀ q, used m₀.bitmap q = true → used m.bitmap q = true

section Tasks

variable {mi : KernelMeminfo} {tasks : TaskId → Task} {bm' : Bitmap} {m₀ m m' : Machine} {f : TaskFault} {d : VmmAllocation}
  {w w' : TaskId} {x pa : ℕ}

theorem TaskId.other_other (w : TaskId) : w.other.other = w := by
  cases w <;> rfl

theorem TaskId.eq_or_other (w w' : TaskId) : w' = w ∨ w' = w.other := by
  cases w <;> cases w' <;> decide

/-- **A fault that is handled.** -/
theorem step_cases (hok : step mi tasks m f = .ok m') :
    ∃ d pa bm', vmmFindAllocation (tasks f.task).space.heap (tasks f.task).space.ctx (pagingAlignAddr f.addr) = .ok d ∧
      d.pageCount ≠ 0 ∧ frameFor d m.bitmap = .ok (pa, bm') ∧
      m' = ⟨bm', pagingMapVirtualToPhysical mi (tasks f.task).pagingCtx m.tables (pagingAlignAddr f.addr) pa d.flags,
        ⟨f.task, pagingAlignAddr f.addr, entryFrame pa d.flags⟩ :: m.mapped⟩ := by
  obtain ⟨⟨bm', tables⟩, hfault, hok⟩ := bind_ok.1 hok
  obtain ⟨d, pa, hfound, hcount, hframe, rfl⟩ := handler_cases hfault
  cases hok
  rw [tableEntry_map]
  exact ⟨d, pa, bm', hfound, hcount, hframe, rfl⟩

theorem UserFault.page_lt (hf : UserFault mi tasks m f) : pagingAlignAddr f.addr < mi.higherHalfBase :=
  lt_of_le_of_lt (pagingAlignAddr_le _) hf.1

/-- a page that is taken from the PMM now was clear at the start too -/
theorem Inv.clear (hi : Inv mi tasks m₀ m) {q : ℕ} (h : used m.bitmap q = false) : used m₀.bitmap q = false := by
  by_contra hused
  have hmark := hi.marked q (by simpa using hused)
  rw [hmark] at h
  cases h

/-- the frame of a fault: it is marked then, and it has an origin -/
theorem frameFor_origin (hr : UserRecords mi tasks m₀.bitmap) (hi : Inv mi tasks m₀ m) (hf : UserFault mi tasks m f)
    (hrec : RecordAt (tasks f.task) (pagingAlignAddr f.addr) d) (hframe : frameFor d m.bitmap = .ok (pa, bm')) :
    pa % pageSize = 0 ∧ (d.physicalAddr ≠ 0 → pa = d.physicalAddr) ∧
      FrameOrigin mi tasks m₀.bitmap bm' ⟨f.task, pagingAlignAddr f.addr, pa⟩ := by
  unfold frameFor at hframe
  split_ifs at hframe with hpa
  · cases hframe
    have hal := hr.aligned _ _ hf.page_lt d hrec
    have hq : d.physicalAddr = d.physicalAddr / pageSize * pageSize := (Nat.div_mul_cancel (Nat.dvd_of_mod_eq_zero hal)).symm
    have hmark := hi.marked _ (hr.marked _ _ hf.page_lt d hrec hpa)
    exact ⟨hal, fun _ => rfl, _, hq, hmark, .inl ⟨hf.page_lt, d, hrec, hpa, rfl⟩⟩
  · obtain ⟨q, hq, rfl, hclear, hset⟩ := alloc_inBounds (s := ⟨m.bitmap, []⟩) (hf.2 d hrec.1 (not_not.1 hpa)) hframe
    have hnew : used bm' q = true := by
      rw [hset, decide_eq_true rfl, Bool.or_true]
    exact ⟨Nat.mul_mod_left _ _, fun h => absurd h hpa, q, rfl, hnew, .inr (hi.clear hclear)⟩

/-- the frame of a fault was not mapped for the other task -/
theorem frameFor_apart (hi : Inv mi tasks m₀ m) (hf : UserFault mi tasks m f) (hapart : FaultApart tasks m f)
    (hrec : RecordAt (tasks f.task) (pagingAlignAddr f.addr) d) (hframe : frameFor d m.bitmap = .ok (pa, bm')) :
    ∀ e ∈ m.mapped, e.frame = pa → e.task = f.task := by
  intro e he hsame
  obtain ⟨q, heq, hused, _⟩ := hi.origin e he
  unfold frameFor at hframe
  split_ifs at hframe with hpa
  · cases hframe
    refine (TaskId.eq_or_other f.task e.task).resolve_right fun htask => hapart.2 d hrec.1 hpa e.page ?_
    rw [← hsame, ← htask]
    exact he
  · -- a page that the PMM gives is not in use
    obtain ⟨q', _, rfl, hclear, _⟩ := alloc_inBounds (s := ⟨m.bitmap, []⟩) (hf.2 d hrec.1 (not_not.1 hpa)) hframe
    have hqq : q = q' := Nat.eq_of_mul_eq_mul_right (by decide : 0 < pageSize) (heq.symm.trans hsame)
    rw [hqq] at hused
    rw [hused] at hclear
    cases hclear

/-- what a fault of the user half does: a frame is taken, and the page and one entry of the task's directory are written -/
structure Handled (mi : KernelMeminfo) (tasks : TaskId → Task) (m₀ m : Machine) (f : TaskFault) (d : VmmAllocation)
    (pa : ℕ) (m' : Machine) : Prop where
  record : RecordAt (tasks f.task) (pagingAlignAddr f.addr) d
  ofRecord : d.physicalAddr ≠ 0 → pa = d.physicalAddr
  origin : FrameOrigin mi tasks m₀.bitmap m'.bitmap ⟨f.task, pagingAlignAddr f.addr, pa⟩
  apart : FaultApart tasks m f → ∀ e ∈ m.mapped, e.frame = pa → e.task = f.task
  marked : ∀ q, used m.bitmap q = true → used m'.bitmap q = true
  mapped : m'.mapped = ⟨f.task, pagingAlignAddr f.addr, pa⟩ :: m.mapped
  leads : ∀ w, LeadsToTables mi m'.tables (tasks w).pagingCtx
  page : ∀ w, ∀ x < mi.higherHalfBase, tableEntry (tasks w).pagingCtx m'.tables x =
    if pagingAlignAddr x = pagingAlignAddr f.addr then pa ||| d.flags else tableEntry (tasks w).pagingCtx m.tables x
  entry : present (pa ||| d.flags) = true ∧ frameOf (pa ||| d.flags) = pa
  own : ∀ i, present (m'.tables (tasks f.task).pagingCtx.pageDirectory i) = true ↔
    i = pageDirectoryIndex f.addr ∨ present (m.tables (tasks f.task).pagingCtx.pageDirectory i) = true
  other : ∀ i, m'.tables (tasks f.task.other).pagingCtx.pageDirectory i =
    m.tables (tasks f.task.other).pagingCtx.pageDirectory i

theorem align_eq_iff {x y : ℕ} : pagingAlignAddr x = pagingAlignAddr y ↔ x / pageSize = y / pageSize :=
  Nat.mul_left_inj (by decide)

/-- **One fault.** -/
theorem fault_handled (hs : SharedTables mi tasks) (hr : UserRecords mi tasks m₀.bitmap) (hi : Inv mi tasks m₀ m)
    (hf : UserFault mi tasks m f) (hok : step mi tasks m f = .ok m') : ∃ d pa, Handled mi tasks m₀ m f d pa m' := by
  obtain ⟨d, pa, bm', hfound, hcount, hframe, rfl⟩ := step_cases hok
  have hrec : RecordAt (tasks f.task) (pagingAlignAddr f.addr) d := ⟨hfound, hcount⟩
  obtain ⟨hal, hpa, horigin⟩ := frameFor_origin hr hi hf hrec hframe
  obtain ⟨hflags, hpres⟩ := hr.flags _ _ hf.page_lt d hrec
  have hpage : pa / pageSize * pageSize = pa := Nat.div_mul_cancel (Nat.dvd_of_mod_eq_zero hal)
  have hentry : entryFrame pa d.flags = pa := by
    unfold entryFrame
    rw [hpage, frameOf_or hal hflags]
  have hva : pagingAlignAddr f.addr < 2 ^ 32 := lt_of_le_of_lt (pagingAlignAddr_le _) (hf.1.trans mi.higherHalfBase_lt)
  rw [hentry]
  refine ⟨d, pa, hrec, hpa, horigin, fun hapart => frameFor_apart hi hf hapart hrec hframe,
    fun q hq => frameFor_used hframe hq, rfl, fun w => ?_, fun w x hx => ?_, ⟨?_, frameOf_or hal hflags⟩, fun i => ?_, fun i => ?_⟩
  · exact (hi.leads w).map (hs.placed w) (hs.shared _ _) hva hflags
  · dsimp only
    rw [tableEntry_congr (hs.shared w f.task), map_page (hs.placed _) hva (hx.trans mi.higherHalfBase_lt), pagingAlignAddr_div,
      hpage, tableEntry_congr (hs.shared w f.task)]
    exact if_congr align_eq_iff.symm rfl rfl
  · unfold present
    rw [testBit_or_flags hal (by decide)]
    exact hpres
  · dsimp only
    rw [map_directory m.tables pa d.flags (hs.placed _) hva, pageDirectoryIndex_align]
    split_ifs with hidx
    · refine iff_of_true ?_ (.inl hidx)
      have hlt : i < 1024 := hidx ▸ pageDirectoryIndex_lt (hf.1.trans mi.higherHalfBase_lt)
      unfold present
      rw [testBit_or_flags ((hs.placed _).table_aligned hlt) (by decide)]
      exact hpres
    · exact ⟨.inr, fun h => h.resolve_left hidx⟩
  · dsimp only
    rw [map_entry (hs.placed _) (hs.shared _ _) hva, if_neg fun h => hs.distinct _ h.1]

theorem Handled.belongs (h : Handled mi tasks m₀ m f d pa m') {frame : ℕ} (hb : BelongsTo tasks m w x frame) :
    BelongsTo tasks m' w x frame := by
  obtain ⟨d, hfound, hcount, hd | ⟨h0, hmem⟩⟩ := hb
  · exact ⟨d, hfound, hcount, .inl hd⟩
  · refine ⟨d, hfound, hcount, .inr ⟨h0, ?_⟩⟩
    rw [h.mapped]
    exact List.mem_cons_of_mem _ hmem

theorem Handled.owned_old (h : Handled mi tasks m₀ m f d pa m') {frame : ℕ} (ho : Owned tasks m w x frame) :
    Owned tasks m' w x frame := by
  refine ⟨h.belongs ho.belongs, ?_⟩
  rw [h.mapped]
  exact List.mem_cons_of_mem _ ho.mapped

/-- the page that was mapped now -/
theorem Handled.owned_new (h : Handled mi tasks m₀ m f d pa m') (hx : pagingAlignAddr x = pagingAlignAddr f.addr) :
    Owned tasks m' f.task x pa := by
  have hmem : (⟨f.task, pagingAlignAddr x, pa⟩ : Mapped) ∈ m'.mapped := by
    rw [h.mapped, hx]
    exact List.mem_cons_self
  refine ⟨⟨d, by rw [hx]; exact h.record.1, h.record.2, ?_⟩, hmem⟩
  by_cases h0 : d.physicalAddr = 0
  · exact .inr ⟨h0, hmem⟩
  · refine .inl ⟨0, Nat.pos_of_ne_zero h.record.2, ?_⟩
    rw [h.ofRecord h0, Nat.zero_mul, Nat.add_zero]

theorem Handled.alone_new (h : Handled mi tasks m₀ m f d pa m') (hother : ¬ OtherUses tasks m f) :
    Alone tasks m' ⟨f.task, pagingAlignAddr f.addr, pa⟩ := by
  constructor
  · rw [pageDirectoryIndex_align]
    exact (h.own _).2 (.inl rfl)
  · rw [pageDirectoryIndex_align, h.other]
    exact Bool.eq_false_iff.2 hother

/-- a page that was mapped before -/
theorem Handled.alone_old (h : Handled mi tasks m₀ m f d pa m') (hother : ¬ OtherUses tasks m f) {e : Mapped}
    (he : Alone tasks m e) : Alone tasks m' e := by
  obtain ⟨w, p, frame⟩ := e
  obtain ⟨hown, hnot⟩ := he
  dsimp only at hown hnot
  rcases TaskId.eq_or_other f.task w with rfl | rfl
  · refine ⟨(h.own _).2 (.inr hown), ?_⟩
    rw [h.other]
    exact hnot
  · refine ⟨?_, ?_⟩
    · rw [h.other]
      exact hown
    · -- the other task has an entry for this page, so that the fault was in another region
      rw [TaskId.other_other] at hnot
      dsimp only
      rw [TaskId.other_other]
      refine Bool.eq_false_iff.2 fun hpres => ?_
      rcases (h.own _).1 hpres with hidx | hold
      · refine hother ?_
        unfold OtherUses
        rw [← hidx]
        exact hown
      · rw [hnot] at hold
        cases hold

/-- **What a fault keeps**, if the other directory has no entry for its 4 MB and its frame was not mapped for the other task. -/
theorem fault_inv (hs : SharedTables mi tasks) (hr : UserRecords mi tasks m₀.bitmap) (hi : Inv mi tasks m₀ m)
    (hf : UserFault mi tasks m f) (hapart : FaultApart tasks m f) (hok : step mi tasks m f = .ok m') :
    Inv mi tasks m₀ m' := by
  obtain ⟨d, pa, h⟩ := fault_handled hs hr hi hf hok
  have hother := hapart.1
  refine ⟨h.leads, fun x hx hpres => ?_, fun e he => ?_, fun e he => ?_, ?_, fun q hq => h.marked q (hi.marked q hq)⟩
  · rw [h.page .a x hx] at hpres ⊢
    split_ifs at hpres ⊢ with hpage
    · rw [h.entry.2]
      exact .inr ⟨f.task, h.owned_new hpage⟩
    · exact (hi.owner x hx hpres).imp_right fun ⟨w, ho⟩ => ⟨w, h.owned_old ho⟩
  · rw [h.mapped] at he
    rcases List.mem_cons.1 he with rfl | he
    · exact h.origin
    · obtain ⟨q, h1, h2, h3⟩ := hi.origin e he
      exact ⟨q, h1, h.marked q h2, h3⟩
  · rw [h.mapped] at he
    rcases List.mem_cons.1 he with rfl | he
    · exact h.alone_new hother
    · exact h.alone_old hother (hi.alone e he)
  · intro e he e' he' hsame
    rw [h.mapped] at he he'
    rcases List.mem_cons.1 he with rfl | he
    · rcases List.mem_cons.1 he' with rfl | he'
      · rfl
      · exact (h.apart hapart e' he' hsame.symm).symm
    · rcases List.mem_cons.1 he' with rfl | he'
      · exact h.apart hapart e he hsame
      · exact hi.apart e he e' he' hsame

/-- a walk reads the shared tables, if the directory has an entry -/
theorem walk_frame_iff (hs : SharedTables mi tasks) (hl : LeadsToTables mi m.tables (tasks w).pagingCtx)
    (hx : x < mi.higherHalfBase) (frame : ℕ) :
    (∃ tr, Paging.walk mi m.tables (tasks w).pagingCtx.pageDirectory x = some tr ∧ tr.frame = frame) ↔
      present (m.tables (tasks w).pagingCtx.pageDirectory (pageDirectoryIndex x)) = true ∧
        present (tableEntry (tasks .a).pagingCtx m.tables x) = true ∧
        frameOf (tableEntry (tasks .a).pagingCtx m.tables x) = frame := by
  have hidx : pageDirectoryIndex x < 1023 := by
    have := hs.below
    rw [pageDirectoryIndex_eq]
    omega
  rw [tableEntry_congr (hs.shared .a w)]
  unfold Paging.walk tableEntry
  dsimp only
  by_cases hpde : present (m.tables (tasks w).pagingCtx.pageDirectory (pageDirectoryIndex x)) = true
  · rw [if_pos hpde, hl _ hidx hpde, vmmPhysicalToVirtual_virtualToPhysical mi ((hs.placed w).table_lt (hidx.trans (by decide)))]
    by_cases hpte : present (m.tables ((tasks w).pagingCtx.table (pageDirectoryIndex x)) (pageTableIndex x)) = true
    · rw [if_pos hpte]
      simp only [hpde, hpte, true_and, Option.some.injEq, exists_eq_left']
    · rw [if_neg hpte]
      simp only [hpte, reduceCtorEq, false_and, exists_false, and_false]
  · rw [if_neg hpde]
    simp only [hpde, reduceCtorEq, false_and, exists_false]

theorem walk_none {mem : Tables} {pageDirectory : ℕ} (h : present (mem pageDirectory (pageDirectoryIndex x)) = false) :
    Paging.walk mi mem pageDirectory x = none := by
  unfold Paging.walk
  dsimp only
  rw [if_neg (Bool.eq_false_iff.1 h)]

/-- a frame that was in the user half at the start is mapped in the region of its page only -/
theorem Inv.inherited_region (hi : Inv mi tasks m₀ m) {frame : ℕ} (hp : InheritedPage mi tasks m₀.bitmap x frame) {e : Mapped}
    (he : e ∈ m.mapped) (hsame : e.frame = frame) : pageDirectoryIndex e.page = pageDirectoryIndex x := by
  obtain ⟨q, heq, _, ⟨hlt, d, hrec, hpa, hd⟩ | hclear⟩ := hi.origin e he
  · exact hp.apart e.task _ hlt d hrec hpa (hd.symm.trans hsame)
  · have hmark := hp.marked
    rw [← hsame, heq, Nat.mul_div_cancel _ (by decide), hclear] at hmark
    cases hmark

/-- what the invariant says of walks -/
theorem Inv.isolated (hs : SharedTables mi tasks) (hin : Inherited mi tasks m₀.bitmap m₀.tables) (hi : Inv mi tasks m₀ m) :
    Isolated mi tasks m := by
  intro w x hx tr hwalk
  obtain ⟨hpde, hpte, hframe⟩ := (walk_frame_iff hs (hi.leads w) hx tr.frame).1 ⟨tr, hwalk, rfl⟩
  -- what was mapped for the other task is in regions that the directory has no entry for
  have hregion : ∀ e ∈ m.mapped, e.task = w.other → pageDirectoryIndex e.page ≠ pageDirectoryIndex x := by
    intro e he htask hidx
    have hnot := (hi.alone e he).other
    rw [htask, TaskId.other_other, hidx, hpde] at hnot
    cases hnot
  rcases hi.owner x hx hpte with hkept | ⟨v, ho⟩
  · rw [hkept] at hpte hframe
    have hpage := hin x hx hpte
    rw [hframe] at hpage
    obtain ⟨d, hrec, hd⟩ := hpage.belongs w
    exact ⟨⟨d, hrec.1, hrec.2, .inl hd⟩, fun p hp => hregion _ hp rfl (hi.inherited_region hpage hp rfl)⟩
  · rw [hframe] at ho
    rcases TaskId.eq_or_other w v with rfl | rfl
    · refine ⟨ho.belongs, fun p hp => ?_⟩
      have hsame := hi.apart _ ho.mapped _ hp rfl
      cases v <;> cases hsame
    · have hidx := hregion _ ho.mapped rfl
      dsimp only at hidx
      exact absurd (pageDirectoryIndex_align x) hidx

/-- a task whose directory has an entry for the region walks to the frame of the fault -/
theorem Handled.walk (hs : SharedTables mi tasks) (h : Handled mi tasks m₀ m f d pa m') (hx : f.addr < mi.higherHalfBase)
    (hpde : present (m'.tables (tasks w).pagingCtx.pageDirectory (pageDirectoryIndex f.addr)) = true) :
    ∃ tr, Paging.walk mi m'.tables (tasks w).pagingCtx.pageDirectory f.addr = some tr ∧ tr.frame = pa := by
  have hentry := h.page .a f.addr hx
  rw [if_pos rfl] at hentry
  exact (walk_frame_iff hs (h.leads w) hx pa).2 ⟨hpde, by rw [hentry]; exact h.entry.1, by rw [hentry]; exact h.entry.2⟩

/-- so where the other directory has an entry, the other task sees the page that was mapped -/
theorem Handled.not_isolated (hs : SharedTables mi tasks) (h : Handled mi tasks m₀ m f d pa m')
    (hx : f.addr < mi.higherHalfBase) (hother : OtherUses tasks m f) : ¬ Isolated mi tasks m' := by
  intro hiso
  have hpde : present (m'.tables (tasks f.task.other).pagingCtx.pageDirectory (pageDirectoryIndex f.addr)) = true := by
    rw [h.other]
    exact hother
  obtain ⟨tr, hwalk, hframe⟩ := h.walk hs hx hpde
  have hnot := (hiso f.task.other f.addr hx tr hwalk).2 (pagingAlignAddr f.addr)
  rw [TaskId.other_other, hframe, h.mapped] at hnot
  exact hnot List.mem_cons_self

/-- where the frame was mapped for the other task, the task that has the fault sees it -/
theorem Handled.not_isolated_frame (hs : SharedTables mi tasks) (h : Handled mi tasks m₀ m f d pa m')
    (hx : f.addr < mi.higherHalfBase) {p : ℕ} (hp : ⟨f.task.other, p, pa⟩ ∈ m.mapped) : ¬ Isolated mi tasks m' := by
  intro hiso
  have hpde : present (m'.tables (tasks f.task).pagingCtx.pageDirectory (pageDirectoryIndex f.addr)) = true :=
    (h.own _).2 (.inl rfl)
  obtain ⟨tr, hwalk, hframe⟩ := h.walk hs hx hpde
  have hnot := (hiso f.task f.addr hx tr hwalk).2 p
  rw [hframe, h.mapped] at hnot
  exact hnot (List.mem_cons_of_mem _ hp)

/-- **A fault that is not apart ends isolation.** -/
theorem Handled.faultApart (hs : SharedTables mi tasks) (h : Handled mi tasks m₀ m f d pa m')
    (hx : f.addr < mi.higherHalfBase) (hiso : Isolated mi tasks m') : FaultApart tasks m f := by
  refine ⟨fun hother => h.not_isolated hs hx hother hiso, fun d' hfound hpa p hp => ?_⟩
  rw [h.record.1] at hfound
  cases hfound
  rw [← h.ofRecord hpa] at hp
  exact h.not_isolated_frame hs hx hp hiso

/-- nothing is mapped for a task yet -/
theorem inv_start (hl : ∀ w, LeadsToTables mi m.tables (tasks w).pagingCtx) (hm : m.mapped = []) : Inv mi tasks m m := by
  have hnone : ∀ e, e ∉ m.mapped := fun e he => by
    rw [hm] at he
    cases he
  exact ⟨hl, fun x _ _ => .inl rfl, fun e he => absurd he (hnone e), fun e he => absurd he (hnone e),
    fun e he => absurd he (hnone e), fun _ h => h⟩

/-- a run of faults from the state in which nothing is mapped for a task -/
theorem isolated_run {faults : List TaskFault} (hs : SharedTables mi tasks)
    (hl : ∀ w, LeadsToTables mi m₀.tables (tasks w).pagingCtx) (hm : m₀.mapped = []) (hr : UserRecords mi tasks m₀.bitmap)
    (hin : Inherited mi tasks m₀.bitmap m₀.tables)
    (hrun : Runs (step mi tasks) (fun m f => UserFault mi tasks m f ∧ FaultApart tasks m f) m₀ faults m) :
    Isolated mi tasks m ∧ ∀ f m', UserFault mi tasks m f → step mi tasks m f = .ok m' →
      (Isolated mi tasks m' ↔ FaultApart tasks m f) := by
  have hi : Inv mi tasks m₀ m :=
    hrun.inv (P := Inv mi tasks m₀) (fun _ _ _ hi hC hok => fault_inv hs hr hi hC.1 hC.2 hok) (inv_start hl hm)
  refine ⟨hi.isolated hs hin, fun f m' hf hok => ⟨fun hiso => ?_, fun hapart => ?_⟩⟩
  · obtain ⟨d, pa, h⟩ := fault_handled hs hr hi hf hok
    exact h.faultApart hs hf.1 hiso
  · exact (fault_inv hs hr hi hf hapart hok).isolated hs hin

/-- **Isolation is kept** in every run of faults in which no task faults where the other has an entry in its directory, or with a
frame that was mapped for the other. The first fault that does so ends it. -/
theorem isolation_kept {A : Allocator} {ctx ctx' : PagingContext} {space : Space} {bitmap bm₀ : Bitmap} {mem tables : Tables}
    {var cr3 : ℕ} {calls : List BootCall} {s : SelfMap.St} {directory : TaskId → ℕ} {faults : List TaskFault}
    (hb : BelowHeap mi) (hlow : mi.higherHalfBase ≤ kernelHeapVirtStart) (hs : Start mi ctx var space)
    (hinit : initPaging mi mem ctx.pageDirectory ctx.pageTables var = .ok (tables, ctx', cr3))
    (hcalls : Runs (bootStep A mi) (fun s o => BootAllowed mi ctx.pageTables s o ∧ KernelCall mi (fun _ => True) o)
      ⟨space, bitmap, tables, [⟨ctx', cr3, false⟩]⟩ calls s)
    (htasks : ∀ w, (s.contexts.map Directory.ctx)[directory w]? = some (tasks w).pagingCtx) (hne : directory .a ≠ directory .b)
    (hr : UserRecords mi tasks bm₀) (hin : Inherited mi tasks bm₀ s.tables)
    (hrun : Runs (step mi tasks) (fun m f => UserFault mi tasks m f ∧ FaultApart tasks m f) ⟨bm₀, s.tables, []⟩ faults m) :
    Isolated mi tasks m ∧ ∀ f m', UserFault mi tasks m f → step mi tasks m f = .ok m' →
      (Isolated mi tasks m' ↔ FaultApart tasks m f) := by
  obtain ⟨hinv, hbefore⟩ := shared_of_clones hb hlow hs hinit hcalls
  have hmem : ∀ w, ∃ e ∈ s.contexts, e.ctx = (tasks w).pagingCtx := fun w => List.mem_map.1 (List.mem_of_getElem? (htasks w))
  have hdistinct : (tasks .a).pagingCtx.pageDirectory ≠ (tasks .b).pagingCtx.pageDirectory := by
    intro hsame
    have hget : ∀ w, (s.contexts.map fun e => e.ctx.pageDirectory)[directory w]? = some (tasks w).pagingCtx.pageDirectory := by
      intro w
      have h := htasks w
      rw [List.getElem?_map] at h ⊢
      obtain ⟨e, he, hctx⟩ := Option.map_eq_some_iff.1 h
      rw [he, ← hctx]
      rfl
    refine hne ((List.getElem?_inj (List.getElem?_eq_some_iff.1 (hget .a)).1 hbefore.distinct).1 ?_)
    rw [hget .a, hget .b, hsame]
  have hshared : SharedTables mi tasks := by
    refine ⟨fun w => ?_, fun w w' => ?_, fun w => ?_, hlow.trans (by decide)⟩
    · obtain ⟨e, he, hctx⟩ := hmem w
      rw [← hctx]
      exact hinv.placed e he
    · obtain ⟨e, he, hctx⟩ := hmem w
      obtain ⟨e', he', hctx'⟩ := hmem w'
      rw [← hctx, ← hctx', hinv.shared e he, hinv.shared e' he']
    · cases w with
      | a => exact hdistinct.symm
      | b => exact hdistinct
  have hleads : ∀ w, LeadsToTables mi s.tables (tasks w).pagingCtx := by
    intro w
    obtain ⟨e, he, hctx⟩ := hmem w
    rw [← hctx]
    exact hbefore.leads e he
  refine isolated_run hshared ?_ ?_ ?_ ?_ hrun
  · exact hleads
  · rfl
  · exact hr
  · exact hin

end Tasks

/-! ### Concrete runs -/

section Concrete

instance (mi : KernelMeminfo) (s : Space) (l : List (ℕ × Area)) (t : BinaryTree (ℕ × VmmAllocation)) (va n : ℕ) :
    Decidable (ReturnOk mi s l t va n) :=
  decidable_of_iff (MergeOk mi (before va l).getLast? (after va l).head? va n ∧
    (n = va → ∀ c ∈ descend (startDir va) t, ParentOk s.heap s.ctx t c.1) ∧
    ∀ c ∈ l, c.2.virtualAddr + c.2.pageCount * pageSize ≤ va ∨ va + n * pageSize ≤ c.2.virtualAddr)
    ⟨fun h => ⟨h.1, h.2.1, h.2.2⟩, fun h => ⟨h.merge, h.parent, h.apart⟩⟩

/-- `BootAllowed`, for the free list and the tree that are read from memory, and pages below all directories and tables -/
def BootChecked (mi : KernelMeminfo) (pageTables : ℕ) (s : SelfMap.St) : BootCall → Prop
  | .paging i o => Checked mi s (i, o)
  | .vmm (.map va _ n flags) => va % pageSize = 0 ∧ Shape s.space (listOf s.space) (treeOf s.space) ∧
      FitOk mi (listOf s.space) va n flags
  | .vmm (.unmap va n) => (va % pageSize = 0 ∧ 0 < n ∧ va + n * pageSize ≤ 2 ^ 32) ∧
      (va / pageSize + n ≤ pageTables / pageSize ∧ ∀ d ∈ s.contexts, va / pageSize + n ≤ d.ctx.pageDirectory / pageSize) ∧
      Shape s.space (listOf s.space) (treeOf s.space) ∧ ReturnOk mi s.space (listOf s.space) (treeOf s.space) va n

instance (mi : KernelMeminfo) (pageTables : ℕ) (s : SelfMap.St) : ∀ o, Decidable (BootChecked mi pageTables s o)
  | .paging i o => inferInstanceAs (Decidable (Checked mi s (i, o)))
  | .vmm (.map va _ n flags) => inferInstanceAs (Decidable (va % pageSize = 0 ∧
      Shape s.space (listOf s.space) (treeOf s.space) ∧ FitOk mi (listOf s.space) va n flags))
  | .vmm (.unmap va n) => inferInstanceAs (Decidable ((va % pageSize = 0 ∧ 0 < n ∧ va + n * pageSize ≤ 2 ^ 32) ∧
      (va / pageSize + n ≤ pageTables / pageSize ∧ ∀ d ∈ s.contexts, va / pageSize + n ≤ d.ctx.pageDirectory / pageSize) ∧
      Shape s.space (listOf s.space) (treeOf s.space) ∧ ReturnOk mi s.space (listOf s.space) (treeOf s.space) va n))

theorem bootAllowed_of_checked {mi : KernelMeminfo} {pageTables : ℕ} {s : SelfMap.St} {o : BootCall}
    (h : BootChecked mi pageTables s o) : BootAllowed mi pageTables s o := by
  cases o with
  | paging i o => exact allowed_of_checked h
  | vmm o =>
    cases o with
    | map va pa n flags =>
      obtain ⟨hva, hs, hfit⟩ := h
      refine ⟨hva, fun l t hlt => ?_⟩
      obtain ⟨rfl, rfl⟩ := hlt.unique hs
      exact hfit
    | unmap va n =>
      obtain ⟨⟨hva, hn, hfits⟩, ⟨htables, hdirs⟩, hs, hreturn⟩ := h
      refine ⟨⟨hva, hn, hfits⟩, fun p hp => ?_, fun l t hlt => ?_⟩
      · have habove : va / pageSize + n ≤ p := by
          rcases hp with ⟨i, _, rfl⟩ | ⟨d, hd, rfl⟩
          · omega
          · exact hdirs d hd
        rw [Tiling.hit_eq]
        unfold span
        dsimp only
        rw [if_neg (by omega)]
      · obtain ⟨rfl, rfl⟩ := hlt.unique hs
        exact hreturn

/-- `alloc_kernel_stack`, in consecutive frames: the VMM call, and the pages of the stack but the first -/
def stackCalls (stack frame : ℕ) : List BootCall :=
  .vmm (.map 0 frame 10 3) :: (List.range' 1 9).map fun i => .paging 0 (.map (stack + i * pageSize) (frame + i * pageSize) 3)

/-- a page of a segment, that is written through the kernel's context -/
def segmentCalls (va code : ℕ) : List BootCall :=
  [.vmm (.map va code 1 7), .paging 0 (.map va code 7), .vmm (.unmap va 1), .paging 0 (.unmap va)]

/-- `init_create_user_task`: the page of the file, the kernel stack, the new directory, and the pages of a segment -/
def taskCalls (file stack frame : ℕ) (code : List ℕ) : List BootCall :=
  .vmm (.map 0 file 1 3) :: stackCalls stack frame ++
    .paging 0 .clone :: code.zipIdx.flatMap fun c => segmentCalls (0x400000 + c.2 * pageSize) c.1

/-- the stack of the first task, which is at address 0 and in the first frames, and two user tasks; the file of the second has
two pages in a row -/
def bootCalls : List BootCall :=
  stackCalls 0 0 ++ taskCalls 0x20000 0xC0201000 0x21000 [0x40000] ++ taskCalls 0x30000 0xC020D000 0x31000 [0x41000, 0x44000]

/-- the first 96 frames are taken -/
def bootStart : SelfMap.St :=
  { SelfMap.start with bitmap := fun i => if i < 12 then bitmapEntryMask else 0#8 }

def created : SelfMap.St := returned bootStart (Runs.exec (bootStep .top .atOneMegabyte) bootStart bootCalls)

/-- the user pages that the kernel maps: those of the stack, and that of the segments -/
def BootPage (p : ℕ) : Prop := 1 ≤ p ∧ p < 10 ∨ p = 0x400 ∨ p = 0x401

instance : DecidablePred BootPage := fun p => inferInstanceAs (Decidable (1 ≤ p ∧ p < 10 ∨ p = 0x400 ∨ p = 0x401))

/-- the records of the tasks: that stack, the segment, and the last page of the user stack -/
def userRecords : TaskId → List VmmAllocation
  | .a => [⟨0, 0, 10, 3⟩, ⟨0x400000, 0x40000, 1, 7⟩, ⟨0x9FFFF000, 0x42000, 1, 7⟩]
  | .b => [⟨0, 0, 10, 3⟩, ⟨0x400000, 0x41000, 1, 7⟩, ⟨0x401000, 0x44000, 1, 7⟩, ⟨0x9FFFF000, 0x43000, 1, 7⟩]

def taskSpace (w : TaskId) : Space :=
  returned ⟨fresh.1, fresh.2⟩ (Runs.exec (Vmm.step .top .atOneMegabyte) ⟨fresh.1, fresh.2⟩
    ((userRecords w).map fun d => .map d.virtualAddr d.physicalAddr d.pageCount d.flags))

def someTasks (w : TaskId) : Task :=
  ⟨taskSpace w, match w with
    | .a => ⟨0xC020B000, 0xFFC00000⟩
    | .b => ⟨0xC0217000, 0xFFC00000⟩⟩

/-- before the first fault, the first 104 frames are taken -/
def taken : Bitmap := fun i => if i < 13 then bitmapEntryMask else 0#8

theorem recordAt_mem {w : TaskId} {x : ℕ} {d : VmmAllocation} (hx : x < KernelMeminfo.atOneMegabyte.higherHalfBase)
    (h : RecordAt (someTasks w) x d) : d ∈ userRecords w := by
  obtain ⟨hfound, hcount⟩ := h
  have hs : Shape (someTasks w).space (listOf (someTasks w).space) (treeOf (someTasks w).space) := by
    cases w <;> decide +kernel
  have hrep : Rep (someTasks w).space.heap (someTasks w).space.ctx (listOf (someTasks w).space) (treeOf (someTasks w).space) :=
    ⟨hs.list, hs.tree, by cases w <;> decide +kernel, by cases w <;> decide +kernel⟩
  obtain ⟨p, hp⟩ := descend_of_found hrep hcount hfound
  obtain ⟨hmem, hstop⟩ := descend_some hp
  obtain ⟨hle, _⟩ := findDir_stop.1 hstop
  have hcells : ∀ c ∈ cells (treeOf (someTasks w).space), c.2.virtualAddr < KernelMeminfo.atOneMegabyte.higherHalfBase →
      c.2 ∈ userRecords w := by
    cases w <;> decide +kernel
  exact hcells _ hmem (lt_of_le_of_lt hle hx)

theorem someTasks_records : UserRecords .atOneMegabyte someTasks taken := by
  refine ⟨fun w x hx d hd => ?_, fun w x hx d hd => ?_, fun w x hx d hd _ => ?_⟩
  · have hall : ∀ d ∈ userRecords w, d.physicalAddr % pageSize = 0 := by cases w <;> decide
    exact hall d (recordAt_mem hx hd)
  · have hall : ∀ d ∈ userRecords w, d.flags < 4096 ∧ d.flags.testBit 0 = true := by cases w <;> decide
    exact hall d (recordAt_mem hx hd)
  · have hall : ∀ d ∈ userRecords w, used taken (d.physicalAddr / pageSize) = true := by cases w <;> decide +kernel
    exact hall d (recordAt_mem hx hd)

def directoryOf : TaskId → ℕ
  | .a => 1
  | .b => 2

theorem someTasks_created (w : TaskId) :
    (created.contexts.map Directory.ctx)[directoryOf w]? = some (someTasks w).pagingCtx := by
  cases w <;> decide +kernel

theorem created_runs : Runs (bootStep .top .atOneMegabyte)
    (fun s o => BootAllowed .atOneMegabyte kernelContext.pageTables s o ∧ KernelCall .atOneMegabyte BootPage o)
    bootStart bootCalls created := by
  have hchecked : Runs (bootStep .top .atOneMegabyte)
      (fun s o => BootChecked .atOneMegabyte kernelContext.pageTables s o ∧ KernelCall .atOneMegabyte BootPage o)
      bootStart bootCalls created :=
    .of_exec (by decide +kernel) (eq_returned _ (by decide +kernel))
  exact hchecked.mono fun _ _ hC => hC.imp_left bootAllowed_of_checked

theorem created_calls : Runs (bootStep .top .atOneMegabyte)
    (fun s o => BootAllowed .atOneMegabyte kernelContext.pageTables s o ∧ KernelCall .atOneMegabyte (fun _ => True) o)
    bootStart bootCalls created := by
  exact created_runs.mono fun _ _ hC => hC.imp_right KernelCall.any

/-- what the two tasks have in the user half before the first fault -/
theorem created_before (w : TaskId) :
    UserPages .atOneMegabyte BootPage created.tables (someTasks w).pagingCtx ∧
      UserRegions .atOneMegabyte BootPage created.tables (someTasks w).pagingCtx := by
  have hbefore := (shared_of_clones ⟨by decide, by decide⟩ (by decide) start_kernelSpace booted_eq created_runs).2
  obtain ⟨e, he, hctx⟩ := List.mem_map.1 (List.mem_of_getElem? (someTasks_created w))
  rw [← hctx]
  exact ⟨hbefore.tables e he, hbefore.regions e he⟩

/-- the pages of the segments are not mapped any more -/
theorem created_stack {x : ℕ} (hx : x < KernelMeminfo.atOneMegabyte.higherHalfBase)
    (hpres : present (tableEntry (someTasks .a).pagingCtx created.tables x) = true) : 1 ≤ x / pageSize ∧ x / pageSize < 10 := by
  refine ((created_before .a).1 x hx hpres).resolve_right fun hpage => ?_
  have hnot : ∀ p, p = 0x400 ∨ p = 0x401 →
      present (tableEntry (someTasks .a).pagingCtx created.tables (p * pageSize)) = false := by
    rintro p (rfl | rfl) <;> decide +kernel
  have hal : x / pageSize * pageSize = pagingAlignAddr x := rfl
  have hentry := hnot _ hpage
  rw [hal, tableEntry_align, hpres] at hentry
  cases hentry

theorem created_inherited : Inherited .atOneMegabyte someTasks taken created.tables := by
  intro x hx hpres
  obtain ⟨h1, h10⟩ := created_stack hx hpres
  obtain ⟨i, hi⟩ : ∃ i, x / pageSize = i := ⟨_, rfl⟩
  have hentry : ∀ i < 10, 1 ≤ i → frameOf (tableEntry (someTasks .a).pagingCtx created.tables (i * pageSize)) =
      i * pageSize := by decide +kernel
  have hfound : ∀ w, ∀ i < 10, 1 ≤ i → vmmFindAllocation (someTasks w).space.heap (someTasks w).space.ctx (i * pageSize) =
      .ok ⟨0, 0, 10, 3⟩ := by
    intro w
    cases w <;> decide +kernel
  have hpage : pagingAlignAddr x = i * pageSize := by
    unfold pagingAlignAddr
    rw [hi]
  rw [hi] at h1 h10
  rw [← tableEntry_align x, hpage, hentry i h10 h1]
  refine ⟨fun w => ⟨_, ⟨by rw [hpage]; exact hfound w i h10 h1, by decide⟩, i, h10, (Nat.zero_add _).symm⟩, ?_, ?_⟩
  · have hmarked : ∀ i < 10, used taken (i * pageSize / pageSize) = true := by decide +kernel
    exact hmarked i h10
  · -- no record starts with one of these frames
    intro w x' hx' d hd _ hsame
    have hnone : ∀ d ∈ userRecords w, ∀ i < 10, 1 ≤ i → d.physicalAddr ≠ i * pageSize := by
      cases w <;> decide
    exact absurd hsame (hnone d (recordAt_mem hx' hd) i h10 h1)

/-- before the first fault -/
def noFaults : Machine := ⟨taken, created.tables, []⟩

/-- `UserFault`, for a record with a physical address -/
def RecordChecked (mi : KernelMeminfo) (tasks : TaskId → Task) (_ : Machine) (f : TaskFault) : Prop :=
  f.addr < mi.higherHalfBase ∧
    (returned ⟨0, 0, 0, 0⟩ (vmmFindAllocation (tasks f.task).space.heap (tasks f.task).space.ctx
      (pagingAlignAddr f.addr))).physicalAddr ≠ 0

instance (mi : KernelMeminfo) (tasks : TaskId → Task) (m : Machine) (f : TaskFault) : Decidable (RecordChecked mi tasks m f) :=
  inferInstanceAs (Decidable (_ ∧ _))

theorem userFault_of_checked {mi : KernelMeminfo} {tasks : TaskId → Task} {m : Machine} {f : TaskFault}
    (h : RecordChecked mi tasks m f) : UserFault mi tasks m f := by
  obtain ⟨hx, hpa⟩ := h
  refine ⟨hx, fun d hfound h0 => ?_⟩
  rw [hfound] at hpa
  exact absurd h0 hpa

/-- task A touches its stack -/
def afterFirst : Machine := returned noFaults (step .atOneMegabyte someTasks noFaults ⟨.a, 0x9FFFF123, 6⟩)

theorem afterFirst_eq : step .atOneMegabyte someTasks noFaults ⟨.a, 0x9FFFF123, 6⟩ = .ok afterFirst :=
  eq_returned _ (by decide +kernel)

/-- and then task B its code -/
def apartFaults : List TaskFault := [⟨.a, 0x9FFFF123, 6⟩, ⟨.b, 0x400010, 4⟩]

def afterApart : Machine := returned noFaults (step .atOneMegabyte someTasks afterFirst ⟨.b, 0x400010, 4⟩)

/-- neither task has an entry for a part of the user half but the first 4 MB -/
theorem created_region (w : TaskId) {i : ℕ} (h0 : 0 < i) (hi : i < 768) :
    present (created.tables (someTasks w).pagingCtx.pageDirectory i) = false := by
  by_cases h1 : i = 1
  · rw [h1]
    cases w <;> decide +kernel
  · refine Bool.eq_false_iff.2 fun hpres => ?_
    have hbase : KernelMeminfo.atOneMegabyte.higherHalfBase = 768 * 4194304 := by decide
    obtain ⟨p, hp, hpi⟩ := (created_before w).2 i (by omega) hpres
    unfold BootPage at hp
    omega

theorem noFaults_tables : noFaults.tables = created.tables := by
  unfold noFaults
  dsimp only

theorem noFaults_apart (f : TaskFault) (h0 : 4194304 ≤ f.addr) (hf : f.addr < 768 * 4194304) :
    FaultApart someTasks noFaults f := by
  have hidx : 0 < pageDirectoryIndex f.addr ∧ pageDirectoryIndex f.addr < 768 := by
    rw [pageDirectoryIndex_eq]
    omega
  refine ⟨?_, fun _ _ _ _ hp => List.not_mem_nil hp⟩
  unfold OtherUses
  rw [noFaults_tables, created_region _ hidx.1 hidx.2]
  exact Bool.false_ne_true

/-- after a fault of A, B still has no entry, and A has the one that was written -/
theorem afterFirst_entry (w : TaskId) {i : ℕ} (h0 : 0 < i) (hi : i < 768) (hne : w = .a → i ≠ 639) :
    present (afterFirst.tables (someTasks w).pagingCtx.pageDirectory i) = false := by
  obtain ⟨d, pa, bm', _, _, _, hm⟩ := step_cases afterFirst_eq
  have hplaced : Placed .atOneMegabyte (someTasks w).pagingCtx := by cases w <;> decide
  have hshared : (someTasks .a).pagingCtx.pageTables = (someTasks w).pagingCtx.pageTables := by cases w <;> rfl
  rw [hm]
  dsimp only
  rw [map_entry hplaced hshared (by decide), if_neg ?_, noFaults_tables]
  · exact created_region w h0 hi
  · intro h
    cases w with
    | a => exact hne rfl (h.2.trans (by decide))
    | b => exact absurd h.1 (by decide)

/-- both tasks have the stack of the first task, and the pages of the two faults are apart -/
theorem isolation_kept_apart :
    Runs (step .atOneMegabyte someTasks) (fun m f => UserFault .atOneMegabyte someTasks m f ∧ FaultApart someTasks m f)
      noFaults apartFaults afterApart ∧
    (∀ w, Paging.walk .atOneMegabyte afterApart.tables (someTasks w).pagingCtx.pageDirectory 0x1123 = some ⟨0x1000, true, false⟩) ∧
    afterApart.mapped = [⟨.b, 0x400000, 0x41000⟩, ⟨.a, 0x9FFFF000, 0x42000⟩] ∧
    Isolated .atOneMegabyte someTasks afterApart := by
  have hsecond : step .atOneMegabyte someTasks afterFirst ⟨.b, 0x400010, 4⟩ = .ok afterApart := eq_returned _ (by decide +kernel)
  have hapart : FaultApart someTasks afterFirst ⟨.b, 0x400010, 4⟩ := by
    refine ⟨Bool.eq_false_iff.1 (afterFirst_entry .a (by decide) (by decide) fun _ => by decide), fun d hfound _ p hp => ?_⟩
    have hmapped : afterFirst.mapped = [⟨.a, 0x9FFFF000, 0x42000⟩] := by decide +kernel
    have hrecord : vmmFindAllocation (someTasks .b).space.heap (someTasks .b).space.ctx 0x400000 =
        .ok ⟨0x400000, 0x41000, 1, 7⟩ := by decide +kernel
    cases hrecord.symm.trans hfound
    rw [hmapped] at hp
    simp at hp
  have hrun : Runs (step .atOneMegabyte someTasks) (fun m f => UserFault .atOneMegabyte someTasks m f ∧ FaultApart someTasks m f)
      noFaults apartFaults afterApart := by
    refine .cons ⟨userFault_of_checked ?_, noFaults_apart _ (by decide) (by decide)⟩ afterFirst_eq
      (.cons ⟨userFault_of_checked ?_, hapart⟩ hsecond (.nil _))
    · decide +kernel
    · decide +kernel
  refine ⟨hrun, fun w => by cases w <;> decide +kernel, by decide +kernel, ?_⟩
  exact (isolation_kept ⟨by decide, by decide⟩ (by decide) start_kernelSpace booted_eq created_calls someTasks_created (by decide)
    someTasks_records created_inherited hrun).1

def afterStack : Machine := returned noFaults (step .atOneMegabyte someTasks afterFirst ⟨.b, 0x9FFFF123, 6⟩)

/-- **Stack pages are shared.** Neither task has the page when it touches it. The record of A has frame 0x42000 for it and that of
B 0x43000. After both faults, A walks to 0x43000, the frame that was mapped for B. -/
theorem stack_pages_shared :
    Runs (bootStep .top .atOneMegabyte)
      (fun s o => BootAllowed .atOneMegabyte kernelContext.pageTables s o ∧ KernelCall .atOneMegabyte (fun _ => True) o)
      bootStart bootCalls created ∧
    UserRecords .atOneMegabyte someTasks taken ∧ Inherited .atOneMegabyte someTasks taken created.tables ∧
    Paging.walk .atOneMegabyte noFaults.tables (someTasks .a).pagingCtx.pageDirectory 0x9FFFF123 = none ∧
    step .atOneMegabyte someTasks noFaults ⟨.a, 0x9FFFF123, 6⟩ = .ok afterFirst ∧
    Paging.walk .atOneMegabyte afterFirst.tables (someTasks .b).pagingCtx.pageDirectory 0x9FFFF123 = none ∧
    step .atOneMegabyte someTasks afterFirst ⟨.b, 0x9FFFF123, 6⟩ = .ok afterStack ∧
    vmmFindAllocation (someTasks .a).space.heap (someTasks .a).space.ctx 0x9FFFF000 = .ok ⟨0x9FFFF000, 0x42000, 1, 7⟩ ∧
    Paging.walk .atOneMegabyte afterStack.tables (someTasks .a).pagingCtx.pageDirectory 0x9FFFF123 =
      some ⟨0x43000, true, true⟩ ∧
    afterStack.mapped = [⟨.b, 0x9FFFF000, 0x43000⟩, ⟨.a, 0x9FFFF000, 0x42000⟩] ∧
    ¬ Isolated .atOneMegabyte someTasks afterStack := by
  have hwalk : Paging.walk .atOneMegabyte afterStack.tables (someTasks .a).pagingCtx.pageDirectory 0x9FFFF123 =
      some ⟨0x43000, true, true⟩ := by decide +kernel
  have hmapped : afterStack.mapped = [⟨.b, 0x9FFFF000, 0x43000⟩, ⟨.a, 0x9FFFF000, 0x42000⟩] := by decide +kernel
  refine ⟨created_calls, someTasks_records, created_inherited, ?_, afterFirst_eq, ?_, eq_returned _ (by decide +kernel),
    by decide +kernel, hwalk, hmapped, fun hiso => ?_⟩
  · apply walk_none
    rw [noFaults_tables]
    exact created_region .a (by decide) (by decide)
  · apply walk_none
    exact afterFirst_entry .b (by decide) (by decide) nofun
  · refine (hiso .a 0x9FFFF123 (by decide) _ hwalk).2 0x9FFFF000 ?_
    rw [hmapped]
    exact List.mem_cons_self

end Concrete

end Gubos.Isolation
