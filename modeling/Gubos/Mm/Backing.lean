/-
Which frame backs a page (`interrupts/page_fault.c`, `mm/addr_space.c`).

A page can fault again after it was backed: `paging_unmap_addr` on a neighbour takes the directory entry of the whole 4 MB
away. The handler then decides from the record alone. A record without a physical address does not keep the frame that was
taken for it, so the page gets another one. And a kernel stack has a record with the frame of its first page only, though each of
its pages was given a frame of its own.

- `handler_cases`: what a fault that is handled writes;
- `frames_kept`: in every run of faults, map and unmap calls on the tables and PMM calls, in which no page without a
  physical address faults twice, a page keeps its frame; and the next fault on it installs the frame again exactly if its
  record has a physical address (while the PMM has a page);
- `stack_disagrees`: record and page tables of a kernel stack never agree;
- `page_replaced`, `stack_second_page`: a page that loses its frame, and the second page of a kernel stack.

A run starts with nothing installed by the handler; the allocations are live through it, so the VMM context is fixed.
-/
import Gubos.Mm.PageFault
import Gubos.Mm.Conservation

namespace Gubos.Backing

open Gubos.Core Gubos.Paging Gubos.Vmm Gubos.Pmm Gubos.PageFault

/-! ## What the handler installs -/

/-- the table entry for an address -/
def tableEntry (ctx : PagingContext) (mem : Tables) (va : ℕ) : ℕ := mem (ctx.table (pageDirectoryIndex va)) (pageTableIndex va)

/-- the frame for a record: its physical address, or a page of the PMM -/
def frameFor (alloc : VmmAllocation) (bm : Bitmap) : Except Fault (ℕ × Bitmap) :=
  if alloc.physicalAddr ≠ 0 then .ok (alloc.physicalAddr, bm) else pmmAllocPage bm

/-- the frame in the entry that is written for physical address `pa` -/
def entryFrame (pa flags : ℕ) : ℕ := frameOf (pa / pageSize * pageSize ||| flags)

/-- the handler returns, and the entry it wrote for the page has `frame` -/
def Installs (mi : KernelMeminfo) (sp : Space) (pagingCtx : PagingContext) (bm : Bitmap) (mem : Tables)
    (addr errCode frame : ℕ) : Prop :=
  ∃ bm' mem', pageFaultHandler mi sp pagingCtx bm mem addr errCode = .ok (bm', mem') ∧
    frameOf (tableEntry pagingCtx mem' (pagingAlignAddr addr)) = frame

section Handler

variable {mi : KernelMeminfo} {sp : Space} {pagingCtx : PagingContext} {bm bm' : Bitmap} {mem mem' : Tables}
  {d : VmmAllocation} {x errCode frame pa flags : ℕ}

theorem tableEntry_map (ctx : PagingContext) (mem : Tables) :
    frameOf (tableEntry ctx (pagingMapVirtualToPhysical mi ctx mem x pa flags) x) = entryFrame pa flags := by
  unfold tableEntry pagingMapVirtualToPhysical entryFrame
  rw [setEntry_self, pageStart_eq]

/-- **A fault that is handled.** -/
theorem handler_cases (hok : pageFaultHandler mi sp pagingCtx bm mem x errCode = .ok (bm', mem')) :
    ∃ d pa, vmmFindAllocation sp.heap sp.ctx (pagingAlignAddr x) = .ok d ∧ d.pageCount ≠ 0 ∧
      frameFor d bm = .ok (pa, bm') ∧ mem' = pagingMapVirtualToPhysical mi pagingCtx mem (pagingAlignAddr x) pa d.flags := by
  unfold pageFaultHandler at hok
  split_ifs at hok
  obtain ⟨d, hfound, hok⟩ := bind_ok.1 hok
  dsimp only at hok
  split_ifs at hok with hcount hpa
  · obtain ⟨⟨pa, bm₁⟩, hframe, hok⟩ := bind_ok.1 hok
    cases hok
    refine ⟨d, pa, hfound, hcount, ?_, rfl⟩
    unfold frameFor
    rw [if_pos hpa]
    exact hframe
  · obtain ⟨⟨pa, bm₁⟩, hframe, hok⟩ := bind_ok.1 hok
    cases hok
    refine ⟨d, pa, hfound, hcount, ?_, rfl⟩
    unfold frameFor
    rw [if_neg hpa]
    exact hframe

/-- a fault that is not a protection fault is handled if there is an allocation and a frame -/
theorem handler_returns (herr : errCode &&& pagingErrCodeP = 0)
    (hfound : vmmFindAllocation sp.heap sp.ctx (pagingAlignAddr x) = .ok d) (hcount : d.pageCount ≠ 0)
    (hframe : frameFor d bm = .ok (pa, bm')) :
    pageFaultHandler mi sp pagingCtx bm mem x errCode =
      .ok (bm', pagingMapVirtualToPhysical mi pagingCtx mem (pagingAlignAddr x) pa d.flags) := by
  unfold frameFor at hframe
  unfold pageFaultHandler
  rw [if_neg (not_not.2 herr)]
  refine bind_ok.2 ⟨d, hfound, ?_⟩
  dsimp only
  rw [if_neg hcount]
  split_ifs at hframe ⊢ with hpa
  · exact bind_ok.2 ⟨(pa, bm'), hframe, rfl⟩
  · exact bind_ok.2 ⟨(pa, bm'), hframe, rfl⟩

/-- what is installed is what the record found gives -/
theorem installs_cases (h : Installs mi sp pagingCtx bm mem x errCode frame) :
    ∃ d pa bm', vmmFindAllocation sp.heap sp.ctx (pagingAlignAddr x) = .ok d ∧ d.pageCount ≠ 0 ∧
      frameFor d bm = .ok (pa, bm') ∧ frame = entryFrame pa d.flags := by
  obtain ⟨bm', mem', hok, rfl⟩ := h
  obtain ⟨d, pa, hfound, hcount, hframe, rfl⟩ := handler_cases hok
  exact ⟨d, pa, bm', hfound, hcount, hframe, tableEntry_map pagingCtx mem⟩

theorem installs_of_found (herr : errCode &&& pagingErrCodeP = 0)
    (hfound : vmmFindAllocation sp.heap sp.ctx (pagingAlignAddr x) = .ok d) (hcount : d.pageCount ≠ 0)
    (hframe : frameFor d bm = .ok (pa, bm')) : Installs mi sp pagingCtx bm mem x errCode (entryFrame pa d.flags) :=
  ⟨_, _, handler_returns herr hfound hcount hframe, tableEntry_map pagingCtx mem⟩

end Handler

/-! ## Runs -/

/-- the bitmap and the tables, and what the handler has installed so far: page and frame -/
structure Machine where
  bitmap : Bitmap
  tables : Tables
  installed : List (ℕ × ℕ)

inductive Op where
  /-- a page fault -/
  | fault (addr errCode : ℕ)
  /-- `paging_map_virtual_to_physical` -/
  | map (virtualAddr physicalAddr flags : ℕ)
  /-- `paging_unmap_addr` -/
  | unmap (virtualAddr : ℕ)
  /-- `pmm_alloc_page` -/
  | allocPage
deriving DecidableEq, Repr

def step (mi : KernelMeminfo) (sp : Space) (pagingCtx : PagingContext) (m : Machine) : Op → Except Fault Machine
  | .fault addr errCode => do
    let (bm, mem) ← pageFaultHandler mi sp pagingCtx m.bitmap m.tables addr errCode
    .ok ⟨bm, mem, (pagingAlignAddr addr, frameOf (tableEntry pagingCtx mem (pagingAlignAddr addr))) :: m.installed⟩
  | .map virtualAddr physicalAddr flags =>
    .ok { m with tables := pagingMapVirtualToPhysical mi pagingCtx m.tables virtualAddr physicalAddr flags }
  | .unmap virtualAddr => .ok { m with tables := pagingUnmapAddr mi pagingCtx m.tables virtualAddr }
  | .allocPage => do
    let (_, bm) ← pmmAllocPage m.bitmap
    .ok { m with bitmap := bm }

/-- no page of a record without a physical address faults a second time -/
def FaultOk (sp : Space) (m : Machine) : Op → Prop
  | .fault addr _ => pagingAlignAddr addr ∈ m.installed.map Prod.fst →
      ∀ d, vmmFindAllocation sp.heap sp.ctx (pagingAlignAddr addr) = .ok d → d.physicalAddr ≠ 0
  | _ => True

/-- all faults on a page installed the same frame -/
def KeepsFrames (m : Machine) : Prop := ∀ p f f', (p, f) ∈ m.installed → (p, f') ∈ m.installed → f = f'

/-- what is known of an installed frame: it is that of the record, or a page that the bitmap has marked -/
def Origin (sp : Space) (bm : Bitmap) (p f : ℕ) : Prop :=
  ∃ d, vmmFindAllocation sp.heap sp.ctx p = .ok d ∧ d.pageCount ≠ 0 ∧
    ((d.physicalAddr ≠ 0 ∧ f = entryFrame d.physicalAddr d.flags) ∨
      (d.physicalAddr = 0 ∧ ∃ q < 2 ^ 20, f = entryFrame (q * pageSize) d.flags ∧ used bm q = true))

structure FramesInv (sp : Space) (m : Machine) : Prop where
  kept : KeepsFrames m
  origin : ∀ p f, (p, f) ∈ m.installed → Origin sp m.bitmap p f

section Runs

variable {mi : KernelMeminfo} {sp : Space} {pagingCtx : PagingContext} {bm bm' : Bitmap} {m m' : Machine} {p f pa q : ℕ}
  {d : VmmAllocation}

/-- a page that is handed out is marked; also where the scan has left the first 2^20 bits, since these are all set then -/
theorem allocPage_marked (h : pmmAllocPage bm = .ok (pa, bm')) :
    (∃ q < 2 ^ 20, pa = q * pageSize ∧ used bm' q = true) ∧ ∀ q, used bm q = true → used bm' q = true := by
  rcases allocPage_spec bm with ⟨q, b, _, _, hbelow, hok, hset⟩ | ⟨_, herr⟩
  · rw [hok] at h
    cases h
    refine ⟨⟨q % 2 ^ 20, Nat.mod_lt _ (by decide), ?_, ?_⟩, fun p hp => ?_⟩
    · unfold u32
      simp only [pageSize]
      omega
    · rw [hset, Bool.or_eq_true, decide_eq_true_eq]
      by_cases hlt : q % 2 ^ 20 = q
      · exact .inr hlt
      · exact .inl (hbelow _ (by omega))
    · rw [hset, hp, Bool.true_or]
  · rw [herr] at h
    cases h

theorem frameFor_used (h : frameFor d bm = .ok (pa, bm')) (hq : used bm q = true) : used bm' q = true := by
  unfold frameFor at h
  split_ifs at h
  · cases h
    exact hq
  · exact (allocPage_marked h).2 q hq

theorem Origin.mono (ho : Origin sp bm p f) (hused : ∀ q, used bm q = true → used bm' q = true) : Origin sp bm' p f := by
  obtain ⟨d, hfound, hcount, hd | ⟨h0, q, hq, hf, hu⟩⟩ := ho
  · exact ⟨d, hfound, hcount, .inl hd⟩
  · exact ⟨d, hfound, hcount, .inr ⟨h0, q, hq, hf, hused q hu⟩⟩

/-- the frame that a fault has just installed -/
theorem origin_new (hfound : vmmFindAllocation sp.heap sp.ctx p = .ok d) (hcount : d.pageCount ≠ 0)
    (hframe : frameFor d bm = .ok (pa, bm')) : Origin sp bm' p (entryFrame pa d.flags) := by
  refine ⟨d, hfound, hcount, ?_⟩
  unfold frameFor at hframe
  split_ifs at hframe with hpa
  · cases hframe
    exact .inl ⟨hpa, rfl⟩
  · obtain ⟨⟨q, hq, rfl, hu⟩, _⟩ := allocPage_marked hframe
    exact .inr ⟨not_not.1 hpa, q, hq, rfl, hu⟩

/-- **One step.** -/
theorem step_frames {o : Op} (hi : FramesInv sp m) (hC : FaultOk sp m o) (hok : step mi sp pagingCtx m o = .ok m') :
    FramesInv sp m' := by
  cases o with
  | fault x errCode =>
    obtain ⟨⟨bm₁, mem₁⟩, hfault, hok⟩ := bind_ok.1 hok
    cases hok
    obtain ⟨d, pa, hfound, hcount, hframe, rfl⟩ := handler_cases hfault
    rw [tableEntry_map]
    have hold : ∀ f, (pagingAlignAddr x, f) ∈ m.installed → f = entryFrame pa d.flags := by
      intro f hf
      have hpa := hC (List.mem_map_of_mem hf) d hfound
      unfold frameFor at hframe
      rw [if_pos hpa] at hframe
      cases hframe
      obtain ⟨d', hfound', _, ⟨_, hf'⟩ | ⟨h0, _⟩⟩ := hi.origin _ _ hf
      · rw [hfound] at hfound'
        cases hfound'
        exact hf'
      · rw [hfound] at hfound'
        cases hfound'
        exact absurd h0 hpa
    refine ⟨fun p f f' hf hf' => ?_, fun p f hf => ?_⟩
    · rcases List.mem_cons.1 hf with he | hf
      · cases he
        rcases List.mem_cons.1 hf' with he' | hf'
        · cases he'
          rfl
        · exact (hold f' hf').symm
      · rcases List.mem_cons.1 hf' with he' | hf'
        · cases he'
          exact hold f hf
        · exact hi.kept p f f' hf hf'
    · rcases List.mem_cons.1 hf with he | hf
      · cases he
        exact origin_new hfound hcount hframe
      · exact (hi.origin p f hf).mono fun q hq => frameFor_used hframe hq
  | map va pa flags =>
    cases hok
    exact ⟨hi.kept, hi.origin⟩
  | unmap va =>
    cases hok
    exact ⟨hi.kept, hi.origin⟩
  | allocPage =>
    obtain ⟨⟨pa, bm₁⟩, halloc, hok⟩ := bind_ok.1 hok
    cases hok
    exact ⟨hi.kept, fun p f hf => (hi.origin p f hf).mono (allocPage_marked halloc).2⟩

/-- flags leave the frame as it is -/
theorem entryFrame_page (hflags : d.flags < 4096) : entryFrame (q * pageSize) d.flags = q * pageSize := by
  unfold entryFrame
  rw [Nat.mul_div_cancel _ (by decide), frameOf_or (Nat.mul_mod_left _ _) hflags]

/-- **Frames are kept.** In every run in which no page of a record without a physical address faults twice, all faults on a
page install the same frame. A further fault on the page installs it again exactly if its record has a physical address. -/
theorem frames_kept {m₀ : Machine} {ops : List Op} (h0 : m₀.installed = [])
    (hrun : Runs (step mi sp pagingCtx) (FaultOk sp) m₀ ops m) :
    KeepsFrames m ∧ ∀ x errCode frame d, errCode &&& pagingErrCodeP = 0 → (pagingAlignAddr x, frame) ∈ m.installed →
      vmmFindAllocation sp.heap sp.ctx (pagingAlignAddr x) = .ok d → d.flags < 4096 → (∃ q < 2 ^ 20, used m.bitmap q = false) →
      (Installs mi sp pagingCtx m.bitmap m.tables x errCode frame ↔ d.physicalAddr ≠ 0) := by
  have hi : FramesInv sp m := by
    refine hrun.inv (P := FramesInv sp) (fun _ _ _ hi hC hok => step_frames hi hC hok) ⟨fun p f f' hf => ?_, fun p f hf => ?_⟩
    · rw [h0] at hf
      cases hf
    · rw [h0] at hf
      cases hf
  refine ⟨hi.kept, fun x errCode frame d herr hmem hfound hflags hclear => ?_⟩
  obtain ⟨d', hfound', hcount, horigin⟩ := hi.origin _ _ hmem
  rw [hfound] at hfound'
  cases hfound'
  constructor
  · intro hinst hpa
    obtain ⟨d', pa, bm', hfound', _, hframe, hf⟩ := installs_cases hinst
    rw [hfound] at hfound'
    cases hfound'
    obtain ⟨q, hq, hf', hused⟩ := (horigin.resolve_left fun h => h.1 hpa).2
    unfold frameFor at hframe
    rw [if_neg (not_not.2 hpa)] at hframe
    -- the page that is handed out now is clear, and the one installed is marked
    obtain ⟨q', hq', rfl, hclear', _⟩ := alloc_inBounds (s := ⟨m.bitmap, []⟩) hclear hframe
    rw [hf, entryFrame_page hflags, entryFrame_page hflags] at hf'
    have he : q' = q := by
      simp only [pageSize] at hf'
      omega
    rw [he] at hclear'
    simp only [hused] at hclear'
    cases hclear'
  · intro hpa
    obtain ⟨_, rfl⟩ := horigin.resolve_right fun h => hpa h.1
    exact installs_of_found herr hfound hcount (by unfold frameFor; rw [if_pos hpa])

end Runs

/-! ## Kernel stacks -/

/-- `KERNEL_STACK_PAGE_COUNT`, `KERNEL_STACK_SIZE` -/
def kernelStackPageCount : ℕ := 10
def kernelStackSize : ℕ := kernelStackPageCount * pageSize

/-- a new kernel stack: `top` is what `alloc_kernel_stack` returns; it does not return `bottom`, and the frames of the pages are
not kept anywhere -/
structure KernelStack where
  space : Space
  bitmap : Bitmap
  tables : Tables
  bottom : ℕ
  top : ℕ
  frames : List ℕ

/-- the loop of `alloc_kernel_stack`, over the pages `i` that are left, with the frames it takes -/
def mapStackPages (mi : KernelMeminfo) (pagingCtx : PagingContext) (kernelStackBottom : ℕ) :
    List ℕ → Bitmap → Tables → Except Fault (Bitmap × Tables × List ℕ)
  | [], bm, mem => .ok (bm, mem, [])
  | i :: is, bm, mem => do
    let (physicalAddr, bm) ← pmmAllocPage bm
    let mem := pagingMapVirtualToPhysical mi pagingCtx mem (u32 (kernelStackBottom + i * pageSize)) physicalAddr
      (pageFlagPresent ||| pageFlagWrite)
    let (bm, mem, frames) ← mapStackPages mi pagingCtx kernelStackBottom is bm mem
    .ok (bm, mem, physicalAddr :: frames)

/-- `alloc_kernel_stack` -/
def allocKernelStack (A : Allocator) (mi : KernelMeminfo) (s : Space) (pagingCtx : PagingContext) (bm : Bitmap)
    (mem : Tables) : Except Fault KernelStack := do
  let (bottomPhysicalAddr, bm) ← pmmAllocPage bm
  let (heap, ctx, kernelStackBottom) ← vmmMapPages A mi s.heap s.ctx 0 bottomPhysicalAddr kernelStackPageCount
    (pageFlagPresent ||| pageFlagWrite)
  let kernelStackTop := u32 (kernelStackBottom + kernelStackSize - 16)
  let (bm, mem, frames) ← mapStackPages mi pagingCtx kernelStackBottom (List.range' 1 (kernelStackPageCount - 1)) bm mem
  .ok ⟨⟨heap, ctx⟩, bm, mem, kernelStackBottom, kernelStackTop, bottomPhysicalAddr :: frames⟩

/-- page `i` of the stack -/
def KernelStack.page (k : KernelStack) (i : ℕ) : ℕ := u32 (k.bottom + i * pageSize)

/-- a fault on a page installs the frame that was taken for it, the pages that are mapped already have theirs, and no two
pages have one frame -/
structure StackAgrees (mi : KernelMeminfo) (pagingCtx : PagingContext) (k : KernelStack) : Prop where
  faults : ∀ i < kernelStackPageCount, ∀ errCode, errCode &&& pagingErrCodeP = 0 →
    ∃ frame, k.frames[i]? = some frame ∧ Installs mi k.space pagingCtx k.bitmap k.tables (k.page i) errCode frame
  mapped : ∀ i < kernelStackPageCount, 1 ≤ i → k.frames[i]? = some (frameOf (tableEntry pagingCtx k.tables (k.page i)))
  distinct : k.frames.Nodup

section Stack

variable {A : Allocator} {mi : KernelMeminfo} {s : Space} {pagingCtx : PagingContext} {bm : Bitmap} {mem : Tables}
  {l : List (ℕ × Area)} {t : BinaryTree (ℕ × VmmAllocation)} {c : ℕ × VmmAllocation} {d : VmmAllocation} {x : ℕ}

/-- what is found for an address of a record is the record -/
theorem found_record (hi : Vmm.Inv s l t) (hc : c ∈ cells t) (h1 : c.2.virtualAddr ≤ x)
    (h2 : x < c.2.virtualAddr + c.2.pageCount * pageSize) (hfound : vmmFindAllocation s.heap s.ctx x = .ok d)
    (hd : d.pageCount ≠ 0) : d = c.2 := by
  obtain ⟨p, hp⟩ := descend_of_found hi.rep hd hfound
  obtain ⟨hmem, hstop⟩ := descend_some hp
  obtain ⟨h3, h4⟩ := findDir_stop.1 hstop
  have h5 : x < d.virtualAddr + d.pageCount * pageSize := lt_of_lt_of_le h4 (Nat.mod_le _ _)
  exact (congrArg Prod.snd (hi.record_unique hc hmem ⟨h1, h2⟩ ⟨h3, h5⟩)).symm

/-- **Kernel stacks disagree with their record.** In every run without the branches that go wrong, a kernel stack whose request
takes none of them either: two of its pages would get the same frame. -/
theorem stack_disagrees {es : List AddrSpaceEntry} {h₀ h : Heap} {ctx : VmmContext} {ops : List Call} {k : KernelStack}
    (h0 : 0 < mi.higherHalfBase) (hal : mi.higherHalfBase % pageSize = 0) (hes : AddrSpaceOk mi es)
    (hnew : vmmNewContext A mi es h₀ = .ok (h, ctx))
    (hrun : Runs (Vmm.step A mi) (fun s o => CallOk s o ∧ Vmm.Sound mi s o) ⟨h, ctx⟩ ops s)
    (hfit : ∀ pa, Vmm.Sound mi s (.map 0 pa kernelStackPageCount (pageFlagPresent ||| pageFlagWrite)))
    (hok : allocKernelStack A mi s pagingCtx bm mem = .ok k) : ¬ StackAgrees mi pagingCtx k := by
  obtain ⟨l, t, hi⟩ := hrun.inv (P := fun s => ∃ l t, Vmm.Inv s l t)
    (fun s o s' hi hC hok => Vmm.step_inv hi hC.1 hC.2 hok) (newContext_inv h0 hal hes hnew)
  obtain ⟨⟨pa, bm₁⟩, _, hok⟩ := bind_ok.1 hok
  obtain ⟨⟨h₁, ctx₁, r⟩, hmap, hok⟩ := bind_ok.1 hok
  obtain ⟨⟨bm₂, mem₂, frames⟩, _, hok⟩ := bind_ok.1 hok
  cases hok
  obtain ⟨l₁, c, l₂, m, t', rfl, hcut, _, hg, hi'⟩ := map_inv hi rfl (hfit pa _ t hi.shape) hmap
  obtain ⟨e, he, hrec⟩ := hg.has
  have hend : r + kernelStackPageCount * pageSize ≤ 2 ^ 32 := hcut.upper.trans (hi.free.area c (by simp)).fits
  have hral := hcut.aligned
  -- whatever page faults, it is the record of the stack that is found
  have hfound : ∀ i < kernelStackPageCount, ∀ d : VmmAllocation, d.pageCount ≠ 0 →
      vmmFindAllocation h₁ ctx₁ (pagingAlignAddr (u32 (r + i * pageSize))) = .ok d → d = e.2 := by
    intro i hilt d hd hfd
    have hpage : pagingAlignAddr (u32 (r + i * pageSize)) = r + i * pageSize := by
      unfold pagingAlignAddr
      simp only [kernelStackPageCount, pageSize] at hend hral hilt ⊢
      rw [u32_of_lt (by omega)]
      omega
    rw [hpage] at hfd
    refine found_record hi' he ?_ ?_ hfd hd
    · rw [hrec]
      exact Nat.le_add_right _ _
    · rw [hrec]
      exact Nat.add_lt_add_left (Nat.mul_lt_mul_of_pos_right hilt (by decide)) r
  intro hag
  obtain ⟨f₁, hf₁, hinst₁⟩ := hag.faults 1 (by decide) 0 rfl
  obtain ⟨f₂, hf₂, hinst₂⟩ := hag.faults 2 (by decide) 0 rfl
  obtain ⟨d₁, pa₁, b₁, hd₁, hc₁, hframe₁, rfl⟩ := installs_cases hinst₁
  obtain ⟨d₂, pa₂, b₂, hd₂, hc₂, hframe₂, rfl⟩ := installs_cases hinst₂
  rw [hfound 1 (by decide) d₁ hc₁ hd₁] at hframe₁ hf₁
  rw [hfound 2 (by decide) d₂ hc₂ hd₂, hframe₁] at hframe₂
  rw [hfound 2 (by decide) d₂ hc₂ hd₂] at hf₂
  cases hframe₂
  have hne := (List.getElem?_inj (lt_of_lt_of_le (by decide) (List.getElem?_eq_some_iff.1 hf₂).1) hag.distinct).1
    (hf₁.trans hf₂.symm)
  exact absurd hne (by decide)

end Stack

/-! ### Concrete runs -/

section Concrete

/-- two user pages, with a physical address or without -/
def spaceWith (pa : ℕ) : Space :=
  returned ⟨fresh.1, fresh.2⟩ (Vmm.step .top .atOneMegabyte ⟨fresh.1, fresh.2⟩ (.map 0x400000 pa 2 7))

/-- pages 0 to 7 are used, nothing is mapped and nothing installed -/
def start : Machine := ⟨someUsed, blank, []⟩

/-- a fault in the first page, and again after the second is unmapped from the tables -/
def faultTwice : List Op := [.fault 0x400123 4, .unmap 0x401000, .fault 0x400123 4]

/-- `FaultOk`, for the record that is found -/
def FaultChecked (sp : Space) (m : Machine) : Op → Prop
  | .fault addr _ => pagingAlignAddr addr ∈ m.installed.map Prod.fst →
      (returned ⟨0, 1, 0, 0⟩ (vmmFindAllocation sp.heap sp.ctx (pagingAlignAddr addr))).physicalAddr ≠ 0
  | _ => True

instance (sp : Space) (m : Machine) : ∀ o, Decidable (FaultChecked sp m o)
  | .fault addr _ => inferInstanceAs (Decidable (pagingAlignAddr addr ∈ m.installed.map Prod.fst →
      (returned ⟨0, 1, 0, 0⟩ (vmmFindAllocation sp.heap sp.ctx (pagingAlignAddr addr))).physicalAddr ≠ 0))
  | .map .. => .isTrue trivial
  | .unmap _ => .isTrue trivial
  | .allocPage => .isTrue trivial

theorem faultOk_of_checked {sp : Space} {m : Machine} {o : Op} (h : FaultChecked sp m o) : FaultOk sp m o := by
  cases o with
  | fault addr errCode =>
    intro hmem d hfound
    have hpa := h hmem
    rw [hfound] at hpa
    exact hpa
  | map => trivial
  | unmap => trivial
  | allocPage => trivial

def afterFaults (pa : ℕ) : Machine :=
  returned start (Runs.exec (step .atOneMegabyte (spaceWith pa) context) start faultTwice)

theorem frames_kept_neighbour :
    Runs (step .atOneMegabyte (spaceWith 0x800000) context) (FaultOk (spaceWith 0x800000)) start faultTwice
      (afterFaults 0x800000) ∧
    (afterFaults 0x800000).installed = [(0x400000, 0x800000), (0x400000, 0x800000)] ∧ KeepsFrames (afterFaults 0x800000) := by
  have hchecked : Runs (step .atOneMegabyte (spaceWith 0x800000) context) (FaultChecked (spaceWith 0x800000)) start faultTwice
      (afterFaults 0x800000) := .of_exec (by decide +kernel) (eq_returned start (by decide +kernel))
  have hrun := hchecked.mono fun _ _ h => faultOk_of_checked h
  exact ⟨hrun, by decide +kernel, (frames_kept rfl hrun).1⟩

/-- the machine before the second fault -/
def beforeSecond : Machine :=
  returned start (Runs.exec (step .atOneMegabyte (spaceWith 0) context) start [.fault 0x400123 4, .unmap 0x401000])

/-- **A page is replaced.** The allocation has no physical address: its page is backed by frame 0x8000. After a neighbour is
unmapped it is not present, and the next fault installs frame 0x9000. -/
theorem page_replaced :
    vmmFindAllocation (spaceWith 0).heap (spaceWith 0).ctx 0x400000 = .ok ⟨0x400000, 0, 2, 7⟩ ∧
    beforeSecond.installed = [(0x400000, 0x8000)] ∧
    Paging.walk .atOneMegabyte beforeSecond.tables context.pageDirectory 0x400123 = none ∧
    (afterFaults 0).installed = [(0x400000, 0x9000), (0x400000, 0x8000)] ∧ ¬ KeepsFrames (afterFaults 0) := by
  have hinstalled : (afterFaults 0).installed = [(0x400000, 0x9000), (0x400000, 0x8000)] := by decide +kernel
  refine ⟨by decide +kernel, by decide +kernel, by decide +kernel, hinstalled, fun hkeeps => ?_⟩
  have hsame := hkeeps 0x400000 0x9000 0x8000 (by rw [hinstalled]; simp) (by rw [hinstalled]; simp)
  exact absurd hsame (by decide)

/-- a kernel stack in a new address space -/
def newStack : KernelStack :=
  returned ⟨⟨fresh.1, fresh.2⟩, someUsed, blank, 0, 0, []⟩
    (allocKernelStack .top .atOneMegabyte ⟨fresh.1, fresh.2⟩ context someUsed blank)

theorem newStack_eq : allocKernelStack .top .atOneMegabyte ⟨fresh.1, fresh.2⟩ context someUsed blank = .ok newStack :=
  eq_returned _ (by decide +kernel)

theorem stack_disagrees_first : newStack.frames.length = 10 ∧ ¬ StackAgrees .atOneMegabyte context newStack := by
  have hs : Shape ⟨fresh.1, fresh.2⟩ (listOf ⟨fresh.1, fresh.2⟩) (treeOf ⟨fresh.1, fresh.2⟩) := by decide +kernel
  have hfit : ∀ pa, Vmm.Sound .atOneMegabyte ⟨fresh.1, fresh.2⟩
      (.map 0 pa kernelStackPageCount (pageFlagPresent ||| pageFlagWrite)) := by
    intro pa
    refine sound_of_checked hs ?_
    have hfit : FitOk .atOneMegabyte (listOf ⟨fresh.1, fresh.2⟩) 0 kernelStackPageCount (pageFlagPresent ||| pageFlagWrite) := by
      decide +kernel
    exact hfit
  exact ⟨by decide +kernel, stack_disagrees (by decide) (by decide) entries_ok fresh_eq (.nil _) hfit newStack_eq⟩

/-- **The second page of a stack.** It was given frame 0x9000, which is in the tables, but a fault installs frame 0x8000, that
of the first page. -/
theorem stack_second_page :
    allocKernelStack .top .atOneMegabyte ⟨fresh.1, fresh.2⟩ context someUsed blank = .ok newStack ∧
    newStack.frames[1]? = some 0x9000 ∧ frameOf (tableEntry context newStack.tables (newStack.page 1)) = 0x9000 ∧
    Installs .atOneMegabyte newStack.space context newStack.bitmap newStack.tables (newStack.page 1) 0 0x8000 ∧
    ¬ StackAgrees .atOneMegabyte context newStack := by
  have hfault := eq_returned (x := pageFaultHandler .atOneMegabyte newStack.space context newStack.bitmap newStack.tables
    (newStack.page 1) 0) (someUsed, blank) (by decide +kernel)
  have hfirst : Installs .atOneMegabyte newStack.space context newStack.bitmap newStack.tables (newStack.page 1) 0 0x8000 :=
    ⟨_, _, hfault, by decide +kernel⟩
  have hframe : newStack.frames[1]? = some 0x9000 := by decide +kernel
  refine ⟨newStack_eq, hframe, by decide +kernel, hfirst, fun hag => ?_⟩
  obtain ⟨f, hf, b, m, hok, hinst⟩ := hag.faults 1 (by decide) 0 rfl
  obtain ⟨b', m', hok', hinst'⟩ := hfirst
  rw [hok] at hok'
  cases hok'
  rw [hframe] at hf
  cases hf
  rw [hinst] at hinst'
  exact absurd hinst' (by decide)

end Concrete

end Gubos.Backing
