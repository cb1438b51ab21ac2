/-
New tasks on copies of one VMM context (`task_create` in `task.c`, `init_create_user_task` in `init.c`).

`kernel_main` has the kernel's `vmm_context_t` in a local variable, and passes it by value: `init_sched`, `task_create` and
`init_create_user_task` each work on a copy of their own and drop it. The copies share the free list and the allocation tree, but
each has its own pointers to the first block and to the root. A call that changes a pointer changes it in its copy only.

- `map_spare`: a request for any address that does not use up a free block leaves both pointers alone;
- `useStep_ctx`: so does any other call that neither uses up the first block nor puts one in front of it;
- `copies_agree`: in every run of such calls, in any order, each made on a copy of the first context, the context that
  `kernel_main` still has is the current one. The stacks and page directories of all tasks and the areas of the kernel are
  pairwise disjoint, and a lookup through any copy finds the record of each of them, also a page fault that is handled in a task
  created earlier. And the assertion of `task_create` on its page directory never fails.

The disjoint stacks are the premise `stack_stack` of `TaskSwitch.Layout`. What `task_create` writes to the stack and to the control
block is modelled there.
-/
import Gubos.Mm.Backing
import Gubos.Mm.Placement
import Gubos.Mm.SelfMap
import Gubos.Mm.Unmapping

namespace Gubos.TaskSpace

open Gubos.Core Gubos.Paging Gubos.Vmm Gubos.Pmm Gubos.Backing Gubos.SelfMap

/-! ## The code -/

/-- a fault of a callee, or the failed assertion `alloc.page_count` of `task_create` -/
inductive Failure where
  | fault (f : Fault)
  | invalidVmmState

def faults {α : Type} (x : Except Fault α) : Except Failure α := x.mapError .fault

/-- what the calls share -/
structure Memory where
  heap : Heap
  bitmap : Bitmap
  tables : Tables

/-- the flags of the kernel's requests -/
def kernelFlags : ℕ := pageFlagPresent ||| pageFlagWrite

/-- what `task_create` allocates and computes: the control block, the stack, and CR3; for a user task also the page directory. The
records of the VMM are kept here for the statements. -/
structure NewTask where
  task : ℕ
  kernelStackTop : ℕ
  cr3 : ℕ
  vmmContext : VmmContext
  pagingCtx : PagingContext
  stack : VmmAllocation
  directory : Option VmmAllocation

/-- the records of a new task, the latest first -/
def NewTask.records (k : NewTask) : List VmmAllocation := k.directory.toList ++ [k.stack]

/-- `task_create`; `vmmCtx` is its copy of the context -/
def taskCreate (A : Allocator) (mi : KernelMeminfo) (m : Memory) (pagingCtx : PagingContext) (vmmCtx : VmmContext)
    (isUserspace : Bool) : Except Failure (Memory × NewTask) := do
  let k ← faults (allocKernelStack A mi ⟨m.heap, vmmCtx⟩ pagingCtx m.bitmap m.tables)
  let stack : VmmAllocation := ⟨k.bottom, k.frames.headD 0, kernelStackPageCount, kernelFlags⟩
  if isUserspace then
    let (space, bitmap, tables, taskPagingCtx, frame) ← faults (vmmClonePagingContext A mi k.space k.bitmap k.tables pagingCtx)
    let (task, arena) := space.heap.arena.alloc A
    let heap := { space.heap with arena := arena }
    let alloc ← faults (vmmFindAllocation heap space.ctx taskPagingCtx.pageDirectory)
    if alloc.pageCount = 0 then .error .invalidVmmState
    else if task = 0 then .error (.fault .nullDereference)
    else .ok (⟨heap, bitmap, tables⟩, ⟨task, k.top, alloc.physicalAddr, space.ctx, taskPagingCtx, stack,
      some ⟨taskPagingCtx.pageDirectory, frame, 1, kernelFlags⟩⟩)
  else
    let (task, arena) := k.space.heap.arena.alloc A
    if task = 0 then .error (.fault .nullDereference)
    else .ok (⟨{ k.space.heap with arena := arena }, k.bitmap, k.tables⟩,
      ⟨task, k.top, vmmVirtualToPhysical mi pagingCtx.pageDirectory, k.space.ctx, pagingCtx, stack, none⟩)

/-! ## Runs -/

/-- the pages of a record -/
def areaOf (a : VmmAllocation) : Area := ⟨a.virtualAddr, a.pageCount⟩

/-- the memory; the allocations made and not yet unmapped, and the tasks, kept beside it -/
structure St where
  memory : Memory
  live : List Area
  tasks : List NewTask

/-- `task_create`, or a call of the VMM on a copy of the context, as `init_create_user_task` and `elf_load` make them -/
inductive Op where
  | create (isUserspace : Bool)
  | call (c : Call)
deriving DecidableEq, Repr

/-- the kernel's context with the memory of a state -/
def St.used (s : St) (ctx : VmmContext) : Used := ⟨⟨s.memory.heap, ctx⟩, s.live⟩

/-- each call gets a copy of `ctx`; the copy is dropped -/
def step (A : Allocator) (mi : KernelMeminfo) (pagingCtx : PagingContext) (ctx : VmmContext) (s : St) : Op → Except Failure St
  | .create isUserspace => do
    let (memory, k) ← taskCreate A mi s.memory pagingCtx ctx isUserspace
    .ok ⟨memory, k.records.map areaOf ++ s.live, k :: s.tasks⟩
  | .call c => do
    let u ← faults (useStep A mi (s.used ctx) c)
    .ok ⟨{ s.memory with heap := u.space.heap }, u.live, s.tasks⟩

/-- a request of the kernel for `n` pages anywhere does not use up the block that it finds -/
def SpareAt (mi : KernelMeminfo) (l : List (ℕ × Area)) (t : BinaryTree (ℕ × VmmAllocation)) (n : ℕ) : Prop :=
  RootOk t ∧ ∀ c ∈ l.find? (fun c => suits mi 0 n false c.2), c.2.pageCount ≠ n

def Spare (mi : KernelMeminfo) (s : Space) (n : ℕ) : Prop := ∀ l t, Shape s l t → SpareAt mi l t n

/-- the call does not use up the first block, put one in front of it, or remove a node -/
def AsideAt (mi : KernelMeminfo) (l : List (ℕ × Area)) : Call → Prop
  | .map virtualAddr _ pageCount flags =>
      ∀ c ∈ l.find? (fun c => suits mi virtualAddr pageCount (flags &&& pageFlagUser ≠ 0) c.2),
        c.2.pageCount = pageCount → l.head? ≠ some c
  | .unmap virtualAddr pageCount => pageCount ≠ virtualAddr ∧ before virtualAddr l ≠ []

def Aside (mi : KernelMeminfo) (s : Space) (c : Call) : Prop := ∀ l t, Shape s l t → AsideAt mi l c

/-- the areas of the kernel and of the tasks -/
def reserved (es : List AddrSpaceEntry) (s : St) : List Area :=
  s.tasks.flatMap (fun k => k.records.map areaOf) ++ (mappedEntries es).map entryArea

/-- what a call unmaps -/
def unmapped : Call → Option Area
  | .map _ _ _ _ => none
  | .unmap virtualAddr pageCount => some ⟨virtualAddr, pageCount⟩

/-- which calls are allowed: none of the branches of the VMM that go wrong is taken, the pointers of the context do not change,
and nothing that belongs to the kernel or to a task is unmapped -/
def Allowed (A : Allocator) (mi : KernelMeminfo) (pagingCtx : PagingContext) (ctx : VmmContext) (es : List AddrSpaceEntry)
    (s : St) : Op → Prop
  | .create isUserspace => Spare mi (s.used ctx).space kernelStackPageCount ∧
      (isUserspace = true → ∀ k, allocKernelStack A mi (s.used ctx).space pagingCtx s.memory.bitmap s.memory.tables = .ok k →
        Spare mi k.space 1)
  | .call c => WholeOk (s.used ctx) c ∧ Exact mi (s.used ctx).space c ∧ Aside mi (s.used ctx).space c ∧
      ∀ a ∈ unmapped c, a ∉ reserved es s

/-! ## What a call does to its copy -/

section Copy

variable {A : Allocator} {mi : KernelMeminfo} {h h' : Heap} {ctx ctx' : VmmContext} {l : List (ℕ × Area)}
  {t : BinaryTree (ℕ × VmmAllocation)} {M : Set ℕ} {live : List Area} {u u' : Used} {va pa n flags r x : ℕ} {d : VmmAllocation}

/-- the pointers change only where the first block is used up -/
theorem takeFreeBlocks_ctx {q prev : ℕ} (hok : takeFreeBlocks A h ctx va n q prev = .ok (h', ctx', r))
    (hkeep : (h.blocks q).pageCount = n → prev ≠ 0) : ctx' = ctx := by
  unfold takeFreeBlocks at hok
  dsimp only at hok
  generalize (if va ≠ 0 then u32 (va + 2 ^ 32 - (h.blocks q).virtualAddr) / pageSize else 0) = pageOffset at hok
  split_ifs at hok with hfit hlt hroom hstart hmiddle
  · unfold unlinkBlock at hok
    dsimp only at hok
    rw [if_pos (hkeep hfit)] at hok
    cases hok
    rfl
  · cases hok
    rfl
  · obtain ⟨⟨h₁, p⟩, _, hok⟩ := bind_ok.1 hok
    cases hok
    rfl
  · cases hok
    rfl
  · cases hok
    rfl

/-- there is no cell at NULL -/
theorem lastPtr_ne_zero {l₁ l₂ : List (ℕ × Area)} (h0 : 0 ∉ ptrs (l₁ ++ l₂)) (hne : l₁ ≠ []) : lastPtr 0 l₁ ≠ 0 := by
  intro hlast
  unfold lastPtr at hlast
  rw [List.getLast?_eq_some_getLast hne] at hlast
  have hmem := mem_ptrs (List.mem_append_left l₂ (List.getLast_mem hne))
  simp only [Option.map_some, Option.getD_some] at hlast
  rw [hlast] at hmem
  exact h0 hmem

/-- **Mapping** leaves the pointers of the context alone, unless the first block is used up. -/
theorem map_ctx (hr : Rep h ctx l t) (hok : vmmMapPages A mi h ctx va pa n flags = .ok (h', ctx', r))
    (hkeep : ∀ c ∈ l.find? (fun c => suits mi va n (flags &&& pageFlagUser ≠ 0) c.2), c.2.pageCount = n → l.head? ≠ some c) :
    ctx' = ctx := by
  unfold vmmMapPages at hok
  dsimp only at hok
  split_ifs at hok
  obtain ⟨⟨h₁, ctx₁, r₁⟩, hrem, hok⟩ := bind_ok.1 hok
  obtain ⟨h₂, hadd, hok⟩ := bind_ok.1 hok
  cases hok
  unfold removeFreeBlocks at hrem
  split_ifs at hrem
  obtain ⟨⟨q, prev⟩, hscan, hrem⟩ := bind_ok.1 hrem
  dsimp only at hrem
  split_ifs at hrem with hq0
  refine takeFreeBlocks_ctx hrem fun hfit => ?_
  obtain ⟨l₁, l₂, rfl, hl₁, hprev, hq⟩ := scan_spec hr.list hscan
  rcases hq with ⟨h0, _⟩ | ⟨c, l₃, rfl, rfl, hc⟩
  · exact absurd h0 hq0
  have hfind : (l₁ ++ c :: l₃).find? (fun c => suits mi va n (flags &&& pageFlagUser ≠ 0) c.2) = some c :=
    List.find?_eq_some_iff_append.2 ⟨hc, l₁, l₃, rfl, fun d hd => by rw [hl₁ d hd]; rfl⟩
  have hhead := hkeep c hfind (by rw [← hr.block_eq]; exact hfit)
  -- the block found is not the first, so there is one before it
  rw [hprev]
  refine lastPtr_ne_zero hr.list.ne_zero ?_
  rintro rfl
  exact hhead rfl

/-- a call on a copy that is allowed leaves the copy as it was -/
theorem useStep_ctx {c : Call} (hr : Rep u.space.heap u.space.ctx l t) (haside : Aside mi u.space c)
    (hok : useStep A mi u c = .ok u') : u'.space.ctx = u.space.ctx := by
  cases c with
  | map va pa n flags =>
    obtain ⟨⟨h', ctx', r⟩, hmap, hok⟩ := bind_ok.1 hok
    cases hok
    exact map_ctx hr hmap (haside l t ⟨hr.list, hr.tree⟩)
  | unmap va n =>
    obtain ⟨hne, hbefore⟩ := haside l t ⟨hr.list, hr.tree⟩
    obtain ⟨s', hstep, hok⟩ := bind_ok.1 hok
    cases hok
    obtain ⟨⟨h₂, ctx₂⟩, hunmap, hstep⟩ := bind_ok.1 hstep
    cases hstep
    unfold vmmUnmapPages at hunmap
    split_ifs at hunmap
    obtain ⟨⟨h₁, ctx₁⟩, hadd, hunmap⟩ := bind_ok.1 hunmap
    obtain ⟨⟨q, pr⟩, hseek, hunmap⟩ := bind_ok.1 hunmap
    -- there is a block before the range, so the list starts where it did
    have hctx₁ : ctx₁ = u.space.ctx := by
      obtain ⟨⟨p, prev⟩, hscan, hput⟩ := bind_ok.1 hadd
      obtain ⟨_, hprev⟩ := seekFreeBlocks_spec hr.list hscan
      have hprev0 : prev ≠ 0 := by
        have hzero := hr.list.ne_zero
        rw [← before_append_after va l] at hzero
        rw [hprev]
        exact lastPtr_ne_zero hzero hbefore
      unfold putFreeBlocks at hput
      dsimp only at hput
      rw [if_pos hprev0] at hput
      obtain ⟨h₃, _, hput⟩ := bind_ok.1 hput
      cases hput
      rfl
    dsimp only at hunmap
    split_ifs at hunmap with hq0
    -- the node found starts at the address, so it is not removed
    have haddr : (h₁.nodes q).alloc.virtualAddr = va := by
      obtain ⟨hnodes, hroot⟩ := addFreeBlocks_nodes hadd
      have htree : TreeAt h₁.node ctx₁.allocations t := by
        rw [hroot]
        unfold Heap.node
        rw [hnodes]
        exact hr.tree
      obtain ⟨b, hfound⟩ := (walk_spec htree hseek).resolve_left fun h0 => hq0 h0.1
      obtain ⟨hmem, hstop⟩ := descend_some hfound
      have hcontents : (h₁.nodes q).alloc = b := htree.contents _ hmem
      rw [hcontents]
      exact startDir_stop.1 hstop
    unfold shrinkAllocation at hunmap
    dsimp only at hunmap
    rw [haddr] at hunmap
    split_ifs at hunmap
    cases hunmap
    exact hctx₁

/-- a block of the heap is handed out to someone else -/
theorem Held.kmalloc (hi : Held ⟨⟨h, ctx⟩, live⟩ l t M) : Held ⟨⟨{ h with arena := (h.arena.alloc A).2 }, ctx⟩, live⟩ l t M := by
  obtain ⟨⟨hlist, htree, hnodup, hlive⟩, hfree, hareas, hpages, hholds, hunique, htame⟩ := hi
  refine ⟨⟨hlist, htree, hnodup, fun p hp => ?_⟩, hfree, hareas, hpages, hholds, hunique, htame⟩
  change p ∈ (h.arena.alloc A).2.live
  rw [Arena.alloc_live_eq]
  exact List.mem_append_right _ (hlive p hp)

/-- **A request of the kernel for any address**, if the block found has pages to spare: the copy is as it was, the new record is
found at its address, and what was found before still is. -/
theorem map_spare (hi : Held ⟨⟨h, ctx⟩, live⟩ l t M) (hspare : Spare mi ⟨h, ctx⟩ n) (hn : 1 ≤ n)
    (hok : vmmMapPages A mi h ctx 0 pa n kernelFlags = .ok (h', ctx', r)) :
    ctx' = ctx ∧ (∃ l' t' M', Held ⟨⟨h', ctx⟩, ⟨r, n⟩ :: live⟩ l' t' M') ∧
      vmmFindAllocation h' ctx r = .ok ⟨r, pa, n, kernelFlags⟩ ∧
      ∀ x d, d.pageCount ≠ 0 → vmmFindAllocation h ctx x = .ok d → vmmFindAllocation h' ctx x = .ok d := by
  obtain ⟨hroot, hmore⟩ := hspare l t ⟨hi.rep.list, hi.rep.tree⟩
  have hfound : ∀ c ∈ l.find? (fun c => suits mi 0 n (kernelFlags &&& pageFlagUser ≠ 0) c.2), c.2.pageCount ≠ n := hmore
  have hctx : ctx' = ctx := map_ctx hi.rep hok fun c hc hfit => absurd hfit (hfound c hc)
  subst hctx
  obtain ⟨l₁, c, l₂, m, t', M', rfl, hcut, _, hgrown, hheld⟩ :=
    map_held hi hn rfl (fun c hc hfit => absurd hfit (hfound c hc)) hroot hok
  refine ⟨rfl, ⟨_, _, _, hheld⟩, ?_, ?_⟩
  · -- the block goes on behind the new record, which therefore does not end at 2^32
    obtain ⟨b, hfind, hr⟩ := map_anywhere hi.rep hok
    have hcount := hfound b hfind
    rw [if_neg hcount] at hr
    have hend : r + n * pageSize < 2 ^ 32 := by
      have hfits := (hi.free.area b (List.mem_of_find?_eq_some hfind)).fits
      have hsuit := List.find?_some hfind
      simp only [suits, Bool.and_eq_true, decide_eq_true_eq] at hsuit
      have hlt : n * pageSize < b.2.pageCount * pageSize :=
        Nat.mul_lt_mul_of_pos_right (lt_of_le_of_ne hsuit.2 (Ne.symm hcount)) (by decide)
      omega
    have hn0 : 0 < n * pageSize := Nat.mul_pos hn (by decide)
    have hnone : descend (findDir r) t = none := by
      refine hi.lookup_none fun a ha => ?_
      have hapart := hi.apart_free ha (List.mem_append_right l₁ List.mem_cons_self)
      have hlower := hcut.lower
      have hupper := hcut.upper
      omega
    obtain ⟨p, hp⟩ := hgrown.found_new hnone (by
      change r < u32 (r + n * pageSize)
      rw [u32_of_lt hend]
      omega)
    rw [vmmFindAllocation_eq hheld.rep, hp]
    rfl
  · intro x d hd hx
    obtain ⟨p, hp⟩ := descend_of_found hi.rep hd hx
    rw [vmmFindAllocation_eq hheld.rep, hgrown.found_old hroot hp]
    rfl

/-- **Another call on a copy**: the copy is as it was, and so are the lookups outside of what is unmapped. -/
theorem useStep_aside {c : Call} (hi : Held u l t M) (hwhole : WholeOk u c) (hexact : Exact mi u.space c)
    (haside : Aside mi u.space c) (hok : useStep A mi u c = .ok u') :
    u'.space.ctx = u.space.ctx ∧ (∃ l' t' M', Held u' l' t' M') ∧
      ∀ x d, d.pageCount ≠ 0 → (∀ va n, c = .unmap va n → x < va ∨ va + n * pageSize ≤ x) → x < 2 ^ 32 →
        vmmFindAllocation u.space.heap u.space.ctx x = .ok d → vmmFindAllocation u'.space.heap u'.space.ctx x = .ok d := by
  refine ⟨useStep_ctx hi.rep haside hok, step_held ⟨l, t, M, hi⟩ hwhole hexact hok, ?_⟩
  intro x d hd hout hx hfound
  have hat := hexact l t ⟨hi.rep.list, hi.rep.tree⟩
  cases c with
  | map va pa n flags =>
    obtain ⟨⟨h', ctx', r⟩, hmap, hok⟩ := bind_ok.1 hok
    cases hok
    obtain ⟨_, _, _, _, _, _, _, _, _, hgrown, hheld⟩ := map_held hi hwhole.1 hwhole.2 hat.1 hat.2 hmap
    obtain ⟨p, hp⟩ := descend_of_found hi.rep hd hfound
    rw [vmmFindAllocation_eq hheld.rep, hgrown.found_old hat.2 hp]
    rfl
  | unmap va n =>
    have hsame := ((unmap_held hi hwhole hat.1 hat.2 hok).2 x hx).2 (by
      have := hout va n rfl
      omega)
    rw [hsame]
    exact hfound

end Copy

/-! ## One step -/

/-- the kernel's context is current, every task has the same one, and the records of the tasks are found -/
structure Inv (ctx : VmmContext) (es : List AddrSpaceEntry) (s : St) : Prop where
  held : ∃ l t M, Held (s.used ctx) l t M
  areas : (reserved es s).Subperm s.live
  contexts : ∀ k ∈ s.tasks, k.vmmContext = ctx
  found : ∀ k ∈ s.tasks, ∀ a ∈ k.records, a.pageCount ≠ 0 ∧ vmmFindAllocation s.memory.heap ctx a.virtualAddr = .ok a
  cr3 : ∀ k ∈ s.tasks, ∀ a ∈ k.directory, k.cr3 = a.physicalAddr

section Step

variable {A : Allocator} {mi : KernelMeminfo} {pagingCtx : PagingContext} {ctx : VmmContext} {es : List AddrSpaceEntry}
  {s s' : St} {m m' : Memory} {k : NewTask} {ks : KernelStack} {live : List Area} {isUserspace : Bool}

/-- a new stack: ten pages are mapped, and its record has the frame of the first of them -/
theorem allocKernelStack_cases {s : Space} {bm : Bitmap} {mem : Tables}
    (hok : allocKernelStack A mi s pagingCtx bm mem = .ok ks) :
    ∃ pa, ks.frames.headD 0 = pa ∧
      vmmMapPages A mi s.heap s.ctx 0 pa kernelStackPageCount kernelFlags = .ok (ks.space.heap, ks.space.ctx, ks.bottom) := by
  obtain ⟨⟨pa, bm₁⟩, _, hok⟩ := bind_ok.1 hok
  obtain ⟨⟨h₁, ctx₁, r⟩, hmap, hok⟩ := bind_ok.1 hok
  obtain ⟨⟨bm₂, mem₂, frames⟩, _, hok⟩ := bind_ok.1 hok
  cases hok
  exact ⟨pa, rfl, hmap⟩

/-- a new directory: one page is mapped, in the frame that is returned for it -/
theorem clonePagingContext_cases {s s' : Space} {bm bm' : Bitmap} {mem mem' : Tables} {pagingCtx' : PagingContext} {frame : ℕ}
    (hok : vmmClonePagingContext A mi s bm mem pagingCtx = .ok (s', bm', mem', pagingCtx', frame)) :
    vmmMapPages A mi s.heap s.ctx 0 frame 1 kernelFlags = .ok (s'.heap, s'.ctx, pagingCtx'.pageDirectory) := by
  obtain ⟨⟨pa, bm₁⟩, _, hok⟩ := bind_ok.1 hok
  obtain ⟨⟨h₁, ctx₁, r⟩, hmap, hok⟩ := bind_ok.1 hok
  cases hok
  exact hmap

/-- a new task with its records, in the memory `m'` -/
structure Created (ctx : VmmContext) (live : List Area) (m m' : Memory) (k : NewTask) : Prop where
  context : k.vmmContext = ctx
  held : ∃ l t M, Held ⟨⟨m'.heap, ctx⟩, k.records.map areaOf ++ live⟩ l t M
  records : ∀ a ∈ k.records, a.pageCount ≠ 0 ∧ vmmFindAllocation m'.heap ctx a.virtualAddr = .ok a
  kept : ∀ x d, d.pageCount ≠ 0 → vmmFindAllocation m.heap ctx x = .ok d → vmmFindAllocation m'.heap ctx x = .ok d
  cr3 : ∀ a ∈ k.directory, k.cr3 = a.physicalAddr

/-- lookups read the nodes only -/
theorem find_kmalloc (h : Heap) (arena : Arena) (ctx : VmmContext) (x : ℕ) :
    vmmFindAllocation { h with arena := arena } ctx x = vmmFindAllocation h ctx x := rfl

/-- a result that meets `P`, or a failure that is not the assertion's -/
def Returns {α : Type} (P : α → Prop) : Except Failure α → Prop
  | .ok a => P a
  | .error e => e ≠ .invalidVmmState

theorem Returns.bind {α β : Type} {P : α → Prop} {Q : β → Prop} {x : Except Failure α} {f : α → Except Failure β}
    (hx : Returns P x) (hf : ∀ a, P a → Returns Q (f a)) : Returns Q (x >>= f) := by
  cases x with
  | error e => exact hx
  | ok a => exact hf a hx

theorem returns_faults {α : Type} (x : Except Fault α) : Returns (fun a => x = .ok a) (faults x) := by
  cases x with
  | error e =>
    intro h
    cases h
  | ok a => rfl

/-- **`task_create`** on a copy of the context: what it creates if it returns, and its assertion holds. -/
theorem taskCreate_spec (hi : ∃ l t M, Held ⟨⟨m.heap, ctx⟩, live⟩ l t M) (hspare : Spare mi ⟨m.heap, ctx⟩ kernelStackPageCount)
    (hdirectory : isUserspace = true → ∀ k, allocKernelStack A mi ⟨m.heap, ctx⟩ pagingCtx m.bitmap m.tables = .ok k →
      Spare mi k.space 1) :
    Returns (fun r => Created ctx live m r.1 r.2) (taskCreate A mi m pagingCtx ctx isUserspace) := by
  obtain ⟨l, t, M, hi⟩ := hi
  refine (returns_faults _).bind fun ks hstack => ?_
  obtain ⟨pa, hframe, hmap⟩ := allocKernelStack_cases hstack
  obtain ⟨hctx, ⟨l₁, t₁, M₁, hheld₁⟩, hfound₁, hkept₁⟩ := map_spare hi hspare (by decide) hmap
  cases isUserspace with
  | false =>
    rw [if_neg Bool.false_ne_true]
    dsimp only
    split_ifs with htask
    · intro h
      cases h
    · refine ⟨hctx, ⟨l₁, t₁, M₁, Held.kmalloc hheld₁⟩, fun a ha => ?_, hkept₁, fun a ha => ?_⟩
      · obtain rfl := List.mem_singleton.1 ha
        dsimp only
        rw [hframe]
        exact ⟨by decide, hfound₁⟩
      · cases ha
  | true =>
    rw [if_pos rfl]
    refine (returns_faults _).bind ?_
    rintro ⟨space, bitmap, tables, taskPagingCtx, frame⟩ hclone
    have hone := hdirectory rfl ks hstack
    obtain ⟨⟨h₁, ctx₁⟩, bm₁, mem₁, bottom, top, frames⟩ := ks
    dsimp only at hctx hone hheld₁ hfound₁ hkept₁ hframe hclone
    subst hctx
    obtain ⟨hctx, ⟨l₂, t₂, M₂, hheld₂⟩, hfound₂, hkept₂⟩ := map_spare hheld₁ hone le_rfl (clonePagingContext_cases hclone)
    dsimp only
    rw [find_kmalloc, hctx, hfound₂]
    refine (returns_faults _).bind fun alloc halloc => ?_
    cases halloc
    rw [if_neg Nat.one_ne_zero]
    split_ifs with htask
    · intro h
      cases h
    · refine ⟨rfl, ⟨l₂, t₂, M₂, Held.kmalloc hheld₂⟩, fun a ha => ?_, fun x d hd hx => hkept₂ x d hd (hkept₁ x d hd hx), fun a ha => ?_⟩
      · rcases List.mem_cons.1 ha with rfl | ha
        · exact ⟨Nat.one_ne_zero, hfound₂⟩
        · obtain rfl := List.mem_singleton.1 ha
          dsimp only
          rw [hframe]
          have hcount : kernelStackPageCount ≠ 0 := by decide
          exact ⟨hcount, hkept₂ _ _ hcount hfound₁⟩
      · obtain rfl := Option.some.inj ha
        rfl

theorem mem_reserved_of_task {a : VmmAllocation} (hk : k ∈ s.tasks) (ha : a ∈ k.records) : areaOf a ∈ reserved es s :=
  List.mem_append_left _ (List.mem_flatMap.2 ⟨k, hk, List.mem_map_of_mem ha⟩)

/-- a record of a task, as an allocation -/
theorem Inv.area {l : List (ℕ × Area)} {t : BinaryTree (ℕ × VmmAllocation)} {M : Set ℕ} {a : VmmAllocation} (hinv : Inv ctx es s)
    (hi : Held (s.used ctx) l t M) (hk : k ∈ s.tasks) (ha : a ∈ k.records) : areaOf a ∈ s.live ∧ AreaOk (areaOf a) := by
  have hmem := hinv.areas.subset (mem_reserved_of_task hk ha)
  exact ⟨hmem, hi.areas _ hmem⟩

theorem inv_create (hinv : Inv ctx es s) (hC : Allowed A mi pagingCtx ctx es s (.create isUserspace)) :
    Returns (Inv ctx es) (step A mi pagingCtx ctx s (.create isUserspace)) := by
  refine (taskCreate_spec hinv.held hC.1 hC.2).bind ?_
  rintro ⟨m', k⟩ hk
  refine ⟨hk.held, ?_, ?_, ?_, ?_⟩
  · change (((k :: s.tasks).flatMap fun k => k.records.map areaOf) ++ (mappedEntries es).map entryArea).Subperm _
    rw [List.flatMap_cons, List.append_assoc]
    exact (List.subperm_append_left _).2 hinv.areas
  · intro k' hk'
    rcases List.mem_cons.1 hk' with rfl | hk'
    · exact hk.context
    · exact hinv.contexts k' hk'
  · intro k' hk' a ha
    rcases List.mem_cons.1 hk' with rfl | hk'
    · exact hk.records a ha
    · obtain ⟨hcount, hfound⟩ := hinv.found k' hk' a ha
      exact ⟨hcount, hk.kept _ a hcount hfound⟩
  · intro k' hk' a ha
    rcases List.mem_cons.1 hk' with rfl | hk'
    · exact hk.cr3 a ha
    · exact hinv.cr3 k' hk' a ha

theorem inv_call {c : Call} (hinv : Inv ctx es s) (hC : Allowed A mi pagingCtx ctx es s (.call c)) :
    Returns (Inv ctx es) (step A mi pagingCtx ctx s (.call c)) := by
  obtain ⟨hwhole, hexact, haside, hout⟩ := hC
  obtain ⟨l, t, M, hi⟩ := hinv.held
  refine (returns_faults _).bind fun u hu => ?_
  obtain ⟨hctx, hheld, hkept⟩ := useStep_aside hi hwhole hexact haside hu
  have hspace : (⟨⟨u.space.heap, ctx⟩, u.live⟩ : Used) = u := by
    obtain ⟨⟨h', ctx'⟩, live⟩ := u
    cases hctx
    rfl
  refine ⟨?_, ?_, hinv.contexts, fun k hk a ha => ?_, hinv.cr3⟩
  · change ∃ l t M, Held ⟨⟨u.space.heap, ctx⟩, u.live⟩ l t M
    rw [hspace]
    exact hheld
  · -- what is unmapped is not reserved
    cases c with
    | map va pa n flags =>
      obtain ⟨⟨h', ctx', r⟩, _, hu⟩ := bind_ok.1 hu
      cases hu
      exact hinv.areas.trans (List.sublist_cons_self _ _).subperm
    | unmap va n =>
      obtain ⟨s', _, hu⟩ := bind_ok.1 hu
      cases hu
      have herase := hinv.areas.erase ⟨va, n⟩
      rw [List.erase_of_not_mem (hout _ rfl)] at herase
      exact herase
  · obtain ⟨hcount, hfound⟩ := hinv.found k hk a ha
    obtain ⟨hmem, harea⟩ := hinv.area hi hk ha
    have hpos : 0 < a.pageCount * pageSize := Nat.mul_pos (Nat.pos_of_ne_zero hcount) (by decide)
    have hfits : a.virtualAddr + a.pageCount * pageSize ≤ 2 ^ 32 := harea.fits
    refine ⟨hcount, ?_⟩
    have hlookup := hkept a.virtualAddr a hcount (fun va n hc => ?_) (by omega) hfound
    · rw [hctx] at hlookup
      exact hlookup
    · subst hc
      have hne : areaOf a ≠ ⟨va, n⟩ := by
        intro he
        exact hout _ rfl (he ▸ mem_reserved_of_task hk ha)
      have hapart := hi.apart_erase hwhole ((List.mem_erase_of_ne hne).2 hmem)
      have hn : 1 ≤ n := (hi.areas _ hwhole).nonempty
      dsimp only [areaOf] at hapart
      omega

/-- **One step**, on a copy of the context. -/
theorem inv_step {o : Op} (hinv : Inv ctx es s) (hC : Allowed A mi pagingCtx ctx es s o) :
    Returns (Inv ctx es) (step A mi pagingCtx ctx s o) := by
  cases o with
  | create isUserspace => exact inv_create hinv hC
  | call c => exact inv_call hinv hC

end Step

/-! ## Every run -/

section Runs

variable {A : Allocator} {mi : KernelMeminfo} {pagingCtx : PagingContext} {ctx : VmmContext} {es : List AddrSpaceEntry}
  {m : Memory} {h₀ : Heap} {s : St} {ops : List Op} {l : List (ℕ × Area)} {t : BinaryTree (ℕ × VmmAllocation)} {M : Set ℕ}
  {u : Used}

/-- before the first task, with the areas of the kernel mapped -/
def noTasks (es : List AddrSpaceEntry) (m : Memory) : St := ⟨m, (mappedEntries es.reverse).map entryArea, []⟩

/-- the addresses of two areas are disjoint -/
def AreasApart (a b : Area) : Prop :=
  Tiling.Apart (a.virtualAddr, a.pageCount * pageSize) (b.virtualAddr, b.pageCount * pageSize)

/-- live allocations are pairwise disjoint -/
theorem Held.pairwise (hi : Held u l t M) : u.live.Pairwise AreasApart := by
  have hspans : (u.live.map span).Pairwise Tiling.Apart := by
    refine Tiling.pairwise_apart (fun x => ?_) fun b hb => ?_
    · have := (hi.pages x).trans_le Tiling.hit_le_one
      omega
    · obtain ⟨a, ha, rfl⟩ := List.mem_map.1 hb
      exact (hi.areas a ha).nonempty
  rw [List.pairwise_map] at hspans
  exact hspans.imp_of_mem fun ha hb hab => apart_of_spans (hi.areas _ ha).aligned (hi.areas _ hb).aligned hab

theorem inv_noTasks (h0 : 0 < mi.higherHalfBase) (hal : mi.higherHalfBase % pageSize = 0) (hes : AddrSpaceOk mi es)
    (hnew : vmmNewContext A mi es h₀ = .ok (m.heap, ctx)) : Inv ctx es (noTasks es m) := by
  refine ⟨newContext_held h0 hal hes hnew, ?_, ?_, ?_, ?_⟩
  · exact ((es.reverse_perm.symm.filter _).map entryArea).subperm
  · intro k hk
    cases hk
  · intro k hk
    cases hk
  · intro k hk
    cases hk

theorem inv_run (h0 : 0 < mi.higherHalfBase) (hal : mi.higherHalfBase % pageSize = 0) (hes : AddrSpaceOk mi es)
    (hnew : vmmNewContext A mi es h₀ = .ok (m.heap, ctx))
    (hrun : Runs (step A mi pagingCtx ctx) (Allowed A mi pagingCtx ctx es) (noTasks es m) ops s) : Inv ctx es s := by
  refine hrun.inv (fun s o s' hinv hC hok => ?_) (inv_noTasks h0 hal hes hnew)
  have hstep := inv_step hinv hC
  rw [hok] at hstep
  exact hstep

end Runs

/-! ### A concrete run -/

section Concrete

instance (mi : KernelMeminfo) (l : List (ℕ × Area)) (t : BinaryTree (ℕ × VmmAllocation)) (n : ℕ) : Decidable (SpareAt mi l t n) :=
  inferInstanceAs (Decidable (RootOk t ∧ ∀ c ∈ l.find? (fun c => suits mi 0 n false c.2), c.2.pageCount ≠ n))

instance (mi : KernelMeminfo) (l : List (ℕ × Area)) : ∀ c, Decidable (AsideAt mi l c)
  | .map va _ n flags => inferInstanceAs (Decidable (∀ c ∈ l.find? (fun c => suits mi va n (flags &&& pageFlagUser ≠ 0) c.2),
      c.2.pageCount = n → l.head? ≠ some c))
  | .unmap va n => inferInstanceAs (Decidable (n ≠ va ∧ before va l ≠ []))

/-- the condition of `Spare`, on the list and the tree that are read from memory -/
def SpareChecked (mi : KernelMeminfo) (s : Space) (n : ℕ) : Prop :=
  Shape s (listOf s) (treeOf s) ∧ SpareAt mi (listOf s) (treeOf s) n

instance (mi : KernelMeminfo) (s : Space) (n : ℕ) : Decidable (SpareChecked mi s n) := inferInstanceAs (Decidable (_ ∧ _))

theorem spare_of_checked {mi : KernelMeminfo} {s : Space} {n : ℕ} (h : SpareChecked mi s n) : Spare mi s n := by
  intro l t hlt
  obtain ⟨rfl, rfl⟩ := hlt.unique h.1
  exact h.2

/-- the same for one page after a stack was allocated -/
def SpareAfter (mi : KernelMeminfo) : Except Fault KernelStack → Prop
  | .ok k => SpareChecked mi k.space 1
  | .error _ => True

instance (mi : KernelMeminfo) : ∀ x, Decidable (SpareAfter mi x)
  | .ok k => inferInstanceAs (Decidable (SpareChecked mi k.space 1))
  | .error _ => .isTrue trivial

/-- `Allowed`, on the list and the tree that are read from memory -/
def Checked (A : Allocator) (mi : KernelMeminfo) (pagingCtx : PagingContext) (ctx : VmmContext) (es : List AddrSpaceEntry)
    (s : St) : Op → Prop
  | .create isUserspace => SpareChecked mi (s.used ctx).space kernelStackPageCount ∧
      (isUserspace = true →
        SpareAfter mi (allocKernelStack A mi (s.used ctx).space pagingCtx s.memory.bitmap s.memory.tables))
  | .call c => WholeOk (s.used ctx) c ∧
      (Shape (s.used ctx).space (listOf (s.used ctx).space) (treeOf (s.used ctx).space) ∧
        ExactAt mi (s.used ctx).space (listOf (s.used ctx).space) (treeOf (s.used ctx).space) c ∧
        AsideAt mi (listOf (s.used ctx).space) c) ∧ ∀ a ∈ unmapped c, a ∉ reserved es s

instance (A : Allocator) (mi : KernelMeminfo) (pagingCtx : PagingContext) (ctx : VmmContext) (es : List AddrSpaceEntry) (s : St) :
    ∀ o, Decidable (Checked A mi pagingCtx ctx es s o)
  | .create isUserspace =>
    inferInstanceAs (Decidable (SpareChecked mi (s.used ctx).space kernelStackPageCount ∧ (isUserspace = true →
      SpareAfter mi (allocKernelStack A mi (s.used ctx).space pagingCtx s.memory.bitmap s.memory.tables))))
  | .call c =>
    inferInstanceAs (Decidable (WholeOk (s.used ctx) c ∧
      (Shape (s.used ctx).space (listOf (s.used ctx).space) (treeOf (s.used ctx).space) ∧
        ExactAt mi (s.used ctx).space (listOf (s.used ctx).space) (treeOf (s.used ctx).space) c ∧
        AsideAt mi (listOf (s.used ctx).space) c) ∧ ∀ a ∈ unmapped c, a ∉ reserved es s))

theorem allowed_of_checked {A : Allocator} {mi : KernelMeminfo} {pagingCtx : PagingContext} {ctx : VmmContext}
    {es : List AddrSpaceEntry} {s : St} {o : Op} (h : Checked A mi pagingCtx ctx es s o) : Allowed A mi pagingCtx ctx es s o := by
  cases o with
  | create isUserspace =>
    refine ⟨spare_of_checked h.1, fun huser k hk => ?_⟩
    have hdirectory := h.2 huser
    rw [hk] at hdirectory
    exact spare_of_checked hdirectory
  | call c =>
    obtain ⟨hwhole, ⟨hshape, hexact, haside⟩, hout⟩ := h
    refine ⟨hwhole, exact_of_checked hshape hexact, fun l t hlt => ?_, hout⟩
    obtain ⟨rfl, rfl⟩ := hlt.unique hshape
    exact haside

def beforeTasks : Memory := ⟨fresh.1, someUsed, blank⟩

/-- a kernel task, the page of a module, a user task, a page of its image that is mapped and unmapped, and another user task -/
def boot : List Op :=
  [.create false, .call (.map 0 0x900000 1 3), .create true, .call (.map 0x400000 0xA00000 1 7), .call (.unmap 0x400000 1), .create true]

def afterBoot : St :=
  returned (noTasks entries beforeTasks) (Runs.exec (step .top .atOneMegabyte kernelContext fresh.2) (noTasks entries beforeTasks) boot)

end Concrete

end Gubos.TaskSpace
