/-
Calls on an address space: `vmm_map_pages` and `vmm_unmap_pages` as steps, and what each does to the free list and to the
allocation tree.

- `map_cases`: a map call that returns cuts a free block and adds a record, unless a block fits exactly and starts elsewhere;
- `unmap_cases`: an unmap call that returns has found a node that starts at the address, and shifts it or removes it;
- `newContext_ind`: an invariant of the calls that map `ADDR_SPACE` holds of a new address space.
-/
import Gubos.Mm.AllocTree

namespace Gubos.Vmm

open Gubos.Core Gubos.Paging

/-! ## Steps -/

/-- an address space and the heap it lives in -/
structure Space where
  heap : Heap
  ctx : VmmContext

inductive Call where
  | map (virtualAddr physicalAddr pageCount flags : ℕ)
  | unmap (virtualAddr pageCount : ℕ)
deriving DecidableEq, Repr

def step (A : Allocator) (mi : KernelMeminfo) (s : Space) : Call → Except Fault Space
  | .map virtualAddr physicalAddr pageCount flags => do
    let (heap, ctx, _) ← vmmMapPages A mi s.heap s.ctx virtualAddr physicalAddr pageCount flags
    .ok ⟨heap, ctx⟩
  | .unmap virtualAddr pageCount => do
    let (heap, ctx) ← vmmUnmapPages A mi s.heap s.ctx virtualAddr pageCount
    .ok ⟨heap, ctx⟩

/-- the free list and the allocation tree that are in memory -/
structure Shape (s : Space) (l : List (ℕ × Area)) (t : BinaryTree (ℕ × VmmAllocation)) : Prop where
  list : Seg s.heap.block s.ctx.freeBlocks l 0
  tree : TreeAt s.heap.node s.ctx.allocations t

/-- the block that `remove_free_blocks` finds does not fit exactly, or it starts at the requested address -/
def FitOk (mi : KernelMeminfo) (l : List (ℕ × Area)) (virtualAddr pageCount flags : ℕ) : Prop :=
  ∀ c ∈ l.find? (fun c => suits mi virtualAddr pageCount (flags &&& pageFlagUser ≠ 0) c.2),
    c.2.pageCount = pageCount → virtualAddr = c.2.virtualAddr

/-- a record after its first pages are unmapped -/
def shrunk (a : VmmAllocation) (pageCount : ℕ) : VmmAllocation :=
  { a with
    virtualAddr := u32 (a.virtualAddr + pageSize * pageCount)
    pageCount := u32 (a.pageCount + 2 ^ 32 - pageCount) }

section Step

variable {A : Allocator} {mi : KernelMeminfo} {s s' : Space} {l : List (ℕ × Area)} {t : BinaryTree (ℕ × VmmAllocation)}
  {va pa n flags : ℕ}

/-- **Mapping.** Pages are cut out of a free block and become a record. -/
theorem map_cases {h h' : Heap} {ctx ctx' : VmmContext} {r : ℕ} (hr : Rep h ctx l t) (hf : FreeOk l)
    (hva : va % pageSize = 0) (hfit : FitOk mi l va n flags)
    (hok : vmmMapPages A mi h ctx va pa n flags = .ok (h', ctx', r)) :
    ∃ l₁ c l₂ m t', l = l₁ ++ c :: l₂ ∧ Cut c.2 r n m ∧ (va ≠ 0 → r = va) ∧ Rep h' ctx' (l₁ ++ m ++ l₂) t' ∧
      Grown t ⟨r, pa, n, flags⟩ t' := by
  unfold vmmMapPages at hok
  dsimp only at hok
  split_ifs at hok
  obtain ⟨⟨h₁, ctx₁, r₁⟩, hrem, hok⟩ := bind_ok.1 hok
  obtain ⟨h₂, hadd, hok⟩ := bind_ok.1 hok
  cases hok
  obtain ⟨haddr, l₁, c, l₂, m, rfl, hrep, hcut⟩ := removeFreeBlocks_spec hr hf hva hfit hrem
  obtain ⟨t', hrep', hgrown, _⟩ := addAllocation_spec hrep hadd
  exact ⟨l₁, c, l₂, m, t', rfl, hcut, haddr, hrep', hgrown⟩

theorem startDir_stop {a : VmmAllocation} : startDir va a = .stop ↔ a.virtualAddr = va := by
  unfold startDir insertDir
  split_ifs with heq
  · exact iff_of_true rfl heq.symm
  · exact iff_of_false (by decide) (Ne.symm heq)
  · exact iff_of_false (by decide) (Ne.symm heq)

/-- **Unmapping.** The range is returned to the free list, and the node that the search stops at is shifted or removed. -/
theorem unmap_cases (hr : Rep s.heap s.ctx l t) (hok : step A mi s (.unmap va n) = .ok s') :
    ∃ c h₁ ctx₁, descend (startDir va) t = some c ∧ c.2.virtualAddr = va ∧
      addFreeBlocks A mi s.heap s.ctx va n = .ok (h₁, ctx₁) ∧
      ((n < va ∧ ∀ l', Rep h₁ ctx₁ l' t → Rep s'.heap s'.ctx l' (t.map (setCell c.1 (shrunk c.2 n))) ∧
          Frame (own l' t) h₁ s'.heap (own l' (t.map (setCell c.1 (shrunk c.2 n))))) ∨
        (n = va ∧ (ParentOk s.heap s.ctx t c.1 → ∀ l', Rep h₁ ctx₁ l' t → Rep s'.heap s'.ctx l' (removeCell c.1 t)))) := by
  obtain ⟨⟨h₂, ctx₂⟩, hunmap, hok⟩ := bind_ok.1 hok
  cases hok
  unfold vmmUnmapPages at hunmap
  split_ifs at hunmap
  obtain ⟨⟨h₁, ctx₁⟩, hadd, hunmap⟩ := bind_ok.1 hunmap
  obtain ⟨⟨q, pr⟩, hseek, hunmap⟩ := bind_ok.1 hunmap
  obtain ⟨hnodes, hroot⟩ := addFreeBlocks_nodes hadd
  dsimp only at hunmap hseek
  split_ifs at hunmap with hq0
  -- the search is the one in the tree before the call
  have hseek' : walk s.heap.node (startDir va) rounds s.ctx.allocations 0 = .ok (q, pr) := by
    unfold seekAllocation at hseek
    rw [hroot] at hseek
    rw [← hseek]
    unfold Heap.node
    rw [hnodes]
  obtain ⟨b, hfound⟩ := (walk_spec hr.tree hseek').resolve_left fun h0 => hq0 h0.1
  obtain ⟨hc, hstop⟩ := descend_some hfound
  have hbva : b.virtualAddr = va := startDir_stop.1 hstop
  have hb : (h₁.nodes q).alloc = b := by
    rw [hnodes]
    exact hr.tree.contents _ hc
  refine ⟨(q, b), h₁, ctx₁, hfound, hbva, hadd, ?_⟩
  unfold shrinkAllocation at hunmap
  dsimp only at hunmap
  rw [hb, hbva] at hunmap
  split_ifs at hunmap with hshift hdelete
  · cases hunmap
    refine Or.inl ⟨hshift, fun l' hrep => ?_⟩
    have hset := hrep.setRecord (q := q) (a := shrunk b n)
    have hmem : q ∈ own l' t := List.mem_append_right _ (mem_ptrs hc)
    have hown : own l' (t.map (setCell q (shrunk b n))) = own l' t := by
      unfold own
      rw [cells_map, ptrs_map_setCell]
    refine ⟨?_, ?_⟩
    · unfold shrunk at hset ⊢
      rw [hbva] at hset ⊢
      exact hset
    · rw [hown]
      exact frame_setNode hmem
  · refine Or.inr ⟨hdelete, fun hpar l' hrep => removeAllocation_spec hrep hc ?_ hunmap⟩
    unfold ParentOk at hpar ⊢
    rw [hnodes, hroot]
    exact hpar

/-- **Mapping**, whatever the free areas are. -/
theorem map_frame {h h' : Heap} {ctx ctx' : VmmContext} {r : ℕ} (hr : Rep h ctx l t)
    (hok : vmmMapPages A mi h ctx va pa n flags = .ok (h', ctx', r)) :
    va % pageSize = 0 ∧ pa % pageSize = 0 ∧ (va ≠ 0 → r = va) ∧
      ∃ l' t', Rep h' ctx' l' t' ∧ Grown t ⟨r, pa, n, flags⟩ t' ∧ Frame (own l t) h h' (own l' t') := by
  unfold vmmMapPages at hok
  dsimp only at hok
  split_ifs at hok with hva hpa
  obtain ⟨⟨h₁, ctx₁, r₁⟩, hrem, hok⟩ := bind_ok.1 hok
  obtain ⟨h₂, hadd, hok⟩ := bind_ok.1 hok
  cases hok
  obtain ⟨haddr, l', hr₁, hf₁⟩ := removeFreeBlocks_frame hr hrem
  obtain ⟨t', hr₂, hgrown, hf₂⟩ := addAllocation_spec hr₁ hadd
  exact ⟨(pagingIsAligned_iff va).1 hva, (pagingIsAligned_iff pa).1 hpa, haddr, l', t', hr₂, hgrown, hf₁.trans hf₂⟩

/-- **Unmapping a page**, whatever the free areas are: the call returns for no allocation at address 0, and moves the node
found. -/
theorem unmap_frame (hr : Rep s.heap s.ctx l t) (hva : va % pageSize = 0) (hok : step A mi s (.unmap va 1) = .ok s') :
    va ≠ 0 ∧ ∃ c l', descend (startDir va) t = some c ∧ c.2.virtualAddr = va ∧
      Rep s'.heap s'.ctx l' (t.map (setCell c.1 (shrunk c.2 1))) ∧
      Frame (own l t) s.heap s'.heap (own l' (t.map (setCell c.1 (shrunk c.2 1)))) := by
  obtain ⟨c, h₁, ctx₁, hfound, hcva, hadd, hcases⟩ := unmap_cases hr hok
  obtain ⟨l', hr₁, hf₁⟩ := addFreeBlocks_frame hr hadd
  rcases hcases with ⟨hlt, hshift⟩ | ⟨rfl, _⟩
  · obtain ⟨hr₂, hf₂⟩ := hshift l' hr₁
    exact ⟨Nat.ne_zero_of_lt hlt, c, l', hfound, hcva, hr₂, hf₁.trans hf₂⟩
  · exact absurd hva (by decide)

end Step

/-! ## A new address space -/

/-- the entries of `ADDR_SPACE`: page-aligned, in the kernel half, and disjoint; one may be empty, and then its first page is in
no entry before it -/
structure AddrSpaceOk (mi : KernelMeminfo) (es : List AddrSpaceEntry) : Prop where
  aligned : ∀ e ∈ es, e.virtualStart % pageSize = 0
  lower : ∀ e ∈ es, mi.higherHalfBase ≤ e.virtualStart
  upper : ∀ e ∈ es, e.virtualStart + max 1 e.pageCount * pageSize ≤ 2 ^ 32
  apart : es.Pairwise fun e f => e.virtualStart + e.pageCount * pageSize ≤ f.virtualStart ∨
    f.virtualStart + max 1 f.pageCount * pageSize ≤ e.virtualStart

/-- while the entries are mapped: no entry to come goes over the border of two free blocks that touch in the kernel half, no
block crosses its start, and the pages of the entries to come are free, the first page of an empty one too -/
structure Filling (mi : KernelMeminfo) (l : List (ℕ × Area)) (es : List AddrSpaceEntry) : Prop where
  gap : l.Pairwise fun c d => mi.higherHalfBase ≤ c.2.virtualAddr →
    c.2.virtualAddr + c.2.pageCount * pageSize = d.2.virtualAddr → ∀ e ∈ es,
      d.2.virtualAddr ≤ e.virtualStart ∨ e.virtualStart + e.pageCount * pageSize ≤ d.2.virtualAddr
  split : ∀ c ∈ l, mi.higherHalfBase ≤ c.2.virtualAddr ∨
    c.2.virtualAddr + c.2.pageCount * pageSize ≤ mi.higherHalfBase
  free : ∀ e ∈ es, ∀ p, e.virtualStart ≤ p * pageSize → p * pageSize < e.virtualStart + max 1 e.pageCount * pageSize →
    freeCover l p = 1

section New

variable {A : Allocator} {mi : KernelMeminfo} {s s' : Space} {h h' : Heap} {ctx ctx' : VmmContext} {l : List (ℕ × Area)}
  {t : BinaryTree (ℕ × VmmAllocation)} {e : AddrSpaceEntry} {es : List AddrSpaceEntry}

/-- a free page is in a free block -/
theorem exists_block (hf : FreeOk l) {p : ℕ} (hp : freeCover l p = 1) :
    ∃ c ∈ l, c.2.virtualAddr ≤ p * pageSize ∧ p * pageSize < c.2.virtualAddr + c.2.pageCount * pageSize := by
  obtain ⟨b, hb, h1, h2⟩ := Tiling.exists_of_cover (l := l.map fun c => span c.2) (x := p)
    (by rw [freeCover] at hp; omega)
  obtain ⟨c, hc, rfl⟩ := List.mem_map.1 hb
  have hal := (hf.area c hc).aligned
  refine ⟨c, hc, ?_, ?_⟩
  · simp only [span, pageSize] at h1 hal ⊢
    omega
  · simp only [span, pageSize] at h2 hal ⊢
    omega

/-- the pages of an entry are some of those that were kept free for it -/
theorem pages_le (e : AddrSpaceEntry) : e.pageCount * pageSize ≤ max 1 e.pageCount * pageSize :=
  Nat.mul_le_mul_right _ (le_max_right _ _)

/-- the block that has the first page of an entry has all of its pages: the page after the block would be free too, and in a
block that touches this one -/
theorem Filling.contained {c : ℕ × Area} (hfill : Filling mi l (e :: es)) (hf : FreeOk l) (hes : AddrSpaceOk mi (e :: es))
    (hc : c ∈ l) (hge : c.2.virtualAddr ≤ e.virtualStart)
    (hlt : e.virtualStart < c.2.virtualAddr + c.2.pageCount * pageSize) :
    e.virtualStart + e.pageCount * pageSize ≤ c.2.virtualAddr + c.2.pageCount * pageSize := by
  have hlow := hes.lower e List.mem_cons_self
  have hkernel : mi.higherHalfBase ≤ c.2.virtualAddr := by
    rcases hfill.split c hc with hk | hk
    · exact hk
    · omega
  by_contra hbeyond
  have hcal := (hf.area c hc).aligned
  obtain ⟨k, hk⟩ : ∃ k, c.2.virtualAddr + c.2.pageCount * pageSize = k * pageSize :=
    ⟨c.2.virtualAddr / pageSize + c.2.pageCount, by rw [Nat.add_mul]; simp only [pageSize] at hcal ⊢; omega⟩
  have hpages := pages_le e
  have hfree := hfill.free e List.mem_cons_self k (by omega) (by omega)
  obtain ⟨d, hd, h1, h2⟩ := exists_block hf hfree
  obtain ⟨l₁, l₂, rfl⟩ := List.append_of_mem hc
  have hgap := (List.pairwise_append.1 hfill.gap).2.1
  rcases List.mem_append.1 hd with hd | hd
  · have := hf.around.1 d hd
    omega
  · rcases List.mem_cons.1 hd with rfl | hd
    · omega
    · have hle := hf.around.2 d hd
      have := List.rel_of_pairwise_cons hgap hd hkernel (by omega) e List.mem_cons_self
      omega

/-- so a block of the kernel half that fits an entry exactly starts where the entry does -/
theorem Filling.fitOk (hfill : Filling mi l (e :: es)) (hf : FreeOk l) (hes : AddrSpaceOk mi (e :: es))
    (h0 : 0 < mi.higherHalfBase) : FitOk mi l e.virtualStart e.pageCount e.flags := by
  intro c hc hcount
  have hmem := List.mem_of_find?_eq_some hc
  have hsuit := List.find?_some hc
  have hlow := hes.lower e List.mem_cons_self
  have hva0 : e.virtualStart ≠ 0 := by omega
  obtain ⟨hge, hlt⟩ : c.2.virtualAddr ≤ e.virtualStart ∧ e.virtualStart < c.2.virtualAddr + c.2.pageCount * pageSize := by
    simp only [suits, isAddrInRange, hva0, decide_false, Bool.false_and, Bool.false_or, Bool.and_eq_true,
      decide_eq_true_eq] at hsuit
    exact hsuit.1
  have hin := hfill.contained hf hes hmem hge hlt
  rw [hcount] at hin
  omega

/-- mapping an entry keeps the rest of the way clear -/
theorem Filling.cut {l₁ l₂ m : List (ℕ × Area)} {c : ℕ × Area} (hfill : Filling mi (l₁ ++ c :: l₂) (e :: es))
    (hf : FreeOk (l₁ ++ c :: l₂)) (hes : AddrSpaceOk mi (e :: es)) (hcut : Cut c.2 e.virtualStart e.pageCount m) :
    Filling mi (l₁ ++ m ++ l₂) es := by
  have hlow := hes.lower e List.mem_cons_self
  have hkernel : mi.higherHalfBase ≤ c.2.virtualAddr := by
    have := hcut.inBlock
    rcases hfill.split c (by simp) with hk | hk
    · exact hk
    · omega
  obtain ⟨g1, g2, g3⟩ := List.pairwise_append.1 hfill.gap
  obtain ⟨g4, g5⟩ := List.pairwise_cons.1 g2
  obtain ⟨hbefore, hafter⟩ := hf.around
  have gm : m.Pairwise fun d f => mi.higherHalfBase ≤ d.2.virtualAddr →
      d.2.virtualAddr + d.2.pageCount * pageSize = f.2.virtualAddr → ∀ g ∈ es,
        f.2.virtualAddr ≤ g.virtualStart ∨ g.virtualStart + g.pageCount * pageSize ≤ f.2.virtualAddr := by
    refine hcut.gap.imp fun {d f} hdf _ htouch g hg => ?_
    -- the entry is empty, and the pieces touch where it is
    have hapart := List.rel_of_pairwise_cons hes.apart hg
    have hpages := pages_le g
    omega
  have hold : ∀ {d f : ℕ × Area}, (mi.higherHalfBase ≤ d.2.virtualAddr →
      d.2.virtualAddr + d.2.pageCount * pageSize = f.2.virtualAddr → ∀ g ∈ e :: es,
        f.2.virtualAddr ≤ g.virtualStart ∨ g.virtualStart + g.pageCount * pageSize ≤ f.2.virtualAddr) →
      mi.higherHalfBase ≤ d.2.virtualAddr → d.2.virtualAddr + d.2.pageCount * pageSize = f.2.virtualAddr → ∀ g ∈ es,
        f.2.virtualAddr ≤ g.virtualStart ∨ g.virtualStart + g.pageCount * pageSize ≤ f.2.virtualAddr :=
    fun h hk htouch g hg => h hk htouch g (List.mem_cons_of_mem _ hg)
  refine ⟨List.pairwise_append.2 ⟨List.pairwise_append.2 ⟨g1.imp hold, gm, fun d hd f hf hk htouch g hg => ?_⟩, g5.imp hold,
    fun d hd f hf hk htouch g hg => ?_⟩, fun d hd => ?_, fun f hf p h1 h2 => ?_⟩
  · -- a block before the one that is cut
    have hle := hbefore d hd
    have hin := hcut.inside f hf
    have := g3 d hd c (by simp) hk (by omega) g (List.mem_cons_of_mem _ hg)
    omega
  · rcases List.mem_append.1 hd with hd | hd
    · exact hold (g3 d hd f (by simp [hf])) hk htouch g hg
    · have hle := hafter f hf
      have hin := hcut.inside d hd
      exact hold (g4 f hf) hkernel (by omega) g hg
  · simp only [List.mem_append] at hd
    rcases hd with (hd | hd) | hd
    · exact hfill.split d (by simp [hd])
    · exact Or.inl (hkernel.trans (hcut.inside d hd).1)
    · exact hfill.split d (by simp [hd])
  · have hfree := hfill.free f (List.mem_cons_of_mem _ hf) p h1 h2
    have hapart := List.rel_of_pairwise_cons hes.apart hf
    have hpages := hcut.pages p
    have hmiss : Tiling.hit (span ⟨e.virtualStart, e.pageCount⟩) p = 0 := by
      have hal := hes.aligned e List.mem_cons_self
      rw [Tiling.hit_eq, if_neg]
      simp only [span, pageSize] at hapart hal h1 h2 ⊢
      omega
    simp only [freeCover_append, freeCover_cons] at hfree ⊢
    omega

theorem AddrSpaceOk.tail (hes : AddrSpaceOk mi (e :: es)) : AddrSpaceOk mi es where
  aligned := fun f hf => hes.aligned f (List.mem_cons_of_mem _ hf)
  lower := fun f hf => hes.lower f (List.mem_cons_of_mem _ hf)
  upper := fun f hf => hes.upper f (List.mem_cons_of_mem _ hf)
  apart := (List.pairwise_cons.1 hes.apart).2

/-- an entry that is mapped after others is apart from them -/
def ApartFrom (done : List AddrSpaceEntry) (e : AddrSpaceEntry) : Prop :=
  ∀ f ∈ done, f.virtualStart + f.pageCount * pageSize ≤ e.virtualStart ∨
    e.virtualStart + max 1 e.pageCount * pageSize ≤ f.virtualStart

/-- the loop over `ADDR_SPACE`: an invariant that one map call keeps -/
theorem mapAddrSpace_ind {P : Space → List (ℕ × Area) → List AddrSpaceEntry → Prop}
    (hfree : ∀ s l done, P s l done → FreeOk l)
    (hstep : ∀ h ctx h' ctx' r l e done, P ⟨h, ctx⟩ l done → ApartFrom done e → e.virtualStart % pageSize = 0 →
      e.virtualStart ≠ 0 → FitOk mi l e.virtualStart e.pageCount e.flags →
      vmmMapPages A mi h ctx e.virtualStart e.physicalStart e.pageCount e.flags = .ok (h', ctx', r) →
      ∃ l₁ c l₂ m, l = l₁ ++ c :: l₂ ∧ Cut c.2 e.virtualStart e.pageCount m ∧ P ⟨h', ctx'⟩ (l₁ ++ m ++ l₂) (e :: done))
    {done : List AddrSpaceEntry} (h0 : 0 < mi.higherHalfBase) (hP : P ⟨h, ctx⟩ l done) (hfill : Filling mi l es)
    (hes : AddrSpaceOk mi es) (hdone : ∀ e ∈ es, ApartFrom done e) (hok : mapAddrSpace A mi es h ctx = .ok (h', ctx')) :
    ∃ l, P ⟨h', ctx'⟩ l (es.reverse ++ done) := by
  induction es generalizing h ctx l done with
  | nil =>
    cases hok
    exact ⟨l, hP⟩
  | cons e es ih =>
    obtain ⟨⟨h₁, ctx₁, r⟩, hmap, hok⟩ := bind_ok.1 hok
    have hlow := hes.lower e List.mem_cons_self
    obtain ⟨l₁, c, l₂, m, rfl, hcut, hP'⟩ := hstep h ctx h₁ ctx₁ r l e done hP (hdone e List.mem_cons_self)
      (hes.aligned e List.mem_cons_self) (by omega) (hfill.fitOk (hfree _ _ _ hP) hes h0) hmap
    have hdone' : ∀ f ∈ es, ApartFrom (e :: done) f := by
      intro f hf g hg
      rcases List.mem_cons.1 hg with rfl | hg
      · exact List.rel_of_pairwise_cons hes.apart hf
      · exact hdone f (List.mem_cons_of_mem _ hf) g hg
    obtain ⟨l', hl'⟩ := ih hP' (hfill.cut (hfree _ _ _ hP) hes hcut) hes.tail hdone' hok
    refine ⟨l', ?_⟩
    rw [List.reverse_cons, List.append_assoc, List.singleton_append]
    exact hl'

theorem createEmptyCtx_rep (hok : createEmptyCtx A h = .ok (h', ctx)) :
    ∃ r, Rep h' ctx [] (.node (r, ⟨0, 0, 0, 0⟩) .nil .nil) := by
  obtain ⟨⟨h₁, r⟩, hnew, hok⟩ := bind_ok.1 hok
  cases hok
  obtain ⟨hr0, _, hlive, hnode, _, _⟩ := newNode_ok hnew
  refine ⟨r, rfl, ⟨rfl, hr0, by rw [hnode], by rw [hnode]; rfl, by rw [hnode]; rfl⟩, by simp, ?_⟩
  rw [hlive]
  simp

/-- the free list of a context that has none -/
theorem addFreeBlocks_first {va n : ℕ} (hr : Rep h ctx [] t) (hok : addFreeBlocks A mi h ctx va n = .ok (h', ctx')) :
    ∃ p, Rep h' ctx' [(p, ⟨va, n⟩)] t := by
  obtain ⟨⟨q, pr⟩, hseek, hok⟩ := bind_ok.1 hok
  obtain ⟨rfl, rfl⟩ := seekFreeBlocks_spec hr.list hseek
  have h0 : ctx.freeBlocks = 0 := hr.list
  obtain ⟨⟨h₁, p⟩, hnew, hok⟩ := bind_ok.1 hok
  cases hok
  have hnew' : h.newBlock A ⟨⟨va, n⟩, ctx.freeBlocks⟩ = .ok (h', p) := by
    rw [h0]
    exact hnew
  exact ⟨p, hr.pushFront hnew'⟩

/-- the kernel half becomes a block of its own after the user block, which ends where it starts -/
theorem addFreeBlocks_kernel {p k u : ℕ} (h0 : 0 < mi.higherHalfBase) (hu : u * pageSize = mi.higherHalfBase)
    (hr : Rep h ctx [(p, ⟨0, u⟩)] t) (hok : addFreeBlocks A mi h ctx mi.higherHalfBase k = .ok (h', ctx')) :
    ∃ q, Rep h' ctx' [(p, ⟨0, u⟩), (q, ⟨mi.higherHalfBase, k⟩)] t := by
  obtain ⟨⟨q, pr⟩, hseek, hok⟩ := bind_ok.1 hok
  obtain ⟨_, hpr⟩ := seekFreeBlocks_spec hr.list hseek
  have hp0 : p ≠ 0 := hr.list.2.1
  have hbv : (h.blocks p).toArea = ⟨0, u⟩ := hr.list.2.2.1
  have hbefore : before mi.higherHalfBase [(p, (⟨0, u⟩ : Area))] = [(p, ⟨0, u⟩)] := by
    simp only [before, List.takeWhile_cons, h0, decide_true, if_true, List.takeWhile_nil]
  obtain rfl : pr = p := by
    rw [hpr, hbefore]
    rfl
  -- the user block does not count as one, since its end is not below the kernel half
  have hmode : isAddrInUserRange mi 0 u = isAddrInUserRange mi mi.higherHalfBase k := by
    simp only [isAddrInUserRange, decide_eq_decide]
    omega
  unfold putFreeBlocks at hok
  dsimp only at hok
  rw [if_pos hp0] at hok
  obtain ⟨h₁, hmerge, hok⟩ := bind_ok.1 hok
  cases hok
  unfold mergeOrInsertFreeBlocks at hmerge
  dsimp only at hmerge
  rw [if_pos hp0, hbv, if_pos hmode] at hmerge
  exact @insertFreeBlocks_rep A h h' ctx [] [] t (pr, ⟨0, u⟩) _ _ hr hmerge

/-- the free list of an address space in which nothing is allocated: two blocks with all pages -/
structure Blank (mi : KernelMeminfo) (l : List (ℕ × Area)) : Prop where
  free : FreeOk l
  pages : ∀ x, freeCover l x = Tiling.hit (0, 2 ^ 20) x
  fill : ∀ es, AddrSpaceOk mi es → Filling mi l es

theorem blank_two {p q u k : ℕ} (hu : 0 < u) (hk : 0 < k) (huk : u + k = 2 ^ 20) (hb : mi.higherHalfBase = u * pageSize) :
    Blank mi [(p, ⟨0, u⟩), (q, ⟨u * pageSize, k⟩)] := by
  have hfree : FreeOk [(p, (⟨0, u⟩ : Area)), (q, ⟨u * pageSize, k⟩)] := by
    refine ⟨fun c hc => ?_, ?_⟩
    · rcases List.mem_cons.1 hc with rfl | hc
      · refine ⟨rfl, hu, ?_⟩
        simp only [pageSize]
        omega
      · rw [List.mem_singleton.1 hc]
        refine ⟨Nat.mul_mod_left _ _, hk, ?_⟩
        simp only [pageSize]
        omega
    · refine List.pairwise_pair.2 ?_
      simp only [Nat.zero_add, le_refl]
  have hpages : ∀ x, freeCover [(p, (⟨0, u⟩ : Area)), (q, ⟨u * pageSize, k⟩)] x = Tiling.hit (0, 2 ^ 20) x := by
    intro x
    have hcut := hit_span_cut 0 u k x
    rw [Nat.zero_add] at hcut
    rw [freeCover_cons, freeCover_cons, freeCover_nil, Nat.add_zero, ← hcut, huk]
    rfl
  refine ⟨hfree, hpages, fun es hes => ⟨?_, fun c hc => ?_, fun e he x _ h2 => ?_⟩⟩
  · refine List.pairwise_pair.2 fun hle => ?_
    have : 0 < u * pageSize := Nat.mul_pos hu (by decide)
    dsimp only at hle
    omega
  · rcases List.mem_cons.1 hc with rfl | hc
    · refine Or.inr ?_
      dsimp only
      omega
    · rw [List.mem_singleton.1 hc]
      exact Or.inl hb.le
  · rw [hpages]
    refine Tiling.hit_of_mem (Nat.zero_le x) ?_
    have := hes.upper e he
    simp only [pageSize] at h2 this
    omega

/-- **A new address space.** What holds of a blank one and is kept by each call that maps an entry of `ADDR_SPACE`. -/
theorem newContext_ind {P : Space → List (ℕ × Area) → List AddrSpaceEntry → Prop}
    (hfree : ∀ s l done, P s l done → FreeOk l)
    (hblank : ∀ s l r, Rep s.heap s.ctx l (.node (r, ⟨0, 0, 0, 0⟩) .nil .nil) → Blank mi l → P s l [])
    (hstep : ∀ h ctx h' ctx' r l e done, P ⟨h, ctx⟩ l done → ApartFrom done e → e.virtualStart % pageSize = 0 →
      e.virtualStart ≠ 0 → FitOk mi l e.virtualStart e.pageCount e.flags →
      vmmMapPages A mi h ctx e.virtualStart e.physicalStart e.pageCount e.flags = .ok (h', ctx', r) →
      ∃ l₁ c l₂ m, l = l₁ ++ c :: l₂ ∧ Cut c.2 e.virtualStart e.pageCount m ∧ P ⟨h', ctx'⟩ (l₁ ++ m ++ l₂) (e :: done))
    (h0 : 0 < mi.higherHalfBase) (hal : mi.higherHalfBase % pageSize = 0) (hes : AddrSpaceOk mi es)
    (hok : vmmNewContext A mi es h = .ok (h', ctx')) : ∃ l, P ⟨h', ctx'⟩ l es.reverse := by
  have hlt := mi.higherHalfBase_lt
  obtain ⟨⟨h₁, ctx₁⟩, hempty, hok⟩ := bind_ok.1 hok
  obtain ⟨⟨h₂, ctx₂⟩, huser, hok⟩ := bind_ok.1 hok
  obtain ⟨⟨h₃, ctx₃⟩, hkernel, hok⟩ := bind_ok.1 hok
  have hu : mi.higherHalfBase / pageSize * pageSize = mi.higherHalfBase :=
    Nat.div_mul_cancel (Nat.dvd_of_mod_eq_zero hal)
  obtain ⟨r, hr₁⟩ := createEmptyCtx_rep hempty
  obtain ⟨p, hr₂⟩ := addFreeBlocks_first hr₁ huser
  obtain ⟨q, hr₃⟩ := addFreeBlocks_kernel h0 hu hr₂ hkernel
  have hpages : 2 ^ 32 / pageSize = 2 ^ 20 := by decide
  rw [hpages] at hr₃
  have hsplit : 0 < mi.higherHalfBase / pageSize ∧ mi.higherHalfBase / pageSize < 2 ^ 20 := by
    simp only [pageSize] at hal ⊢
    omega
  have hbl : Blank mi [(p, ⟨0, mi.higherHalfBase / pageSize⟩),
      (q, ⟨mi.higherHalfBase, 2 ^ 20 - mi.higherHalfBase / pageSize⟩)] := by
    have := @blank_two mi p q (mi.higherHalfBase / pageSize) (2 ^ 20 - mi.higherHalfBase / pageSize) hsplit.1 (by omega)
      (by omega) hu.symm
    rw [hu] at this
    exact this
  have hnone : ∀ e ∈ es, ApartFrom [] e := fun e _ f hf => absurd hf List.not_mem_nil
  have := mapAddrSpace_ind hfree hstep h0 (hblank ⟨h₃, ctx₃⟩ _ r hr₃ hbl) (hbl.fill es hes) hes hnone hok
  rwa [List.append_nil] at this

end New

/-! ## Concrete address spaces -/

section Concrete

def listOf (s : Space) : List (ℕ × Area) := readList s.heap.block rounds s.ctx.freeBlocks

def treeOf (s : Space) : BinaryTree (ℕ × VmmAllocation) := readTree s.heap.node rounds s.ctx.allocations

theorem Shape.unique {s : Space} {l l' : List (ℕ × Area)} {t t' : BinaryTree (ℕ × VmmAllocation)} (h : Shape s l t)
    (h' : Shape s l' t') : l = l' ∧ t = t' :=
  ⟨h.list.unique h'.list h.list.ne_zero h'.list.ne_zero, h.tree.unique h'.tree⟩

instance (s : Space) (l : List (ℕ × Area)) (t : BinaryTree (ℕ × VmmAllocation)) : Decidable (Shape s l t) :=
  decidable_of_iff (Seg s.heap.block s.ctx.freeBlocks l 0 ∧ TreeAt s.heap.node s.ctx.allocations t)
    ⟨fun h => ⟨h.1, h.2⟩, fun h => ⟨h.list, h.tree⟩⟩

instance (mi : KernelMeminfo) (va n : ℕ) : ∀ prev next, Decidable (MergeOk mi prev next va n)
  | none, none => .isTrue trivial
  | none, some c => inferInstanceAs (Decidable (va + n * pageSize ≠ c.2.virtualAddr))
  | some d, _ => inferInstanceAs (Decidable (isAddrInUserRange mi d.2.virtualAddr d.2.pageCount = true →
      isAddrInUserRange mi va n = false → d.2.virtualAddr + n * pageSize = va → d.2.pageCount = n))

instance (h : Heap) (ctx : VmmContext) (t : BinaryTree (ℕ × VmmAllocation)) (q : ℕ) : Decidable (ParentOk h ctx t q) :=
  inferInstanceAs (Decidable (if (h.nodes q).parent = 0 then ctx.allocations = q
    else (h.nodes q).parent ∈ ptrs (cells t) ∧
      ((h.nodes (h.nodes q).parent).left = q ∨ (h.nodes (h.nodes q).parent).right = q)))

instance (mi : KernelMeminfo) (l : List (ℕ × Area)) (va n flags : ℕ) : Decidable (FitOk mi l va n flags) :=
  inferInstanceAs (Decidable (∀ c ∈ l.find? (fun c => suits mi va n (flags &&& pageFlagUser ≠ 0) c.2),
    c.2.pageCount = n → va = c.2.virtualAddr))

/-- the kernel image and the page tables of a small machine -/
def entries : List AddrSpaceEntry := [⟨0xC0100000, 0x100000, 256, 3⟩, ⟨0xFFC00000, 0, 1024, 3⟩]

theorem entries_ok : AddrSpaceOk .atOneMegabyte entries := by
  refine ⟨?_, ?_, ?_, ?_⟩ <;> decide

def emptyHeap : Heap := ⟨fun _ => ⟨⟨0, 0⟩, 0⟩, fun _ => ⟨⟨0, 0, 0, 0⟩, 0, 0, 0⟩, .empty⟩

/-- a new address space -/
def fresh : Heap × VmmContext := returned (emptyHeap, ⟨0, 0⟩) (vmmNewContext .top .atOneMegabyte entries emptyHeap)

theorem fresh_eq : vmmNewContext .top .atOneMegabyte entries emptyHeap = .ok fresh := rfl

/-- its free list -/
def freshBlocks : List (ℕ × Area) := [(2, ⟨0, 0xC0000⟩), (3, ⟨0xC0000000, 0x100⟩), (4, ⟨0xC0200000, 0x3FA00⟩)]

theorem freshBlocks_ok : FreeOk freshBlocks := by
  refine ⟨fun c hc => ?_, by decide⟩
  simp only [freshBlocks, List.mem_cons, List.not_mem_nil, or_false] at hc
  rcases hc with rfl | rfl | rfl
  · exact ⟨by decide, by decide, by decide⟩
  · exact ⟨by decide, by decide, by decide⟩
  · exact ⟨by decide, by decide, by decide⟩

theorem fresh_rep : Rep fresh.1 fresh.2 freshBlocks (treeOf ⟨fresh.1, fresh.2⟩) := by
  have hs : Shape ⟨fresh.1, fresh.2⟩ freshBlocks (treeOf ⟨fresh.1, fresh.2⟩) := by decide +kernel
  exact ⟨hs.list, hs.tree, by decide +kernel, by decide +kernel⟩

end Concrete

end Gubos.Vmm
