/-
When `vmm_map_pages` and `vmm_unmap_pages` return (`mm/vmm.c`).

The other modules on the VMM say what a call does that returns. Here pages at a given address are mapped and unmapped: the calls
return if the pages are in a free block and the heap answers requests.

- `map_returns`: mapping a page that a block of the free list contains;
- `unmapPages_eq`: an unmapping that the heap answers is decided by the node at the address;
- `unmap_returns`: unmapping a page at which an allocation starts;
- `unmap_keeps`: blocks still contain what they contained. `add_free_blocks` may also merge the page with the head of the list,
  which then gets the page after its last instead.
-/
import Gubos.Mm.FreeExact
import Gubos.Mm.LookupTree

namespace Gubos.Vmm

open Gubos.Core Gubos.Paging

/-- a block contains the address, and page counts have 32 bits -/
structure Offers (l : List (ℕ × Area)) (va : ℕ) : Prop where
  block : ∃ c ∈ l, isAddrInRange va c.2 = true
  counts : ∀ c ∈ l, c.2.pageCount < 2 ^ 32

section Returns

variable {A : Allocator} {mi : KernelMeminfo} {h h' : Heap} {ctx ctx' : VmmContext} {l l' : List (ℕ × Area)}
  {t t' : BinaryTree (ℕ × VmmAllocation)} {a : VmmAllocation} {va pa flags n q prev N x : ℕ} {user : Bool}

theorem inRange_iff_bounds {c : Area} :
    isAddrInRange va c = true ↔ c.virtualAddr ≤ va ∧ va < c.virtualAddr + c.pageCount * pageSize := by
  unfold isAddrInRange
  rw [decide_eq_true_eq]

/-- free pages are offered -/
theorem offers_of_free (hf : FreeOk l) (hva : va % pageSize = 0) (hfree : Free l (va / pageSize)) : Offers l va := by
  have hpage : va / pageSize * pageSize = va := Nat.div_mul_cancel (Nat.dvd_of_mod_eq_zero hva)
  have hone : freeCover l (va / pageSize) = 1 := le_antisymm (hf.cover_le_one _) hfree
  obtain ⟨c, hc, hin⟩ := exists_block hf hone
  rw [hpage] at hin
  refine ⟨⟨c, hc, inRange_iff_bounds.2 hin⟩, fun d hd => ?_⟩
  have hfits := (hf.area d hd).fits
  simp only [pageSize] at hfits
  omega

theorem newBlock_answers (hA : A.Answers N) (hlen : h.arena.live.length < N) (b : VmmFreeBlocks) :
    ∃ h' p, h.newBlock A b = .ok (h', p) ∧ h'.arena.live.length = h.arena.live.length + 1 := by
  obtain ⟨⟨h', p⟩, hnew⟩ := newBlock_returns (hA _ _ hlen) b
  refine ⟨h', p, hnew, ?_⟩
  rw [(newBlock_ok hnew).2.2.1, List.length_cons]

/-! ## Mapping pages -/

/-- the block contains the address, and from there on the pages asked for, unless it has exactly as many anyway -/
structure Serves (c : Area) (va n : ℕ) : Prop where
  inRange : isAddrInRange va c = true
  room : c.pageCount = n ∨ (va - c.virtualAddr) / pageSize + n ≤ c.pageCount

/-- a block suits a given address if it contains the address and has enough pages -/
theorem suits_iff {c : Area} (h0 : va ≠ 0) :
    suits mi va n user c = true ↔ isAddrInRange va c = true ∧ n ≤ c.pageCount := by
  simp only [suits, h0, decide_false, Bool.false_and, Bool.false_or, Bool.and_eq_true, decide_eq_true_eq]

/-- pages that are in the block do not exceed what is left of it in 32 bits -/
theorem memory_left {c : Area} (h1 : c.virtualAddr ≤ va) (h2 : va < c.virtualAddr + c.pageCount * 4096)
    (hva : va < 2 ^ 32) (hb : c.pageCount < 2 ^ 32) (hroom : (va - c.virtualAddr) / 4096 + n ≤ c.pageCount) :
    ¬ u32 (c.pageCount + 2 ^ 32 - u32 (va + 2 ^ 32 - c.virtualAddr) / pageSize) < n := by
  unfold u32
  simp only [pageSize]
  omega

/-- `remove_free_blocks`, at a block that serves the request -/
theorem takeFreeBlocks_returns (hA : A.Answers N) (hlen : h.arena.live.length < N) (h0 : va ≠ 0) (hva : va < 2 ^ 32)
    (hserves : Serves (h.blocks q).toArea va n) (hcount : (h.blocks q).pageCount < 2 ^ 32) :
    ∃ h' ctx' r, takeFreeBlocks A h ctx va n q prev = .ok (h', ctx', r) ∧
      h'.arena.live.length ≤ h.arena.live.length + 1 ∧ ctx'.allocations = ctx.allocations := by
  obtain ⟨hin, hroom⟩ := hserves
  obtain ⟨h1, h2⟩ := inRange_iff_bounds.1 hin
  have hkfree : ∀ (h : Heap) p, (h.kfree p).arena.live.length ≤ h.arena.live.length := fun h p => List.length_erase_le
  unfold takeFreeBlocks unlinkBlock
  dsimp only
  by_cases hfit : (h.blocks q).pageCount = n
  · rw [if_pos hfit]
    split_ifs
    · exact ⟨_, _, _, rfl, (hkfree _ _).trans (Nat.le_succ _), rfl⟩
    · exact ⟨_, _, _, rfl, (hkfree _ _).trans (Nat.le_succ _), rfl⟩
  rw [if_neg hfit]
  replace hroom := hroom.resolve_left hfit
  simp only [pageSize] at h2 hroom
  rw [if_pos (show n < (h.blocks q).pageCount by omega), if_pos h0]
  rw [if_neg (memory_left h1 h2 hva hcount hroom)]
  split_ifs
  · exact ⟨_, _, _, rfl, Nat.le_succ _, rfl⟩
  · obtain ⟨h₁, p, hnew, hsize⟩ := newBlock_answers hA hlen
      ⟨⟨u32 ((h.blocks q).virtualAddr + u32 (u32 (va + 2 ^ 32 - (h.blocks q).virtualAddr) / pageSize + n) * pageSize),
        (h.blocks q).pageCount - u32 (u32 (va + 2 ^ 32 - (h.blocks q).virtualAddr) / pageSize + n)⟩, (h.blocks q).next⟩
    exact ⟨_, _, _, bind_ok.2 ⟨(h₁, p), hnew, rfl⟩, hsize.le, rfl⟩
  · exact ⟨_, _, _, rfl, Nat.le_succ _, rfl⟩

/-- `remove_free_blocks` goes on with the first block that suits -/
theorem removeFreeBlocks_some {c : ℕ × Area} (hr : Rep h ctx l t)
    (hfind : l.find? (fun c => suits mi va n user c.2) = some c) :
    ∃ prev, removeFreeBlocks A mi h ctx va n user = takeFreeBlocks A h ctx va n c.1 prev ∧ (h.blocks c.1).toArea = c.2 := by
  have hfl : FreeList h ctx l := Rep.freeList hr
  obtain ⟨⟨q, prev⟩, hscan⟩ : ∃ r, scan h.block (suits mi va n user) rounds ctx.freeBlocks 0 = .ok r :=
    scan_returns hfl.list hfl.length_lt
  obtain ⟨l₁, l₂, rfl, hl₁, _, hq⟩ := scan_spec hfl.list hscan
  have hnone : l₁.find? (fun c => suits mi va n user c.2) = none := by
    refine List.find?_eq_none.2 fun d hd => ?_
    rw [hl₁ d hd]
    exact Bool.false_ne_true
  rw [List.find?_append, hnone, Option.none_or] at hfind
  rcases hq with ⟨_, rfl⟩ | ⟨d, l₃, rfl, rfl, hd⟩
  · cases hfind
  simp only [List.find?_cons, hd, Option.some.injEq] at hfind
  obtain rfl := hfind.symm
  have hc0 : c.1 ≠ 0 := fun hz => hfl.list.ne_zero (by simp [hz])
  have hhead : ctx.freeBlocks ≠ 0 := by
    intro hnil
    have hl := hfl.list
    cases l₁ with
    | nil => exact hl.2.1 (hl.1 ▸ hnil)
    | cons d l₁ => exact hl.2.1 (hl.1 ▸ hnil)
  refine ⟨prev, ?_, hr.block_eq⟩
  have hok : findFreeBlocks mi h ctx va n user = .ok (c.1, prev) := hscan
  unfold removeFreeBlocks
  rw [if_neg hhead, hok]
  change (if c.1 = 0 then _ else _) = _
  rw [if_neg hc0]

/-- `remove_free_blocks` panics if no block suits -/
theorem removeFreeBlocks_none (hr : Rep h ctx l t) (hfind : l.find? (fun c => suits mi va n user c.2) = none) :
    ∃ m, removeFreeBlocks A mi h ctx va n user = .error (.panic m) := by
  have hfl : FreeList h ctx l := Rep.freeList hr
  unfold removeFreeBlocks
  by_cases hhead : ctx.freeBlocks = 0
  · rw [if_pos hhead]
    exact ⟨_, rfl⟩
  obtain ⟨⟨q, prev⟩, hscan⟩ : ∃ r, scan h.block (suits mi va n user) rounds ctx.freeBlocks 0 = .ok r :=
    scan_returns hfl.list hfl.length_lt
  obtain ⟨l₁, l₂, rfl, _, _, hq⟩ := scan_spec hfl.list hscan
  rcases hq with ⟨rfl, _⟩ | ⟨d, l₃, rfl, rfl, hd⟩
  · have hok : findFreeBlocks mi h ctx va n user = .ok (0, prev) := hscan
    rw [if_neg hhead, hok]
    exact ⟨_, rfl⟩
  · exact absurd hd (List.find?_eq_none.1 hfind d (by simp))

/-- `remove_free_blocks`, where the blocks that suit serve the request -/
theorem removeFreeBlocks_returns (hr : Rep h ctx l t) (hsuits : ∃ c ∈ l, suits mi va n user c.2 = true)
    (hserves : ∀ c ∈ l, suits mi va n user c.2 = true → Serves c.2 va n ∧ c.2.pageCount < 2 ^ 32) (hA : A.Answers N)
    (hlen : h.arena.live.length < N) (h0 : va ≠ 0) (hva : va < 2 ^ 32) :
    ∃ h' ctx' r, removeFreeBlocks A mi h ctx va n user = .ok (h', ctx', r) ∧
      h'.arena.live.length ≤ h.arena.live.length + 1 ∧ ctx'.allocations = ctx.allocations := by
  cases hfind : l.find? (fun c => suits mi va n user c.2) with
  | none =>
    obtain ⟨c, hc, hsuit⟩ := hsuits
    exact absurd hsuit (List.find?_eq_none.1 hfind c hc)
  | some c =>
    obtain ⟨prev, htake, hblock⟩ := @removeFreeBlocks_some A mi h ctx l t va n user c hr hfind
    have hsuit := List.find?_some hfind
    obtain ⟨hserve, hcount⟩ := hserves c (List.mem_of_find?_eq_some hfind) hsuit
    rw [htake]
    rw [← hblock] at hserve hcount
    exact takeFreeBlocks_returns hA hlen h0 hva hserve hcount

/-- `add_allocation`, in a tree that is not empty: the root is overwritten, or a node is made and linked -/
theorem addAllocation_eq (hr : Rep h ctx l t) (ht : t ≠ .nil) :
    addAllocation A h ctx a = .ok (h.setNode ctx.allocations { h.nodes ctx.allocations with alloc := a }) ∨
    ∃ pr, addAllocation A h ctx a = h.newNode A ⟨a, 0, 0, pr⟩ >>= fun r =>
      .ok (if a.virtualAddr < (r.1.nodes pr).alloc.virtualAddr then r.1.setNode pr { r.1.nodes pr with left := r.2 }
        else r.1.setNode pr { r.1.nodes pr with right := r.2 }) := by
  cases t with
  | nil => exact absurd rfl ht
  | node c tl tr =>
    have hroot : ctx.allocations ≠ 0 := hr.tree.1 ▸ hr.tree.2.1
    unfold addAllocation
    dsimp only
    rw [if_neg hroot]
    by_cases hempty : (h.nodes ctx.allocations).alloc.pageCount = 0
    · rw [if_pos hempty]
      exact .inl rfl
    rw [if_neg hempty]
    obtain ⟨pr, hw⟩ : ∃ pr, Core.walk h.node (insertDir a.virtualAddr) rounds ctx.allocations 0 =
        .ok (((descend (insertDir a.virtualAddr) (.node c tl tr)).map Prod.fst).getD 0, pr) :=
      walk_eq hr.tree hr.length_lt
    rw [descend_none fun d _ => insertDir_ne_stop _ _] at hw
    have hpr : pr ≠ 0 := by
      rcases walk_prev_mem hr.tree hw with ⟨hnil, _⟩ | hmem
      · cases hnil
      · exact fun hz => hr.tree.ne_zero (hz ▸ hmem)
    refine .inr ⟨pr, ?_⟩
    rw [hw]
    change (if pr = 0 then _ else _) = _
    rw [if_neg hpr]
    refine congrArg _ (funext fun r => ?_)
    split_ifs
    · rfl
    · rfl

/-- `add_allocation` -/
theorem addAllocation_returns (hr : Rep h ctx l t) (ht : t ≠ .nil) (hA : A.Answers N) (hlen : h.arena.live.length < N) :
    ∃ h', addAllocation A h ctx a = .ok h' ∧ h'.arena.live.length ≤ h.arena.live.length + 1 := by
  rcases @addAllocation_eq A h ctx l t a hr ht with heq | ⟨pr, heq⟩
  · exact ⟨_, heq, Nat.le_succ _⟩
  · have hanswer : (h.arena.alloc A).1 ≠ 0 := hA _ _ hlen
    obtain ⟨⟨h₁, p⟩, hnew⟩ : ∃ r, h.newNode A ⟨a, 0, 0, pr⟩ = .ok r := by
      unfold Heap.newNode
      dsimp only
      rw [if_neg hanswer]
      exact ⟨_, rfl⟩
    have hsize : h₁.arena.live.length = h.arena.live.length + 1 := by
      rw [(newNode_ok hnew).2.2.1, List.length_cons]
    refine ⟨_, heq.trans (bind_ok.2 ⟨(h₁, p), hnew, rfl⟩), ?_⟩
    split_ifs
    · exact hsize.le
    · exact hsize.le

/-- **Mapping pages.** -/
theorem mapPages_returns (hr : Rep h ctx l t) (ht : t ≠ .nil)
    (hsuits : ∃ c ∈ l, suits mi va n (flags &&& pageFlagUser ≠ 0) c.2 = true)
    (hserves : ∀ c ∈ l, suits mi va n (flags &&& pageFlagUser ≠ 0) c.2 = true → Serves c.2 va n ∧ c.2.pageCount < 2 ^ 32)
    (hA : A.Answers N) (hlen : h.arena.live.length + 2 ≤ N) (h0 : va ≠ 0) (hlt : va < 2 ^ 32) (hva : va % pageSize = 0)
    (hpa : pa % pageSize = 0) :
    ∃ h' ctx', vmmMapPages A mi h ctx va pa n flags = .ok (h', ctx', va) ∧
      h'.arena.live.length ≤ h.arena.live.length + 2 ∧ ctx'.allocations = ctx.allocations := by
  obtain ⟨h₁, ctx₁, r, hrem, hsize₁, hroot⟩ := @removeFreeBlocks_returns A mi h ctx l t va n N (flags &&& pageFlagUser ≠ 0) hr
    hsuits hserves hA (by omega) h0 hlt
  obtain ⟨haddr, l', hr₁, _⟩ := removeFreeBlocks_frame hr hrem
  obtain rfl := haddr h0
  obtain ⟨h₂, hadd, hsize₂⟩ := @addAllocation_returns A h₁ ctx₁ l' t ⟨r, pa, n, flags⟩ N hr₁ ht hA (by omega)
  refine ⟨h₂, ctx₁, ?_, by omega, hroot⟩
  have hhead : ctx.freeBlocks ≠ 0 := by
    intro hnil
    unfold removeFreeBlocks at hrem
    rw [if_pos hnil] at hrem
    cases hrem
  unfold vmmMapPages
  dsimp only
  rw [if_neg (not_not.2 ((pagingIsAligned_iff r).2 hva)), if_neg (not_not.2 ((pagingIsAligned_iff pa).2 hpa)), if_neg hhead]
  exact bind_ok.2 ⟨(h₁, ctx₁, r), hrem, bind_ok.2 ⟨h₂, hadd, rfl⟩⟩

/-- **Mapping a page.** -/
theorem map_returns (hr : Rep h ctx l t) (ht : t ≠ .nil) (hl : Offers l va) (hA : A.Answers N)
    (hlen : h.arena.live.length + 2 ≤ N) (h0 : va ≠ 0) (hlt : va < 2 ^ 32) (hva : va % pageSize = 0) (hpa : pa % pageSize = 0) :
    ∃ h' ctx', vmmMapPages A mi h ctx va pa 1 flags = .ok (h', ctx', va) ∧
      h'.arena.live.length ≤ h.arena.live.length + 2 ∧ ctx'.allocations = ctx.allocations := by
  refine mapPages_returns hr ht ?_ (fun c hc hsuit => ?_) hA hlen h0 hlt hva hpa
  · obtain ⟨c, hc, hin⟩ := hl.block
    have hbounds := inRange_iff_bounds.1 hin
    have hpos : 1 ≤ c.2.pageCount := by
      simp only [pageSize] at hbounds
      omega
    exact ⟨c, hc, (suits_iff h0).2 ⟨hin, hpos⟩⟩
  · have hin : isAddrInRange va c.2 = true := ((suits_iff h0).1 hsuit).1
    refine ⟨⟨hin, ?_⟩, hl.counts c hc⟩
    have hbounds := inRange_iff_bounds.1 hin
    simp only [pageSize] at hbounds ⊢
    omega

/-! ## Unmapping a page -/

theorem addFreeBlocks_size (hok : addFreeBlocks A mi h ctx va n = .ok (h', ctx')) :
    h'.arena.live.length ≤ h.arena.live.length + 1 := by
  have hnewBlock : ∀ {h h₁ : Heap} {b p}, h.newBlock A b = .ok (h₁, p) →
      h₁.arena.live.length ≤ h.arena.live.length + 1 := by
    intro h h₁ b p hnew
    rw [(newBlock_ok hnew).2.2.1, List.length_cons]
  have hinsert : ∀ {h h₁ : Heap} {q}, insertFreeBlocks A h q va n = .ok h₁ →
      h₁.arena.live.length ≤ h.arena.live.length + 1 := by
    intro h h₁ q hins
    obtain ⟨⟨h₂, p⟩, hnew, hins⟩ := bind_ok.1 hins
    cases hins
    have hsize := hnewBlock hnew
    exact hsize
  have hmerge : ∀ {h₁ : Heap} {q}, mergeOrInsertFreeBlocks A mi h q va n = .ok h₁ →
      h₁.arena.live.length ≤ h.arena.live.length + 1 := by
    intro h₁ q hm
    unfold mergeOrInsertFreeBlocks at hm
    dsimp only at hm
    split_ifs at hm
    · exact hinsert hm
    · cases hm
      exact List.length_erase_le.trans (Nat.le_succ _)
    · cases hm
      exact Nat.le_succ _
    · cases hm
      exact List.length_erase_le.trans (Nat.le_succ _)
    · exact hinsert hm
    · obtain ⟨⟨h₂, p⟩, hnew, hm⟩ := bind_ok.1 hm
      cases hm
      exact hnewBlock hnew
  obtain ⟨⟨q, prev⟩, _, hok⟩ := bind_ok.1 hok
  unfold putFreeBlocks at hok
  dsimp only at hok
  split_ifs at hok
  · obtain ⟨h₁, hm, hok⟩ := bind_ok.1 hok
    cases hok
    exact hmerge hm
  · cases hok
    exact Nat.le_succ _
  · obtain ⟨⟨h₁, p⟩, hnew, hok⟩ := bind_ok.1 hok
    cases hok
    exact hnewBlock hnew

/-- what an unmap does once the range is returned to the free list, which it always is -/
theorem unmapPages_eq (hr : Rep h ctx l t) (halloc : (h.arena.alloc A).1 ≠ 0) (hva : va % pageSize = 0) :
    ∃ h₁ ctx₁, addFreeBlocks A mi h ctx va n = .ok (h₁, ctx₁) ∧
      vmmUnmapPages A mi h ctx va n = match descend (startDir va) t with
        | none => .error (.panic .allocationNotFound)
        | some c => shrinkAllocation h₁ ctx₁ n c.1 := by
  have hfl : FreeList h ctx l := Rep.freeList hr
  obtain ⟨h₁, ctx₁, hadd⟩ := @addFreeBlocks_returns A mi h ctx l va n hfl halloc
  obtain ⟨hnodes, hroot⟩ := addFreeBlocks_nodes hadd
  obtain ⟨pr, hw⟩ : ∃ pr, Core.walk h.node (startDir va) rounds ctx.allocations 0 =
      .ok (((descend (startDir va) t).map Prod.fst).getD 0, pr) := walk_eq hr.tree hr.length_lt
  have hseek : seekAllocation h₁ ctx₁ va = .ok (((descend (startDir va) t).map Prod.fst).getD 0, pr) := by
    unfold seekAllocation
    rw [hroot, ← hw]
    unfold Heap.node
    rw [hnodes]
  have hcall : vmmUnmapPages A mi h ctx va n =
      if ((descend (startDir va) t).map Prod.fst).getD 0 = 0 then .error (.panic .allocationNotFound)
      else shrinkAllocation h₁ ctx₁ n (((descend (startDir va) t).map Prod.fst).getD 0) := by
    unfold vmmUnmapPages
    rw [if_neg (not_not.2 ((pagingIsAligned_iff va).2 hva)), hadd]
    change (seekAllocation h₁ ctx₁ va >>= _) = _
    rw [hseek]
    rfl
  refine ⟨h₁, ctx₁, hadd, ?_⟩
  rw [hcall]
  cases hfound : descend (startDir va) t with
  | none => rfl
  | some c =>
    have hc0 : c.1 ≠ 0 := fun hz => hr.tree.ne_zero (hz ▸ mem_ptrs (descend_some hfound).1)
    exact if_neg hc0

/-- **Unmapping a page.** -/
theorem unmap_returns {c : ℕ × VmmAllocation} (hr : Rep h ctx l t) (hA : A.Answers N) (hlen : h.arena.live.length < N)
    (h0 : va ≠ 0) (hva : va % pageSize = 0) (hfound : descend (startDir va) t = some c) :
    ∃ h' ctx', vmmUnmapPages A mi h ctx va 1 = .ok (h', ctx') ∧
      h'.arena.live.length ≤ h.arena.live.length + 1 ∧ ctx'.allocations = ctx.allocations := by
  obtain ⟨h₁, ctx₁, hadd, hcall⟩ := @unmapPages_eq A mi h ctx l t va 1 hr (hA _ _ hlen) hva
  obtain ⟨hnodes, hroot⟩ := addFreeBlocks_nodes hadd
  have hsize := addFreeBlocks_size hadd
  obtain ⟨hc, hstop⟩ := descend_some hfound
  have hcva : (h₁.nodes c.1).alloc.virtualAddr = va := by
    have hcontents : (h.nodes c.1).alloc = c.2 := hr.tree.contents _ hc
    rw [hnodes, hcontents]
    exact startDir_stop.1 hstop
  have hlt : 1 < va := by
    simp only [pageSize] at hva
    omega
  obtain ⟨h', hshrink, hlive⟩ : ∃ h', shrinkAllocation h₁ ctx₁ 1 c.1 = .ok (h', ctx₁) ∧ h'.arena = h₁.arena := by
    unfold shrinkAllocation
    dsimp only
    rw [hcva, if_pos hlt]
    exact ⟨_, rfl, rfl⟩
  refine ⟨h', ctx₁, ?_, by rw [hlive]; exact hsize, hroot⟩
  rw [hcall, hfound]
  exact hshrink

theorem shrinkAllocation_blocks (hok : shrinkAllocation h ctx n q = .ok (h', ctx')) :
    h'.block = h.block ∧ ctx'.freeBlocks = ctx.freeBlocks := by
  unfold shrinkAllocation at hok
  dsimp only at hok
  split_ifs at hok
  · cases hok
    exact ⟨rfl, rfl⟩
  · unfold removeAllocation promoteLeft at hok
    dsimp only at hok
    obtain ⟨node, _, hok⟩ := bind_ok.1 hok
    split_ifs at hok
    · cases hok
      exact ⟨rfl, rfl⟩
    · cases hok
      exact ⟨rfl, rfl⟩
    · cases hok
      exact ⟨rfl, rfl⟩

/-- a page that is not free is in no block -/
theorem apart_of_used (hf : FreeOk l) (hva : va % pageSize = 0) (hused : ¬ Free l (va / pageSize)) :
    ∀ c ∈ l, c.2.virtualAddr + c.2.pageCount * pageSize ≤ va ∨ va + 1 * pageSize ≤ c.2.virtualAddr := by
  intro c hc
  by_contra hin
  refine hused ?_
  have hcal := (hf.area c hc).aligned
  have hhit : Tiling.hit (span c.2) (va / pageSize) = 1 := by
    refine Tiling.hit_of_mem ?_ ?_
    · simp only [span, pageSize] at hin hcal hva ⊢
      omega
    · simp only [span, pageSize] at hin hcal hva ⊢
      omega
  have hle : Tiling.hit (span c.2) (va / pageSize) ≤ freeCover l (va / pageSize) :=
    Tiling.hit_le_cover (List.mem_map_of_mem hc)
  unfold Free
  omega

/-- a block that gets one page more offers what it did -/
theorem Offers.grow {c : ℕ × Area} (h : Offers (c :: l) x) (hc : c.2.pageCount + 1 < 2 ^ 32) :
    Offers ((c.1, ⟨c.2.virtualAddr, c.2.pageCount + 1⟩) :: l) x := by
  obtain ⟨⟨d, hd, hin⟩, hcounts⟩ := h
  refine ⟨?_, fun e he => ?_⟩
  · rcases List.mem_cons.1 hd with rfl | hd
    · refine ⟨_, List.mem_cons_self, inRange_iff_bounds.2 ?_⟩
      obtain ⟨hge, hlt⟩ := inRange_iff_bounds.1 hin
      refine ⟨hge, lt_of_lt_of_le hlt ?_⟩
      dsimp only
      rw [Nat.add_mul]
      omega
    · exact ⟨d, List.mem_cons_of_mem _ hd, hin⟩
  · rcases List.mem_cons.1 he with rfl | he
    · exact hc
    · exact hcounts e (List.mem_cons_of_mem _ he)

/-- **What was free is still offered.** -/
theorem unmap_keeps (hr : Rep h ctx l t) (hf : FreeOk l) (ha : AreaOk ⟨va, 1⟩) (hused : ¬ Free l (va / pageSize))
    (hok : vmmUnmapPages A mi h ctx va 1 = .ok (h', ctx')) (hr' : Rep h' ctx' l' t') (hx : x % pageSize = 0)
    (hfree : Free l (x / pageSize)) : Offers l' x := by
  have hfl : FreeList h ctx l := Rep.freeList hr
  have hapart := apart_of_used hf ha.aligned hused
  unfold vmmUnmapPages at hok
  split_ifs at hok
  obtain ⟨⟨h₁, ctx₁⟩, hadd, hok⟩ := bind_ok.1 hok
  obtain ⟨⟨q, pr⟩, _, hok⟩ := bind_ok.1 hok
  dsimp only at hok
  split_ifs at hok
  -- the list is that after `add_free_blocks`
  have hlist : Seg h₁.block ctx₁.freeBlocks l' 0 := by
    obtain ⟨hblock, hhead⟩ := shrinkAllocation_blocks hok
    rw [← hblock, ← hhead]
    exact hr'.list
  have hunique : ∀ {l₁}, FreeList h₁ ctx₁ l₁ → l₁ = l' := fun hl₁ =>
    hl₁.list.unique hlist hl₁.list.ne_zero hlist.ne_zero
  by_cases hmerge : MergeOk mi (before va l).getLast? (after va l).head? va 1
  · obtain ⟨l₁, hr₁, hf₁, hcover⟩ := addFreeBlocks_spec hr hf ha hapart hmerge hadd
    obtain rfl := hunique (Rep.freeList hr₁)
    refine offers_of_free hf₁ hx ?_
    unfold Free at hfree ⊢
    rw [hcover]
    omega
  · obtain ⟨h1, _⟩ := apart_before_after hf ha.nonempty hapart
    have hsplit := before_append_after va l
    rcases List.eq_nil_or_concat' (before va l) with hb | ⟨l₁, d, hb⟩
    · -- the first block starts after the page, and gets the page at its end
      rw [hb] at hmerge hsplit
      cases hafter : after va l with
      | nil =>
        rw [hafter] at hmerge
        exact absurd trivial hmerge
      | cons c l₂ =>
        rw [hafter] at hmerge hsplit
        rw [List.nil_append] at hsplit
        subst hsplit
        obtain ⟨h₂, ctx₂, hadd', hl₂⟩ := @addFreeBlocks_head A mi h ctx l₂ va 1 c hfl hf ha (not_not.1 hmerge)
        rw [hadd] at hadd'
        cases hadd'
        have hfits := (hf.area c List.mem_cons_self).fits
        have hcount : u32 (c.2.pageCount + 1) = c.2.pageCount + 1 := by
          refine u32_of_lt ?_
          simp only [pageSize] at hfits
          omega
        rw [hcount] at hl₂
        obtain rfl := hunique hl₂
        refine (offers_of_free hf hx hfree).grow ?_
        simp only [pageSize] at hfits
        omega
    · -- a block of one page right before the page is merged as it should be
      rw [hb, List.getLast?_concat] at hmerge
      refine absurd (fun _ _ hm => ?_) hmerge
      have hd : d ∈ before va l := hb ▸ List.mem_append_right _ List.mem_cons_self
      have hle := h1 d hd
      have hpos := (hf.area d (hsplit ▸ List.mem_append_left _ hd)).nonempty
      simp only [pageSize] at hm hle
      omega

end Returns

end Gubos.Vmm
