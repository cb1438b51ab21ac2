/-
Where `vmm_map_pages` places pages (`mm/vmm.c`).

Address 0 in a request means "any address". The search of `remove_free_blocks` should then take a block of the half that the
flags ask for. But it also takes a block that CONTAINS address 0, whatever the flags are, and where a block fits exactly it
returns the 0 of the request and not the address of the block. A request for a given address should be served whenever the pages are
free. But `merge_or_insert_free_blocks` rarely merges, so the pages may be in two blocks.

- `Split`, `step_split`: no block and no record crosses the start of the kernel half;
- `address_in_mode`: so in every run without the branches that go wrong, a request for any address gets one of its half
  exactly if the block found neither fits exactly nor starts at 0, or the request is a user's;
- `placed_iff`: and a request for a given free range is served exactly if one block has it, or a block with its first page
  happens to have as many pages as are asked for.
- `kernel_stack_at_zero`, `pages_in_two_blocks`: the first request of a new address space, and two pages unmapped one by one.
-/
import Gubos.Mm.Conservation
import Gubos.Mm.Totality

namespace Gubos.Vmm

open Gubos.Core Gubos.Paging

/-! ## The two halves -/

/-- a range of pages is in one half of the address space -/
def OneHalf (mi : KernelMeminfo) (va n : ℕ) : Prop := mi.higherHalfBase ≤ va ∨ va + n * pageSize ≤ mi.higherHalfBase

/-- no free block and no record crosses the start of the kernel half -/
structure Split (mi : KernelMeminfo) (l : List (ℕ × Area)) (t : BinaryTree (ℕ × VmmAllocation)) : Prop where
  blocks : ∀ c ∈ l, OneHalf mi c.2.virtualAddr c.2.pageCount
  records : ∀ c ∈ cells t, 0 < c.2.pageCount → OneHalf mi c.2.virtualAddr c.2.pageCount

section Split

variable {A : Allocator} {mi : KernelMeminfo} {s s' : Space} {h h' : Heap} {ctx ctx' : VmmContext}
  {l l₁ l₂ l' m : List (ℕ × Area)} {t t' : BinaryTree (ℕ × VmmAllocation)} {c : ℕ × Area} {e : ℕ × VmmAllocation}
  {es : List AddrSpaceEntry} {va pa n k flags r : ℕ}

/-- a part of a range is in the half of the range -/
theorem OneHalf.part (ho : OneHalf mi va n) (hle : va ≤ r) (hend : r + k * pageSize ≤ va + n * pageSize) : OneHalf mi r k := by
  rcases ho with ho | ho
  · exact .inl (ho.trans hle)
  · exact .inr (hend.trans ho)

theorem Split.cut (hs : Split mi (l₁ ++ c :: l₂) t) (hcut : Cut c.2 r n m) (hg : Grown t ⟨r, pa, n, flags⟩ t') :
    Split mi (l₁ ++ m ++ l₂) t' := by
  have hc := hs.blocks c (by simp)
  refine ⟨fun d hd => ?_, fun d hd hpos => ?_⟩
  · simp only [List.mem_append] at hd
    rcases hd with (hd | hd) | hd
    · exact hs.blocks d (by simp [hd])
    · exact hc.part (hcut.inside d hd).1 (hcut.inside d hd).2
    · exact hs.blocks d (by simp [hd])
  · rcases hg.mem d hd with he | hd
    · rw [he]
      exact hc.part hcut.lower hcut.upper
    · exact hs.records d hd hpos

/-- a user block that grows by a range that is in one half stays in the user half -/
theorem Split.refill (hs : Split mi l t) (ho : OneHalf mi va n) (hl : Refilled mi l ⟨va, n⟩ l') :
    ∀ d ∈ l', OneHalf mi d.2.virtualAddr d.2.pageCount := by
  intro d hd
  rcases hl d hd with hd | he | ⟨f, hf, hend, hmode, he⟩
  · exact hs.blocks d hd
  · rw [he]
    exact ho
  · have hlt : f.2.virtualAddr + f.2.pageCount * pageSize < mi.higherHalfBase := by
      simpa only [isAddrInUserRange, decide_eq_true_eq] using hmode
    rw [he]
    refine .inr ?_
    dsimp only at hend ⊢
    rw [Nat.add_mul, ← Nat.add_assoc, hend]
    exact ho.resolve_left (by omega)

theorem Split.release (hs : Split mi l t) (hi : Inv s l t) (hn : 1 ≤ n) (hrel : Released mi s' l t va n e l' t') :
    Split mi l' t' := by
  have he := (descend_some hrel.found).1
  have hle := hrel.enough
  have hhalf := hs.records e he (hn.trans hle)
  have hfit := (hi.records e he).fits (hn.trans hle)
  have hrange : OneHalf mi va n := by
    rw [hrel.start] at hhalf
    exact hhalf.part le_rfl (Nat.add_le_add_left (Nat.mul_le_mul_right _ hle) _)
  refine ⟨hs.refill hrange hrel.blocks, fun d hd hpos => ?_⟩
  rcases hrel.tree with ⟨_, rfl⟩ | ⟨_, _, rfl⟩
  · rw [cells_map] at hd
    obtain ⟨f, hf, rfl⟩ := List.mem_map.1 hd
    unfold setCell at hpos ⊢
    split_ifs at hpos ⊢ with hq
    · -- what is left of the record
      refine hhalf.part ?_ ?_
      · unfold shrunk u32 at hpos ⊢
        simp only [pageSize] at hfit hpos ⊢
        omega
      · unfold shrunk u32 at hpos ⊢
        simp only [pageSize] at hfit hpos ⊢
        omega
    · exact hs.records f hf hpos
  · exact hs.records d ((cells_removeCell hi.rep.nodup_tree he).mem_iff.1 (List.mem_cons_of_mem _ hd)) hpos

/-- one call keeps the halves apart -/
theorem step_split {o : Call} (hi : ∃ l t, Inv s l t ∧ Split mi l t) (hcall : CallOk s o) (hsound : Sound mi s o)
    (hok : step A mi s o = .ok s') : ∃ l t, Inv s' l t ∧ Split mi l t := by
  obtain ⟨l, t, hi, hs⟩ := hi
  cases o with
  | map va pa n flags =>
    obtain ⟨⟨h', ctx', r⟩, hmap, hok⟩ := bind_ok.1 hok
    cases hok
    obtain ⟨l₁, c, l₂, m, t', rfl, hcut, _, hg, hi'⟩ := map_inv hi hcall.2 (hsound l t hi.shape) hmap
    exact ⟨_, t', hi', hs.cut hcut hg⟩
  | unmap va n =>
    obtain ⟨hmerge, hnode⟩ := hsound l t hi.shape
    obtain ⟨e, l', t', hrel⟩ := unmap_inv hi hcall.1 hmerge hnode hok
    exact ⟨l', t', hrel.inv, hs.release hi hcall.1 hrel⟩

theorem newContext_split {h₀ : Heap} (h0 : 0 < mi.higherHalfBase) (hal : mi.higherHalfBase % pageSize = 0)
    (hes : AddrSpaceOk mi es) (hok : vmmNewContext A mi es h₀ = .ok (h, ctx)) :
    ∃ l t, Inv ⟨h, ctx⟩ l t ∧ Split mi l t := by
  refine newContext_ind (P := fun s l _ => ∃ t, Inv s l t ∧ Split mi l t) (fun s l _ ⟨t, hi, _⟩ => hi.free)
    (fun s l r hr hb => ?_) ?_ h0 hal hes hok
  · have hnone : AddrSpaceOk mi [] := ⟨by simp, by simp, by simp, List.Pairwise.nil⟩
    refine ⟨_, inv_blank hr hb, (hb.fill [] hnone).split, fun c hc hpos => ?_⟩
    rw [List.mem_singleton.1 hc] at hpos
    exact absurd hpos (lt_irrefl 0)
  · rintro h ctx h' ctx' r l e done ⟨t, hi, hs⟩ _ hva hva0 hfit hmap
    obtain ⟨l₁, c, l₂, m, t', rfl, hcut, haddr, hg, hi'⟩ := map_inv hi hva hfit hmap
    have hs' := hs.cut hcut hg
    rw [haddr hva0] at hcut
    exact ⟨l₁, c, l₂, m, rfl, hcut, t', hi', hs'⟩

/-- the invariants of every run without the branches that go wrong -/
theorem run_split {h₀ : Heap} {ops : List Call} (h0 : 0 < mi.higherHalfBase) (hal : mi.higherHalfBase % pageSize = 0)
    (hes : AddrSpaceOk mi es) (hnew : vmmNewContext A mi es h₀ = .ok (h, ctx))
    (hrun : Runs (step A mi) (fun s o => CallOk s o ∧ Sound mi s o) ⟨h, ctx⟩ ops s) : ∃ l t, Inv s l t ∧ Split mi l t :=
  hrun.inv (P := fun s => ∃ l t, Inv s l t ∧ Split mi l t) (fun _ _ _ hi hC hok => step_split hi hC.1 hC.2 hok)
    (newContext_split h0 hal hes hnew)

end Split

/-! ## Any address -/

/-- the range is where the flags ask for: below the kernel half for a user, at or after the kernel image for the kernel -/
def InMode (mi : KernelMeminfo) (flags r n : ℕ) : Prop :=
  if flags &&& pageFlagUser ≠ 0 then r + n * pageSize ≤ mi.higherHalfBase
  else mi.virtualStart ≤ r ∧ r + n * pageSize ≤ 2 ^ 32

/-- the block that a request of the kernel for any address finds neither starts at 0 nor fits exactly -/
def FoundOk (mi : KernelMeminfo) (s : Space) (n flags : ℕ) : Prop :=
  flags &&& pageFlagUser = 0 → 0 < mi.virtualStart → ∀ l, Seg s.heap.block s.ctx.freeBlocks l 0 →
    ∀ c ∈ l.find? (fun c => suits mi 0 n false c.2), c.2.virtualAddr ≠ 0 ∧ c.2.pageCount ≠ n

section Anywhere

variable {A : Allocator} {mi : KernelMeminfo} {s : Space} {h h' : Heap} {ctx ctx' : VmmContext} {l : List (ℕ × Area)}
  {t : BinaryTree (ℕ × VmmAllocation)} {es : List AddrSpaceEntry} {va pa n flags r : ℕ} {user : Bool}

/-- the address returned for any address: where the block starts, but 0 if it fits exactly -/
theorem map_anywhere (hr : Rep h ctx l t) (hok : vmmMapPages A mi h ctx 0 pa n flags = .ok (h', ctx', r)) :
    ∃ c, l.find? (fun c => suits mi 0 n (flags &&& pageFlagUser ≠ 0) c.2) = some c ∧
      r = if c.2.pageCount = n then 0 else c.2.virtualAddr := by
  unfold vmmMapPages at hok
  dsimp only at hok
  split_ifs at hok
  obtain ⟨⟨h₁, ctx₁, r₁⟩, hrem, hok⟩ := bind_ok.1 hok
  obtain ⟨h₂, hadd, hok⟩ := bind_ok.1 hok
  cases hok
  obtain ⟨c, hfind⟩ : ∃ c, l.find? (fun c => suits mi 0 n (flags &&& pageFlagUser ≠ 0) c.2) = some c := by
    cases hfind : l.find? (fun c => suits mi 0 n (flags &&& pageFlagUser ≠ 0) c.2) with
    | none =>
      obtain ⟨m, hpanic⟩ := @removeFreeBlocks_none A mi h ctx l t 0 n (flags &&& pageFlagUser ≠ 0) hr hfind
      rw [hpanic] at hrem
      cases hrem
    | some c => exact ⟨c, rfl⟩
  obtain ⟨prev, htake, hblock⟩ := @removeFreeBlocks_some A mi h ctx l t 0 n (flags &&& pageFlagUser ≠ 0) c hr hfind
  rw [hrem] at htake
  replace htake := htake.symm
  refine ⟨c, hfind, ?_⟩
  have hle : n ≤ c.2.pageCount := by
    have hsuit := List.find?_some hfind
    simp only [suits, Bool.and_eq_true, decide_eq_true_eq] at hsuit
    exact hsuit.2
  unfold takeFreeBlocks at htake
  dsimp only at htake
  rw [hblock] at htake
  by_cases hfit : c.2.pageCount = n
  · rw [if_pos hfit] at htake ⊢
    cases htake
    rfl
  · rw [if_neg hfit, if_pos (lt_of_le_of_ne hle (Ne.symm hfit))] at htake
    rw [if_neg hfit]
    simp only [ne_eq, not_true_eq_false, if_false, true_or, if_true] at htake
    split_ifs at htake
    cases htake
    rfl

/-- a user request is placed in the user half -/
theorem userPlace (h0 : 0 < mi.higherHalfBase) (hs : Split mi l t) {c : ℕ × Area} (hc : c ∈ l)
    (hsuit : suits mi 0 n true c.2 = true) :
    (if c.2.pageCount = n then 0 else c.2.virtualAddr) + n * pageSize ≤ mi.higherHalfBase := by
  simp only [suits, isAddrOkForMode, isAddrInUserRange, isAddrInRange, decide_true, Bool.true_and, if_true,
    Bool.or_eq_true, Bool.and_eq_true, decide_eq_true_eq] at hsuit
  obtain ⟨hmode | ⟨hle, _⟩, hcount⟩ := hsuit
  · split_ifs
    · omega
    · exact hmode.le
  · -- the block contains address 0, so it is in the user half
    have hzero : c.2.virtualAddr = 0 := Nat.le_zero.1 hle
    have hmul : n * pageSize ≤ c.2.pageCount * pageSize := Nat.mul_le_mul_right _ hcount
    have hhalf := (hs.blocks c hc).resolve_left (by omega)
    rw [hzero] at hhalf ⊢
    rw [ite_self]
    omega

/-- a request of the kernel is placed after the start of the image, unless the block fits exactly or starts at 0 -/
theorem kernelPlace (hf : FreeOk l) {c : ℕ × Area} (hc : c ∈ l) (hsuit : suits mi 0 n false c.2 = true) :
    (mi.virtualStart ≤ (if c.2.pageCount = n then 0 else c.2.virtualAddr) ∧
      (if c.2.pageCount = n then 0 else c.2.virtualAddr) + n * pageSize ≤ 2 ^ 32) ↔
      (0 < mi.virtualStart → c.2.virtualAddr ≠ 0 ∧ c.2.pageCount ≠ n) := by
  have hfits := (hf.area c hc).fits
  simp only [suits, isAddrOkForMode, isAddrInRange, decide_true, Bool.true_and, Bool.false_eq_true, if_false,
    Bool.or_eq_true, Bool.and_eq_true, decide_eq_true_eq] at hsuit
  obtain ⟨hmode, hcount⟩ := hsuit
  have hmul : n * pageSize ≤ c.2.pageCount * pageSize := Nat.mul_le_mul_right _ hcount
  split_ifs with hfit
  · simp only [hfit, ne_eq, not_true_eq_false, and_false, imp_false]
    omega
  · simp only [hfit, ne_eq, not_false_eq_true, and_true]
    omega

/-- **Any address.** In every run without the branches that go wrong, a request for any address that returns gets a range of
the half it asks for exactly if it is a user's or the block found neither starts at 0 nor fits exactly. -/
theorem address_in_mode {h₀ : Heap} {ops : List Call} (h0 : 0 < mi.higherHalfBase) (hal : mi.higherHalfBase % pageSize = 0)
    (hes : AddrSpaceOk mi es) (hnew : vmmNewContext A mi es h₀ = .ok (h, ctx))
    (hrun : Runs (step A mi) (fun s o => CallOk s o ∧ Sound mi s o) ⟨h, ctx⟩ ops s)
    (hok : vmmMapPages A mi s.heap s.ctx 0 pa n flags = .ok (h', ctx', r)) :
    InMode mi flags r n ↔ FoundOk mi s n flags := by
  obtain ⟨l, t, hi, hs⟩ := run_split h0 hal hes hnew hrun
  obtain ⟨c, hfind, rfl⟩ := map_anywhere hi.rep hok
  have hc := List.mem_of_find?_eq_some hfind
  have hsuit := List.find?_some hfind
  unfold InMode FoundOk
  by_cases huser : flags &&& pageFlagUser = 0
  · rw [if_neg (not_not.2 huser)]
    simp only [huser, ne_eq, not_true_eq_false, decide_false] at hfind hsuit
    rw [kernelPlace hi.free hc hsuit]
    refine ⟨fun hk _ hv l' hl' d hd => ?_, fun hk hv => hk huser hv l hi.rep.list c hfind⟩
    obtain rfl := hl'.unique hi.rep.list hl'.ne_zero hi.rep.list.ne_zero
    rw [Option.mem_def, hfind] at hd
    cases hd
    exact hk hv
  · rw [if_pos huser]
    simp only [huser, ne_eq, not_false_eq_true, decide_true] at hsuit
    exact ⟨fun _ hk => absurd hk huser, fun _ => userPlace h0 hs hc hsuit⟩

end Anywhere

/-! ## A given address -/

/-- the call ends in a panic -/
def Panics {α : Type} (x : Except Fault α) : Prop := ∃ m, x = .error (.panic m)

/-- no allocation has one of the pages -/
def Unallocated (s : Space) (va n : ℕ) : Prop := ∀ l t, Shape s l t → ∀ p, InRange va n p → allocCover t p = 0

/-- the free block with the first page has all of them, or just as many pages as are asked for -/
def InOneBlock (s : Space) (va n : ℕ) : Prop :=
  ∀ l, Seg s.heap.block s.ctx.freeBlocks l 0 → ∀ c ∈ l, isAddrInRange va c.2 = true →
    c.2.pageCount = n ∨ va + n * pageSize ≤ c.2.virtualAddr + c.2.pageCount * pageSize

section Given

variable {A : Allocator} {mi : KernelMeminfo} {s s' : Space} {h h' : Heap} {ctx ctx' : VmmContext} {l : List (ℕ × Area)}
  {t : BinaryTree (ℕ × VmmAllocation)} {es : List AddrSpaceEntry} {va pa n flags r q N : ℕ}

theorem map_root (hok : vmmMapPages A mi h ctx va pa n flags = .ok (h', ctx', r)) : ctx'.allocations ≠ 0 := by
  unfold vmmMapPages at hok
  dsimp only at hok
  split_ifs at hok
  obtain ⟨⟨h₁, ctx₁, r₁⟩, _, hok⟩ := bind_ok.1 hok
  obtain ⟨h₂, hadd, hok⟩ := bind_ok.1 hok
  cases hok
  intro h0
  unfold addAllocation at hadd
  rw [if_pos h0] at hadd
  cases hadd

/-- a root that is removed leaves its left child, which the loop reads -/
theorem shrinkAllocation_root (hroot : ctx.allocations ≠ 0) (hok : shrinkAllocation h ctx n q = .ok (h', ctx')) :
    ctx'.allocations ≠ 0 := by
  unfold shrinkAllocation at hok
  dsimp only at hok
  split_ifs at hok
  · cases hok
    exact hroot
  · by_cases hparent : (h.nodes q).parent = 0
    · unfold removeAllocation at hok
      rw [promoteLeft_root hparent] at hok
      obtain ⟨m, hm, hok⟩ := bind_ok.1 hok
      cases hok
      intro h0
      have hleft : (h.nodes q).left = 0 := h0
      rw [hleft] at hm
      cases hm
    · obtain ⟨nd, hprom, _⟩ := promoteLeft_child ctx rfl hparent
      unfold removeAllocation at hok
      rw [hprom] at hok
      obtain ⟨m, hm, hok⟩ := bind_ok.1 hok
      cases hok
      exact hroot

theorem step_root {o : Call} (hroot : s.ctx.allocations ≠ 0) (hok : step A mi s o = .ok s') : s'.ctx.allocations ≠ 0 := by
  cases o with
  | map va pa n flags =>
    obtain ⟨⟨h', ctx', r⟩, hmap, hok⟩ := bind_ok.1 hok
    cases hok
    exact map_root hmap
  | unmap va n =>
    obtain ⟨⟨h', ctx'⟩, hunmap, hok⟩ := bind_ok.1 hok
    cases hok
    unfold vmmUnmapPages at hunmap
    split_ifs at hunmap
    obtain ⟨⟨h₁, ctx₁⟩, hadd, hunmap⟩ := bind_ok.1 hunmap
    obtain ⟨⟨q, pr⟩, _, hunmap⟩ := bind_ok.1 hunmap
    dsimp only at hunmap
    split_ifs at hunmap
    refine shrinkAllocation_root ?_ hunmap
    rw [(addFreeBlocks_nodes hadd).2]
    exact hroot

theorem mapAddrSpace_root (hroot : ctx.allocations ≠ 0) (hok : mapAddrSpace A mi es h ctx = .ok (h', ctx')) :
    ctx'.allocations ≠ 0 := by
  induction es generalizing h ctx with
  | nil =>
    cases hok
    exact hroot
  | cons e es ih =>
    obtain ⟨⟨h₁, ctx₁, r⟩, hmap, hok⟩ := bind_ok.1 hok
    exact ih (map_root hmap) hok

/-- the allocation tree is never empty -/
theorem run_root {h₀ : Heap} {ops : List Call} {C : Space → Call → Prop} (hnew : vmmNewContext A mi es h₀ = .ok (h, ctx))
    (hrun : Runs (step A mi) C ⟨h, ctx⟩ ops s) : s.ctx.allocations ≠ 0 := by
  refine hrun.inv (P := fun s => s.ctx.allocations ≠ 0) (fun _ _ _ hroot _ hok => step_root hroot hok) ?_
  obtain ⟨⟨h₁, ctx₁⟩, hempty, hok⟩ := bind_ok.1 hnew
  obtain ⟨⟨h₄, p⟩, hnode, hempty⟩ := bind_ok.1 hempty
  cases hempty
  obtain ⟨⟨h₂, ctx₂⟩, huser, hok⟩ := bind_ok.1 hok
  obtain ⟨⟨h₃, ctx₃⟩, hkernel, hok⟩ := bind_ok.1 hok
  refine mapAddrSpace_root ?_ hok
  rw [(addFreeBlocks_nodes hkernel).2, (addFreeBlocks_nodes huser).2]
  exact (newNode_ok hnode).1

/-- a free block that has some of the pages and not enough of them leads to a panic -/
theorem takeFreeBlocks_panics {prev : ℕ} (h0 : va ≠ 0) (hva : va % pageSize = 0) (ha : AreaOk (h.blocks q).toArea)
    (hin : isAddrInRange va (h.blocks q).toArea = true) (hle : n ≤ (h.blocks q).pageCount) (hfit : (h.blocks q).pageCount ≠ n)
    (hroom : (h.blocks q).virtualAddr + (h.blocks q).pageCount * pageSize < va + n * pageSize) :
    takeFreeBlocks A h ctx va n q prev = .error (.panic .outOfMemory) := by
  obtain ⟨h1, h2⟩ := inRange_iff_bounds.1 hin
  have hal := ha.aligned
  have hfits := ha.fits
  unfold takeFreeBlocks
  dsimp only
  rw [if_neg hfit, if_pos (lt_of_le_of_ne hle (Ne.symm hfit)), if_pos h0, if_pos]
  unfold u32
  simp only [pageSize] at hal hva hfits hroom h2 ⊢
  omega

/-- only one block contains an address -/
theorem FreeOk.block_unique {c d : ℕ × Area} (hf : FreeOk l) (hc : c ∈ l) (hd : d ∈ l) (hcin : isAddrInRange va c.2 = true)
    (hdin : isAddrInRange va d.2 = true) : c = d := by
  by_contra hne
  have hsymm : Std.Symm fun c d : ℕ × Area => c.2.virtualAddr + c.2.pageCount * pageSize ≤ d.2.virtualAddr ∨
      d.2.virtualAddr + d.2.pageCount * pageSize ≤ c.2.virtualAddr := ⟨fun _ _ h => h.symm⟩
  have hpairs : l.Pairwise fun c d => c.2.virtualAddr + c.2.pageCount * pageSize ≤ d.2.virtualAddr ∨
      d.2.virtualAddr + d.2.pageCount * pageSize ≤ c.2.virtualAddr := hf.sorted.imp fun h => Or.inl h
  have hapart := hpairs.forall hc hd hne
  rw [inRange_iff_bounds] at hcin hdin
  omega

/-- `remove_free_blocks` panics if the block with the first page does not serve the request -/
theorem removeFreeBlocks_panics {c : ℕ × Area} {user : Bool} (hr : Rep h ctx l t) (hf : FreeOk l) (h0 : va ≠ 0)
    (hva : va % pageSize = 0) (hc : c ∈ l) (hin : isAddrInRange va c.2 = true) (hfit : c.2.pageCount ≠ n)
    (hroom : c.2.virtualAddr + c.2.pageCount * pageSize < va + n * pageSize) :
    Panics (removeFreeBlocks A mi h ctx va n user) := by
  cases hfind : l.find? (fun c => suits mi va n user c.2) with
  | none => exact removeFreeBlocks_none hr hfind
  | some d =>
    have hsuit := List.find?_some hfind
    rw [suits_iff h0] at hsuit
    obtain rfl := hf.block_unique hc (List.mem_of_find?_eq_some hfind) hin hsuit.1
    obtain ⟨prev, htake, hblock⟩ := @removeFreeBlocks_some A mi h ctx l t va n user c hr hfind
    have ha := hf.area c hc
    rw [htake]
    rw [← hblock] at ha hin hfit hroom hsuit
    exact ⟨_, takeFreeBlocks_panics h0 hva ha hin hsuit.2 hfit hroom⟩

theorem map_panics (hrem : Panics (removeFreeBlocks A mi h ctx va n (flags &&& pageFlagUser ≠ 0))) :
    Panics (vmmMapPages A mi h ctx va pa n flags) := by
  obtain ⟨m, hrem⟩ := hrem
  unfold vmmMapPages
  dsimp only
  rw [hrem]
  split_ifs
  · exact ⟨_, rfl⟩
  · exact ⟨_, rfl⟩
  · exact ⟨_, rfl⟩
  · exact ⟨_, rfl⟩

theorem ok_not_panics {α : Type} {a : α} : ¬ Panics (.ok a : Except Fault α) := by
  rintro ⟨m, hp⟩
  cases hp

theorem panics_bind {α β : Type} {x : Except Fault α} {f : α → Except Fault β} (hp : Panics (x >>= f)) :
    Panics x ∨ ∃ a, x = .ok a ∧ Panics (f a) := by
  cases x with
  | error e =>
    obtain ⟨m, hp⟩ := hp
    cases hp
    exact .inl ⟨m, rfl⟩
  | ok a => exact .inr ⟨a, rfl, hp⟩

/-- a `kmalloc` that fails ends in a NULL dereference -/
theorem newBlock_not_panics {b : VmmFreeBlocks} : ¬ Panics (h.newBlock A b) := by
  rintro ⟨m, hp⟩
  unfold Heap.newBlock at hp
  dsimp only at hp
  split_ifs at hp
  cases hp

theorem newNode_not_panics {nd : VmmAllocationTree} : ¬ Panics (h.newNode A nd) := by
  rintro ⟨m, hp⟩
  unfold Heap.newNode at hp
  dsimp only at hp
  split_ifs at hp
  cases hp

/-- a block that serves the request does not lead to a panic, whatever the heap answers -/
theorem takeFreeBlocks_not_panics {prev : ℕ} (h0 : va ≠ 0) (hva : va < 2 ^ 32) (hserves : Serves (h.blocks q).toArea va n)
    (hcount : (h.blocks q).pageCount < 2 ^ 32) : ¬ Panics (takeFreeBlocks A h ctx va n q prev) := by
  obtain ⟨hin, hroom⟩ := hserves
  obtain ⟨h1, h2⟩ := inRange_iff_bounds.1 hin
  intro hp
  unfold takeFreeBlocks at hp
  dsimp only at hp
  by_cases hfit : (h.blocks q).pageCount = n
  · rw [if_pos hfit] at hp
    exact ok_not_panics hp
  rw [if_neg hfit] at hp
  replace hroom := hroom.resolve_left hfit
  simp only [pageSize] at h2 hroom
  rw [if_pos (show n < (h.blocks q).pageCount by omega), if_pos h0, if_neg (memory_left h1 h2 hva hcount hroom)] at hp
  split_ifs at hp
  · exact ok_not_panics hp
  · rcases panics_bind hp with hnew | ⟨_, _, hp⟩
    · exact newBlock_not_panics hnew
    · exact ok_not_panics hp
  · exact ok_not_panics hp

theorem addAllocation_not_panics {a : VmmAllocation} (hr : Rep h ctx l t) (ht : t ≠ .nil) :
    ¬ Panics (addAllocation A h ctx a) := by
  intro hp
  rcases @addAllocation_eq A h ctx l t a hr ht with heq | ⟨pr, heq⟩
  · rw [heq] at hp
    exact ok_not_panics hp
  · rw [heq] at hp
    rcases panics_bind hp with hnew | ⟨_, _, hp⟩
    · exact newNode_not_panics hnew
    · exact ok_not_panics hp

/-- a request that the block with the first page serves does not panic, whatever the heap answers -/
theorem mapPages_not_panics (hr : Rep h ctx l t) (ht : t ≠ .nil)
    (hsuits : ∃ c ∈ l, suits mi va n (flags &&& pageFlagUser ≠ 0) c.2 = true)
    (hserves : ∀ c ∈ l, suits mi va n (flags &&& pageFlagUser ≠ 0) c.2 = true → Serves c.2 va n ∧ c.2.pageCount < 2 ^ 32)
    (h0 : va ≠ 0) (hlt : va < 2 ^ 32) (hva : va % pageSize = 0) (hpa : pa % pageSize = 0) :
    ¬ Panics (vmmMapPages A mi h ctx va pa n flags) := by
  intro hp
  obtain ⟨d, hd, hsuit⟩ := hsuits
  cases hfind : l.find? (fun c => suits mi va n (flags &&& pageFlagUser ≠ 0) c.2) with
  | none => exact List.find?_eq_none.1 hfind d hd hsuit
  | some c =>
    obtain ⟨prev, htake, hblock⟩ := @removeFreeBlocks_some A mi h ctx l t va n _ c hr hfind
    have hsuits := List.find?_some hfind
    obtain ⟨hserve, hcount⟩ := hserves c (List.mem_of_find?_eq_some hfind) hsuits
    rw [← hblock] at hserve hcount
    have hhead : ctx.freeBlocks ≠ 0 := by
      intro hnil
      have hl := hr.list
      rw [hnil] at hl
      cases l with
      | nil => cases hd
      | cons c l => exact hl.2.1 hl.1.symm
    unfold vmmMapPages at hp
    dsimp only at hp
    rw [if_neg (not_not.2 ((pagingIsAligned_iff va).2 hva)), if_neg (not_not.2 ((pagingIsAligned_iff pa).2 hpa)),
      if_neg hhead] at hp
    rcases panics_bind hp with hrem | ⟨⟨h₁, ctx₁, r⟩, hrem, hp⟩
    · rw [htake] at hrem
      exact takeFreeBlocks_not_panics h0 hlt hserve hcount hrem
    · obtain ⟨l', hr₁⟩ := (removeFreeBlocks_frame hr hrem).2.imp fun _ h => h.1
      rcases panics_bind hp with hadd | ⟨_, _, hp⟩
      · exact addAllocation_not_panics hr₁ ht hadd
      · exact ok_not_panics hp

/-- **A given address.** In every run without the branches that go wrong, a request for pages at a given address that no
allocation has panics unless the free block with the first page has them all or just as many pages as are asked for; and if
it has, the request is served as long as the heap answers. -/
theorem placed_iff {h₀ : Heap} {ops : List Call} (h0 : 0 < mi.higherHalfBase) (hal : mi.higherHalfBase % pageSize = 0)
    (hes : AddrSpaceOk mi es) (hnew : vmmNewContext A mi es h₀ = .ok (h, ctx))
    (hrun : Runs (step A mi) (fun s o => CallOk s o ∧ Sound mi s o) ⟨h, ctx⟩ ops s) (hva0 : va ≠ 0)
    (hva : va % pageSize = 0) (hn : 1 ≤ n) (hfit : va + n * pageSize ≤ 2 ^ 32) (hfree : Unallocated s va n) :
    (¬ Panics (vmmMapPages A mi s.heap s.ctx va pa n flags) ↔ pa % pageSize = 0 ∧ InOneBlock s va n) ∧
      (pa % pageSize = 0 ∧ InOneBlock s va n → ∀ N, A.Answers N → s.heap.arena.live.length + 2 ≤ N →
        ∃ h' ctx', vmmMapPages A mi s.heap s.ctx va pa n flags = .ok (h', ctx', va)) := by
  obtain ⟨l, t, hi, _⟩ := run_split h0 hal hes hnew hrun
  have hpage : va / pageSize * pageSize = va := Nat.div_mul_cancel (Nat.dvd_of_mod_eq_zero hva)
  have hlt : va < 2 ^ 32 := by
    simp only [pageSize] at hfit
    omega
  -- the block with the first page
  obtain ⟨c, hc, hbounds⟩ : ∃ c ∈ l, c.2.virtualAddr ≤ va / pageSize * pageSize ∧
      va / pageSize * pageSize < c.2.virtualAddr + c.2.pageCount * pageSize := by
    refine exists_block hi.free ?_
    have hnone := hfree l t hi.shape (va / pageSize) ⟨le_rfl, by omega⟩
    have hone := hi.pages (va / pageSize)
    rw [hnone, Nat.add_zero, Tiling.hit_of_mem (Nat.zero_le _) (by simp only [pageSize] at hlt ⊢; omega)] at hone
    exact hone
  rw [hpage] at hbounds
  have hin : isAddrInRange va c.2 = true := inRange_iff_bounds.2 hbounds
  have hroot : t ≠ .nil := by
    rintro rfl
    exact run_root hnew hrun hi.rep.tree
  have hserves : InOneBlock s va n → ∀ d ∈ l, isAddrInRange va d.2 = true →
      n ≤ d.2.pageCount ∧ Serves d.2 va n ∧ d.2.pageCount < 2 ^ 32 := by
    intro hone d hd hdin
    have hroom := hone l hi.rep.list d hd hdin
    have harea := hi.free.area d hd
    have hdal := harea.aligned
    have hdfits := harea.fits
    have hdbounds := inRange_iff_bounds.1 hdin
    simp only [pageSize] at hroom hdal hdfits hdbounds hva
    refine ⟨by omega, ⟨hdin, hroom.imp id fun hroom => ?_⟩, by omega⟩
    simp only [pageSize]
    omega
  refine ⟨⟨?_, ?_⟩, ?_⟩
  · intro hnot
    by_contra hfails
    refine hnot ?_
    by_cases hpa : pa % pageSize = 0
    · have hbad : ¬ InOneBlock s va n := fun hone => hfails ⟨hpa, hone⟩
      unfold InOneBlock at hbad
      push Not at hbad
      obtain ⟨l', hl', d, hd, hdin, hcount, hroom⟩ := hbad
      obtain rfl := hl'.unique hi.rep.list hl'.ne_zero hi.rep.list.ne_zero
      exact map_panics (removeFreeBlocks_panics hi.rep hi.free hva0 hva hd hdin hcount hroom)
    · unfold vmmMapPages
      dsimp only
      rw [if_neg (not_not.2 ((pagingIsAligned_iff va).2 hva)), if_pos (mt (pagingIsAligned_iff pa).1 hpa)]
      exact ⟨_, rfl⟩
  · rintro ⟨hpa, hone⟩
    exact mapPages_not_panics hi.rep hroot ⟨c, hc, (suits_iff hva0).2 ⟨hin, (hserves hone c hc hin).1⟩⟩
      (fun d hd hsuit => (hserves hone d hd ((suits_iff hva0).1 hsuit).1).2) hva0 hlt hva hpa
  · rintro ⟨hpa, hone⟩ N hA hlen
    obtain ⟨h', ctx', hok, _⟩ := @mapPages_returns A mi s.heap s.ctx l t va pa flags n N hi.rep hroot
      ⟨c, hc, (suits_iff hva0).2 ⟨hin, (hserves hone c hc hin).1⟩⟩
      (fun d hd hsuit => (hserves hone d hd ((suits_iff hva0).1 hsuit).1).2) hA hlen hva0 hlt hva hpa
    exact ⟨h', ctx', hok⟩

end Given

/-! ### Concrete runs -/

section Concrete

instance (mi : KernelMeminfo) (flags r n : ℕ) : Decidable (InMode mi flags r n) :=
  inferInstanceAs (Decidable (if flags &&& pageFlagUser ≠ 0 then r + n * pageSize ≤ mi.higherHalfBase
    else mi.virtualStart ≤ r ∧ r + n * pageSize ≤ 2 ^ 32))

/-- a user takes page 0 -/
def userFirst : List Call := [.map 0 0x800000 1 7]

def afterUser : Space := returned ⟨fresh.1, fresh.2⟩ (Runs.exec (step .top .atOneMegabyte) ⟨fresh.1, fresh.2⟩ userFirst)

/-- then ten pages for a kernel stack -/
def stackAfterUser : Heap × VmmContext × ℕ := returned (afterUser.heap, afterUser.ctx, 0)
  (vmmMapPages .top .atOneMegabyte afterUser.heap afterUser.ctx 0 0x900000 10 3)

theorem address_in_mode_after_user :
    stackAfterUser.2.2 = 0xC0200000 ∧ (InMode .atOneMegabyte 3 stackAfterUser.2.2 10 ↔ FoundOk .atOneMegabyte afterUser 10 3) := by
  refine ⟨by decide +kernel, ?_⟩
  have hrun : Runs (step .top .atOneMegabyte) (fun s o => CallOk s o ∧ Sound .atOneMegabyte s o) ⟨fresh.1, fresh.2⟩ userFirst
      afterUser := run_of_checked (.of_exec (by decide +kernel) rfl)
  have hmap : vmmMapPages .top .atOneMegabyte afterUser.heap afterUser.ctx 0 0x900000 10 3 = .ok stackAfterUser :=
    eq_returned (afterUser.heap, afterUser.ctx, 0) (by decide +kernel)
  have hok : vmmMapPages .top .atOneMegabyte afterUser.heap afterUser.ctx 0 0x900000 10 3 =
      .ok (stackAfterUser.1, stackAfterUser.2.1, stackAfterUser.2.2) := hmap
  exact address_in_mode (by decide) (by decide) entries_ok fresh_eq hrun hok

/-- ten pages for a kernel stack in a new address space -/
def firstStack : Heap × VmmContext × ℕ := returned (fresh.1, fresh.2, 1)
  (vmmMapPages .top .atOneMegabyte fresh.1 fresh.2 0 0x900000 10 3)

/-- the first kernel stack of a new address space is at address 0, in the user half -/
theorem kernel_stack_at_zero :
    AddrSpaceOk .atOneMegabyte entries ∧ vmmNewContext .top .atOneMegabyte entries emptyHeap = .ok fresh ∧
    vmmMapPages .top .atOneMegabyte fresh.1 fresh.2 0 0x900000 10 3 = .ok firstStack ∧
    ¬ InMode .atOneMegabyte 3 firstStack.2.2 10 :=
  ⟨entries_ok, fresh_eq, eq_returned (fresh.1, fresh.2, 1) (by decide +kernel), by decide +kernel⟩

/-- a new address space of a heap that answers with its lowest free block -/
def freshLow : Heap × VmmContext := returned (emptyHeap, ⟨0, 0⟩) (vmmNewContext .lowest .atOneMegabyte entries emptyHeap)

theorem freshLow_eq : vmmNewContext .lowest .atOneMegabyte entries emptyHeap = .ok freshLow :=
  eq_returned (emptyHeap, ⟨0, 0⟩) (by decide +kernel)

/-- two pages are mapped one by one, and unmapped one by one -/
def twoPages : List Call := [.map 0x400000 0x800000 1 7, .map 0x401000 0x900000 1 7, .unmap 0x401000 1, .unmap 0x400000 1]

def afterTwoPages : Space :=
  returned ⟨freshLow.1, freshLow.2⟩ (Runs.exec (step .lowest .atOneMegabyte) ⟨freshLow.1, freshLow.2⟩ twoPages)

theorem afterTwoPages_run : Runs (step .lowest .atOneMegabyte) (fun s o => CallOk s o ∧ Sound .atOneMegabyte s o)
    ⟨freshLow.1, freshLow.2⟩ twoPages afterTwoPages :=
  run_of_checked (.of_exec (by decide +kernel) (eq_returned ⟨freshLow.1, freshLow.2⟩ (by decide +kernel)))

theorem afterTwoPages_shape : Shape afterTwoPages (listOf afterTwoPages) (treeOf afterTwoPages) := by decide +kernel

theorem twoPages_unallocated : Unallocated afterTwoPages 0x400000 2 := by
  intro l t hs p hp
  obtain ⟨rfl, rfl⟩ := hs.unique afterTwoPages_shape
  have hboth : allocCover (treeOf afterTwoPages) 0x400 = 0 ∧ allocCover (treeOf afterTwoPages) 0x401 = 0 := by decide +kernel
  simp only [InRange, pageSize] at hp
  obtain rfl | rfl : p = 0x400 ∨ p = 0x401 := by omega
  · exact hboth.1
  · exact hboth.2

theorem placed_iff_second_page :
    Unallocated afterTwoPages 0x401000 1 ∧ InOneBlock afterTwoPages 0x401000 1 ∧
    ∃ h' ctx', vmmMapPages .lowest .atOneMegabyte afterTwoPages.heap afterTwoPages.ctx 0x401000 0x900000 1 7 =
      .ok (h', ctx', 0x401000) := by
  have hfree : Unallocated afterTwoPages 0x401000 1 := by
    intro l t hlt p hp
    refine twoPages_unallocated l t hlt p ?_
    simp only [InRange, pageSize] at hp ⊢
    omega
  have hone : InOneBlock afterTwoPages 0x401000 1 := by
    intro l hl c hc hin
    have hs := afterTwoPages_shape.list
    obtain rfl := hl.unique hs hl.ne_zero hs.ne_zero
    have hroom : ∀ c ∈ listOf afterTwoPages, isAddrInRange 0x401000 c.2 = true → c.2.pageCount = 1 := by decide +kernel
    exact .inl (hroom c hc hin)
  have hlen : afterTwoPages.heap.arena.live.length + 2 ≤ 2 ^ 32 - 1 := by decide +kernel
  exact ⟨hfree, hone, (placed_iff (by decide) (by decide) entries_ok freshLow_eq afterTwoPages_run (by decide) (by decide) le_rfl
    (by decide) hfree).2 ⟨by decide, hone⟩ _ Allocator.lowest_answers hlen⟩

/-- the pages are free again, but in two blocks of one page -/
theorem pages_in_two_blocks :
    AddrSpaceOk .atOneMegabyte entries ∧ vmmNewContext .lowest .atOneMegabyte entries emptyHeap = .ok freshLow ∧
    Runs (step .lowest .atOneMegabyte) CallOk ⟨freshLow.1, freshLow.2⟩ twoPages afterTwoPages ∧
    Unallocated afterTwoPages 0x400000 2 ∧
    Panics (vmmMapPages .lowest .atOneMegabyte afterTwoPages.heap afterTwoPages.ctx 0x400000 0x800000 2 7) := by
  refine ⟨entries_ok, freshLow_eq, afterTwoPages_run.mono fun _ _ hC => hC.1, twoPages_unallocated, ?_⟩
  refine map_panics (removeFreeBlocks_none (l := listOf afterTwoPages) (t := treeOf afterTwoPages) ?_ (by decide +kernel))
  exact ⟨afterTwoPages_shape.list, afterTwoPages_shape.tree, by decide +kernel, by decide +kernel⟩

end Concrete

end Gubos.Vmm
