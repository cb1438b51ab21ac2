/-
Page conservation of an address space.

An address space is used by `vmm_map_pages` and `vmm_unmap_pages`. Each of the 2^20 pages should be in exactly one free block
or in exactly one allocation. That is so in every run in which
- a block that fits a request exactly starts at the requested address (`remove_free_blocks` returns the requested address,
  not the block's, and so loses the pages of the block and gives away others);
- a range that is returned does not end where the head of the free list starts (`add_free_blocks` then makes the head longer
  instead of moving it), and where it may be merged with the block before it, that block ends where the range starts
  (`merge_or_insert_free_blocks` compares with the page count of the range, not of the block);
- the node found for the address to unmap has enough pages (it may be an empty one that an earlier unmap moved there), and
  where `page_count` is the address itself, exactly as many, and a parent link that is right.
Premises: the kernel half starts at a page, not at 0; the entries of `ADDR_SPACE` are page-aligned, disjoint and in the kernel
half (`AddrSpaceOk`; they may be empty, as that of `.data` is in an image without such data).

- `map_inv`, `unmap_inv`, `step_inv`: one call keeps the invariant;
- `newContext_inv`: `vmm_new_context` establishes it;
- `pages_conserved`: so every such run keeps every page.
- `adjacent_page_twice`: two adjacent allocations of one page each, unmapped one after the other.
-/
import Gubos.Mm.Calls

namespace Gubos.Vmm

open Gubos.Core Gubos.Paging

/-! ## The condition -/

/-- what callers do: map one page or more, anywhere or at a page; unmap an allocation or its first pages -/
def CallOk (s : Space) : Call → Prop
  | .map virtualAddr _ pageCount _ => 1 ≤ pageCount ∧ virtualAddr % pageSize = 0
  | .unmap virtualAddr pageCount => 1 ≤ pageCount ∧ ∃ t, TreeAt s.heap.node s.ctx.allocations t ∧
      ∃ c ∈ cells t, c.2.virtualAddr = virtualAddr ∧ pageCount ≤ c.2.pageCount

/-- the node that `vmm_unmap_pages` finds has the pages to unmap, and can be removed where it is -/
def NodeOk (s : Space) (t : BinaryTree (ℕ × VmmAllocation)) (virtualAddr pageCount : ℕ) : Prop :=
  ∀ c ∈ descend (startDir virtualAddr) t,
    (pageCount < virtualAddr → pageCount ≤ c.2.pageCount) ∧
    (pageCount = virtualAddr → c.2.pageCount = pageCount ∧ ParentOk s.heap s.ctx t c.1)

/-- the call takes none of the branches that go wrong, given the list and the tree -/
def SoundAt (mi : KernelMeminfo) (s : Space) (l : List (ℕ × Area)) (t : BinaryTree (ℕ × VmmAllocation)) : Call → Prop
  | .map virtualAddr _ pageCount flags => FitOk mi l virtualAddr pageCount flags
  | .unmap virtualAddr pageCount =>
      MergeOk mi (before virtualAddr l).getLast? (after virtualAddr l).head? virtualAddr pageCount ∧
      NodeOk s t virtualAddr pageCount

/-- the call takes none of the branches that go wrong -/
def Sound (mi : KernelMeminfo) (s : Space) (o : Call) : Prop := ∀ l t, Shape s l t → SoundAt mi s l t o

/-- each of the 2^20 pages is in exactly one free block or in exactly one allocation -/
def Conserved (s : Space) : Prop :=
  ∃ l t, Shape s l t ∧ ∀ p < 2 ^ 20, freeCover l p + allocCover t p = 1

/-! ## One call -/

/-- the invariant: proper lists and records, and every page counted once -/
structure Inv (s : Space) (l : List (ℕ × Area)) (t : BinaryTree (ℕ × VmmAllocation)) : Prop where
  rep : Rep s.heap s.ctx l t
  free : FreeOk l
  records : ∀ c ∈ cells t, AllocOk c.2
  pages : ∀ p, freeCover l p + allocCover t p = Tiling.hit (0, 2 ^ 20) p

section Step

variable {A : Allocator} {mi : KernelMeminfo} {s s' : Space} {l : List (ℕ × Area)} {t : BinaryTree (ℕ × VmmAllocation)}
  {c : ℕ × VmmAllocation} {va pa n flags r : ℕ} {h h' : Heap} {ctx ctx' : VmmContext}

theorem Inv.shape (hi : Inv s l t) : Shape s l t := ⟨hi.rep.list, hi.rep.tree⟩

theorem Inv.conserved (hi : Inv s l t) : Conserved s :=
  ⟨l, t, hi.shape, fun p hp => (hi.pages p).trans (Tiling.hit_of_mem (Nat.zero_le p) (by omega))⟩

/-- **Mapping.** -/
theorem map_inv (hi : Inv ⟨h, ctx⟩ l t) (hva : va % pageSize = 0) (hfit : FitOk mi l va n flags)
    (hok : vmmMapPages A mi h ctx va pa n flags = .ok (h', ctx', r)) :
    ∃ l₁ c l₂ m t', l = l₁ ++ c :: l₂ ∧ Cut c.2 r n m ∧ (va ≠ 0 → r = va) ∧ Grown t ⟨r, pa, n, flags⟩ t' ∧
      Inv ⟨h', ctx'⟩ (l₁ ++ m ++ l₂) t' := by
  obtain ⟨l₁, c, l₂, m, t', rfl, hcut, haddr, hrep, hgrown⟩ := map_cases hi.rep hi.free hva hfit hok
  refine ⟨l₁, c, l₂, m, t', rfl, hcut, haddr, hgrown, hrep, hi.free.refine hcut.ok hcut.inside, fun d hd => ?_, fun p => ?_⟩
  · rcases hgrown.mem d hd with he | hd
    · have hc := (hi.free.area c (by simp)).fits
      rw [he]
      exact ⟨hcut.aligned, fun _ => hcut.upper.trans hc⟩
    · exact hi.records d hd
  · have hpages := hi.pages p
    have hcutp := hcut.pages p
    simp only [freeCover_append, freeCover_cons] at hpages ⊢
    rw [hgrown.cover p, ← hpages]
    change _ + (_ + Tiling.hit (span ⟨r, n⟩) p) = _
    omega

theorem hit_allocSpan (c : VmmAllocation) (n p : ℕ) (hn : n ≤ c.pageCount) :
    Tiling.hit (allocSpan c) p = Tiling.hit (span ⟨c.virtualAddr, n⟩) p +
      Tiling.hit (span ⟨c.virtualAddr + n * pageSize, c.pageCount - n⟩) p := by
  rw [← hit_span_cut, Nat.add_sub_cancel' hn]
  rfl

/-- the first pages of a record, as an area -/
theorem areaOk_of_record (hc : AllocOk c.2) (hn : 1 ≤ n) (hle : n ≤ c.2.pageCount) : AreaOk ⟨c.2.virtualAddr, n⟩ where
  aligned := hc.aligned
  nonempty := hn
  fits := by
    have hfit := hc.fits (hn.trans hle)
    have : n * pageSize ≤ c.2.pageCount * pageSize := Nat.mul_le_mul_right _ hle
    dsimp only
    omega

/-- the pages of a record are not free -/
theorem Inv.apart (hi : Inv s l t) (hc : c ∈ cells t) (hn : 1 ≤ n) (hle : n ≤ c.2.pageCount) :
    ∀ d ∈ l, d.2.virtualAddr + d.2.pageCount * pageSize ≤ c.2.virtualAddr ∨
      c.2.virtualAddr + n * pageSize ≤ d.2.virtualAddr := by
  intro d hd
  have hdok := hi.free.area d hd
  have hal := (hi.records c hc).aligned
  have hapart : Tiling.Apart (span d.2) (span ⟨c.2.virtualAddr, n⟩) := by
    refine Tiling.apart_of_hits hdok.nonempty hn fun p => ?_
    have h1 : Tiling.hit (span d.2) p ≤ freeCover l p := Tiling.hit_le_cover (List.mem_map_of_mem hd)
    have h2 : Tiling.hit (allocSpan c.2) p ≤ allocCover t p := Tiling.hit_le_cover (List.mem_map_of_mem hc)
    rw [hit_allocSpan c.2 n p hle] at h2
    have h3 := (hi.pages p).trans_le Tiling.hit_le_one
    omega
  exact apart_of_spans hdok.aligned hal hapart

/-- an address is in one record at most -/
theorem Inv.record_unique {e : ℕ × VmmAllocation} {x : ℕ} (hi : Inv s l t) (hc : c ∈ cells t) (he : e ∈ cells t)
    (hcx : c.2.virtualAddr ≤ x ∧ x < c.2.virtualAddr + c.2.pageCount * pageSize)
    (hex : e.2.virtualAddr ≤ x ∧ x < e.2.virtualAddr + e.2.pageCount * pageSize) : c = e := by
  have hhit : ∀ d ∈ cells t, d.2.virtualAddr ≤ x ∧ x < d.2.virtualAddr + d.2.pageCount * pageSize →
      Tiling.hit (allocSpan d.2) (x / pageSize) = 1 := by
    intro d hd hdx
    have hal := (hi.records d hd).aligned
    refine Tiling.hit_of_mem (Nat.div_le_div_right hdx.1) ?_
    unfold allocSpan
    simp only [pageSize] at hal hdx ⊢
    omega
  by_contra hne
  have hperm : ((cells t).map fun c => allocSpan c.2).Perm
      (allocSpan c.2 :: ((cells t).erase c).map fun c => allocSpan c.2) := (List.perm_cons_erase hc).map _
  have hrest : Tiling.hit (allocSpan e.2) (x / pageSize) ≤
      Tiling.cover (((cells t).erase c).map fun c => allocSpan c.2) (x / pageSize) :=
    Tiling.hit_le_cover (List.mem_map_of_mem (f := fun c : ℕ × VmmAllocation => allocSpan c.2)
      ((List.mem_erase_of_ne (Ne.symm hne)).2 he))
  have hcover : allocCover t (x / pageSize) = Tiling.hit (allocSpan c.2) (x / pageSize) +
      Tiling.cover (((cells t).erase c).map fun c => allocSpan c.2) (x / pageSize) :=
    (Tiling.cover_perm hperm).trans Tiling.cover_cons
  have hone := (hi.pages (x / pageSize)).trans_le Tiling.hit_le_one
  have hc1 := hhit c hc hcx
  have he1 := hhit e he hex
  omega

/-- the record after its first pages are unmapped -/
theorem shrunk_record (hc : AllocOk c.2) (hn : 1 ≤ n) (hle : n ≤ c.2.pageCount) :
    AllocOk (shrunk c.2 n) ∧ ∀ p, Tiling.hit (allocSpan (shrunk c.2 n)) p =
      Tiling.hit (span ⟨c.2.virtualAddr + n * pageSize, c.2.pageCount - n⟩) p := by
  have hfit := hc.fits (hn.trans hle)
  have hal := hc.aligned
  have hcount' : (shrunk c.2 n).pageCount = c.2.pageCount - n := by
    simp only [pageSize] at hfit
    unfold shrunk u32
    dsimp only
    omega
  by_cases hrest : c.2.pageCount - n = 0
  · refine ⟨⟨?_, fun h0 => ?_⟩, fun p => ?_⟩
    · unfold shrunk u32
      simp only [pageSize] at hal ⊢
      omega
    · rw [hcount', hrest] at h0
      exact absurd h0 (lt_irrefl 0)
    · rw [hit_empty (hcount'.trans hrest), hrest]
      exact (hit_empty (a := ⟨c.2.virtualAddr + n * pageSize, 0, 0, 0⟩) rfl).symm
  · have hva' : (shrunk c.2 n).virtualAddr = c.2.virtualAddr + n * pageSize := by
      unfold shrunk u32
      simp only [pageSize] at hfit ⊢
      omega
    refine ⟨⟨?_, fun _ => ?_⟩, fun p => ?_⟩
    · rw [hva', Nat.add_mul_mod_self_right]
      exact hal
    · rw [hva', hcount']
      simp only [pageSize] at hfit ⊢
      omega
    · rw [allocSpan, hva', hcount']
      rfl

/-- what unmapping the first pages of a record leaves: the pages are in the free list, and the record found is shifted or its
node removed -/
structure Released (mi : KernelMeminfo) (s' : Space) (l : List (ℕ × Area)) (t : BinaryTree (ℕ × VmmAllocation))
    (va n : ℕ) (c : ℕ × VmmAllocation) (l' : List (ℕ × Area)) (t' : BinaryTree (ℕ × VmmAllocation)) : Prop where
  found : descend (startDir va) t = some c
  start : c.2.virtualAddr = va
  enough : n ≤ c.2.pageCount
  blocks : Refilled mi l ⟨va, n⟩ l'
  tree : (n < va ∧ t' = t.map (setCell c.1 (shrunk c.2 n))) ∨ (n = va ∧ c.2.pageCount = n ∧ t' = removeCell c.1 t)
  inv : Inv s' l' t'

/-- **Unmapping.** The first pages of a record are returned to the free list. -/
theorem unmap_inv (hi : Inv s l t) (hn : 1 ≤ n) (hmerge : MergeOk mi (before va l).getLast? (after va l).head? va n)
    (hnode : NodeOk s t va n) (hok : step A mi s (.unmap va n) = .ok s') : ∃ c l' t', Released mi s' l t va n c l' t' := by
  obtain ⟨c, h₁, ctx₁, hfound, rfl, hadd, hcases⟩ := unmap_cases hi.rep hok
  have hc := (descend_some hfound).1
  obtain ⟨hlt, heq⟩ := hnode c hfound
  have hreturn : n ≤ c.2.pageCount → ∃ l', Regained mi h₁ ctx₁ t l ⟨c.2.virtualAddr, n⟩ l' := fun hle =>
    addFreeBlocks_regained hi.rep hi.free (areaOk_of_record (hi.records c hc) hn hle) (hi.apart hc hn hle) hmerge hadd
  have hsum : ∀ {l' t'} {p : ℕ},
      freeCover l' p = freeCover l p + Tiling.hit (span ⟨c.2.virtualAddr, n⟩) p →
      allocCover t' p + Tiling.hit (span ⟨c.2.virtualAddr, n⟩) p = allocCover t p →
      freeCover l' p + allocCover t' p = Tiling.hit (0, 2 ^ 20) p := by
    intro l' t' p h1 h2
    have := hi.pages p
    omega
  rcases hcases with ⟨hshift, hrep'⟩ | ⟨hdelete, hrep'⟩
  · -- the record is shifted
    have hle := hlt hshift
    obtain ⟨l', hrep, hf, hcover, hblocks⟩ := hreturn hle
    obtain ⟨hok', hhit⟩ := shrunk_record (hi.records c hc) hn hle
    refine ⟨c, l', _, hfound, rfl, hle, hblocks, .inl ⟨hshift, rfl⟩, (hrep' l' hrep).1, hf, fun d hd => ?_,
      fun p => hsum (hcover p) ?_⟩
    · rw [cells_map] at hd
      obtain ⟨e, he, rfl⟩ := List.mem_map.1 hd
      unfold setCell
      split_ifs
      · exact hok'
      · exact hi.records e he
    · have hset := allocCover_setCell (a := shrunk c.2 n) (x := p) hi.rep.nodup_tree hc
      rw [hhit p, hit_allocSpan c.2 n p hle] at hset
      omega
  · -- the node is removed
    obtain ⟨hcount, hpar⟩ := heq hdelete
    obtain ⟨l', hrep, hf, hcover, hblocks⟩ := hreturn hcount.ge
    refine ⟨c, l', _, hfound, rfl, hcount.ge, hblocks, .inr ⟨hdelete, hcount, rfl⟩, hrep' hpar l' hrep, hf, fun d hd => ?_,
      fun p => hsum (hcover p) ?_⟩
    · exact hi.records d ((cells_removeCell hi.rep.nodup_tree hc).mem_iff.1 (List.mem_cons_of_mem _ hd))
    · rw [← allocCover_removeCell hi.rep.nodup_tree hc]
      unfold allocSpan span
      rw [hcount]

/-- one call keeps the invariant -/
theorem step_inv {o : Call} (hi : ∃ l t, Inv s l t) (hcall : CallOk s o) (hsound : Sound mi s o)
    (hok : step A mi s o = .ok s') : ∃ l t, Inv s' l t := by
  obtain ⟨l, t, hi⟩ := hi
  cases o with
  | map va pa n flags =>
    obtain ⟨⟨h', ctx', r⟩, hmap, hok⟩ := bind_ok.1 hok
    cases hok
    obtain ⟨l₁, c, l₂, m, t', _, _, _, _, hi'⟩ := map_inv hi hcall.2 (hsound l t hi.shape) hmap
    exact ⟨_, t', hi'⟩
  | unmap va n =>
    obtain ⟨hmerge, hnode⟩ := hsound l t hi.shape
    obtain ⟨_, l', t', hrel⟩ := unmap_inv hi hcall.1 hmerge hnode hok
    exact ⟨l', t', hrel.inv⟩

end Step

/-! ## Conservation -/

section Conservation

variable {A : Allocator} {mi : KernelMeminfo} {es : List AddrSpaceEntry} {h₀ h : Heap} {ctx : VmmContext}

/-- in a blank address space every page is free -/
theorem inv_blank {s : Space} {l : List (ℕ × Area)} {r : ℕ}
    (hr : Rep s.heap s.ctx l (.node (r, ⟨0, 0, 0, 0⟩) .nil .nil)) (hb : Blank mi l) :
    Inv s l (.node (r, ⟨0, 0, 0, 0⟩) .nil .nil) := by
  refine ⟨hr, hb.free, fun c hc => ?_, fun x => ?_⟩
  · rw [List.mem_singleton.1 hc]
    exact ⟨rfl, fun h0 => absurd h0 (lt_irrefl 0)⟩
  · have halloc : allocCover (.node (r, ⟨0, 0, 0, 0⟩) .nil .nil) x = 0 :=
      Tiling.cover_cons.trans (by rw [hit_empty rfl]; rfl)
    rw [halloc, hb.pages x, Nat.add_zero]

theorem newContext_inv (h0 : 0 < mi.higherHalfBase) (hal : mi.higherHalfBase % pageSize = 0) (hes : AddrSpaceOk mi es)
    (hok : vmmNewContext A mi es h₀ = .ok (h, ctx)) : ∃ l t, Inv ⟨h, ctx⟩ l t := by
  refine newContext_ind (P := fun s l _ => ∃ t, Inv s l t) (fun s l _ ⟨t, hi⟩ => hi.free)
    (fun s l r hr hb => ⟨_, inv_blank hr hb⟩) ?_ h0 hal hes hok
  rintro h ctx h' ctx' r l e done ⟨t, hi⟩ _ hva hva0 hfit hmap
  obtain ⟨l₁, c, l₂, m, t', hl, hcut, haddr, _, hi'⟩ := map_inv hi hva hfit hmap
  rw [haddr hva0] at hcut
  exact ⟨l₁, c, l₂, m, hl, hcut, t', hi'⟩

/-- **Page conservation.** In every run of calls that take none of the branches that go wrong, from a new address space on,
every page is in exactly one free block or in exactly one allocation. -/
theorem pages_conserved {ops : List Call} {s : Space} (h0 : 0 < mi.higherHalfBase) (hal : mi.higherHalfBase % pageSize = 0)
    (hes : AddrSpaceOk mi es) (hnew : vmmNewContext A mi es h₀ = .ok (h, ctx))
    (hrun : Runs (step A mi) (fun s o => CallOk s o ∧ Sound mi s o) ⟨h, ctx⟩ ops s) : Conserved s := by
  have hinit := newContext_inv h0 hal hes hnew
  obtain ⟨l, t, hi⟩ := hrun.inv (P := fun s => ∃ l t, Inv s l t)
    (fun s o s' hi hC hok => step_inv hi hC.1 hC.2 hok) hinit
  exact hi.conserved

end Conservation

/-! ### Concrete runs -/

section Concrete

instance (mi : KernelMeminfo) (s : Space) (l : List (ℕ × Area)) (t : BinaryTree (ℕ × VmmAllocation)) :
    ∀ o, Decidable (SoundAt mi s l t o)
  | .map va _ n flags => inferInstanceAs (Decidable (FitOk mi l va n flags))
  | .unmap va n => inferInstanceAs (Decidable (MergeOk mi (before va l).getLast? (after va l).head? va n ∧
      ∀ c ∈ descend (startDir va) t, (n < va → n ≤ c.2.pageCount) ∧
        (n = va → c.2.pageCount = n ∧ ParentOk s.heap s.ctx t c.1)))

/-- `CallOk`, for the tree that is read from memory -/
def CallChecked (s : Space) : Call → Prop
  | .map va _ n _ => 1 ≤ n ∧ va % pageSize = 0
  | .unmap va n => 1 ≤ n ∧ ∃ c ∈ cells (treeOf s), c.2.virtualAddr = va ∧ n ≤ c.2.pageCount

instance (s : Space) : ∀ o, Decidable (CallChecked s o)
  | .map va _ n _ => inferInstanceAs (Decidable (1 ≤ n ∧ va % pageSize = 0))
  | .unmap va n => inferInstanceAs (Decidable
      (1 ≤ n ∧ ∃ c ∈ cells (treeOf s), c.2.virtualAddr = va ∧ n ≤ c.2.pageCount))

theorem callOk_of_checked {s : Space} {o : Call} (hs : Shape s (listOf s) (treeOf s)) (hc : CallChecked s o) :
    CallOk s o := by
  cases o with
  | map va pa n flags => exact hc
  | unmap va n => exact ⟨hc.1, treeOf s, hs.tree, hc.2⟩

theorem sound_of_checked {mi : KernelMeminfo} {s : Space} {o : Call} (hs : Shape s (listOf s) (treeOf s))
    (hc : SoundAt mi s (listOf s) (treeOf s) o) : Sound mi s o := by
  intro l t hlt
  obtain ⟨rfl, rfl⟩ := hlt.unique hs
  exact hc

/-- a run whose calls can be checked one by one -/
theorem run_of_checked {A : Allocator} {mi : KernelMeminfo} {ops : List Call} {s₀ s : Space}
    (hr : Runs (step A mi) (fun s o => Shape s (listOf s) (treeOf s) ∧ CallChecked s o ∧
      SoundAt mi s (listOf s) (treeOf s) o) s₀ ops s) :
    Runs (step A mi) (fun s o => CallOk s o ∧ Sound mi s o) s₀ ops s :=
  hr.mono fun _ _ hC => ⟨callOk_of_checked hC.1 hC.2.1, sound_of_checked hC.1 hC.2.2⟩

/-- two pages are mapped, and unmapped one by one; in between the first free page is taken -/
def pageByPage : List Call := [.map 0x400000 0x800000 2 7, .unmap 0x400000 1, .map 0 0x900000 1 7, .unmap 0x401000 1]

def afterPageByPage : Space := returned ⟨fresh.1, fresh.2⟩ (Runs.exec (step .top .atOneMegabyte) ⟨fresh.1, fresh.2⟩ pageByPage)

theorem pages_conserved_page_by_page :
    Runs (step .top .atOneMegabyte) (fun s o => CallOk s o ∧ Sound .atOneMegabyte s o) ⟨fresh.1, fresh.2⟩ pageByPage
      afterPageByPage ∧ Conserved afterPageByPage := by
  have hr : Runs (step .top .atOneMegabyte) (fun s o => CallOk s o ∧ Sound .atOneMegabyte s o) ⟨fresh.1, fresh.2⟩ pageByPage
      afterPageByPage := run_of_checked (.of_exec (by decide +kernel) rfl)
  exact ⟨hr, pages_conserved (by decide) (by decide) entries_ok fresh_eq hr⟩

/-- two adjacent pages are mapped one after the other, and unmapped in the same order -/
def adjacent : List Call := [.map 0x400000 0x800000 1 7, .map 0x401000 0x900000 1 7, .unmap 0x400000 1, .unmap 0x401000 1]

def afterAdjacent : Space := returned ⟨fresh.1, fresh.2⟩ (Runs.exec (step .top .atOneMegabyte) ⟨fresh.1, fresh.2⟩ adjacent)

/-- the second unmap finds the node of the first, which is empty and now starts at the second page: the second page is free
and still in its own record -/
theorem adjacent_page_twice :
    AddrSpaceOk .atOneMegabyte entries ∧ vmmNewContext .top .atOneMegabyte entries emptyHeap = .ok fresh ∧
    Runs (step .top .atOneMegabyte) CallOk ⟨fresh.1, fresh.2⟩ adjacent afterAdjacent ∧ ¬ Conserved afterAdjacent := by
  have hchecked : Runs (step .top .atOneMegabyte) (fun s o => Shape s (listOf s) (treeOf s) ∧ CallChecked s o)
      ⟨fresh.1, fresh.2⟩ adjacent afterAdjacent := .of_exec (by decide +kernel) rfl
  refine ⟨entries_ok, fresh_eq, hchecked.mono fun s o hC => callOk_of_checked hC.1 hC.2, ?_⟩
  rintro ⟨l, t, hs, hpages⟩
  have hs' : Shape afterAdjacent (listOf afterAdjacent) (treeOf afterAdjacent) := by decide +kernel
  obtain ⟨rfl, rfl⟩ := hs.unique hs'
  have htwice : freeCover (listOf afterAdjacent) 0x401 + allocCover (treeOf afterAdjacent) 0x401 = 2 := by decide +kernel
  exact absurd (hpages 0x401 (by decide)) (by rw [htwice]; decide)

end Concrete

end Gubos.Vmm
