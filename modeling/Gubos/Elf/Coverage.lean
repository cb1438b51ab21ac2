/-
Which pages a loaded segment gets (`handle_loadable_segment` in `elf/loader.c`).

The number of pages is computed from the size of the segment alone, in 32 bits, and the pages start with the one of `vaddr`.

- `segment_adds`: a call that returns adds `paging_page_count(size)` pages from that of `vaddr` on, each once, with the flags of
  the segment;
- `segment_coverage`: these are the pages with an address of the segment exactly when the segment is empty, or ends in the last
  of them;
- `unaligned_segment`: two bytes across the end of a page get one page.
-/
import Gubos.Elf.Loader

namespace Gubos.Elf

open Gubos.Core Gubos.Paging Gubos.Vmm Gubos.Pmm

/-- how many records with these flags contain page `x` -/
def recorded (t : BinaryTree (ℕ × VmmAllocation)) (flags x : ℕ) : ℕ :=
  Tiling.cover (((cells t).filter fun c => c.2.flags = flags).map fun c => allocSpan c.2) x

/-- page `x` has an address of the segment -/
def InSegment (progHdr : ProgHdr) (x : ℕ) : Prop :=
  ∃ addr, progHdr.vaddr ≤ addr ∧ addr < progHdr.vaddr + progHdr.memsz ∧ addr / pageSize = x

/-- the flags of a page of the segment: present, for user mode, and writable if the segment is -/
structure FlagsOk (progHdr : ProgHdr) (flags : ℕ) : Prop where
  present : flags &&& pageFlagPresent ≠ 0
  user : flags &&& pageFlagUser ≠ 0
  write : flags &&& pageFlagWrite ≠ 0 ↔ progHdr.flags &&& elfProgHdrFlagW ≠ 0

/-- the tree `t'` has, beyond the pages of `t`, exactly the pages of the segment, each once and with its flags -/
def AddsSegment (progHdr : ProgHdr) (t t' : BinaryTree (ℕ × VmmAllocation)) : Prop :=
  ∃ flags, FlagsOk progHdr flags ∧ ∀ x,
    (InSegment progHdr x → recorded t' flags x = recorded t flags x + 1) ∧
    (¬ InSegment progHdr x → recorded t' flags x = recorded t flags x) ∧
    ∀ flags', flags' ≠ flags → recorded t' flags' x = recorded t flags' x

section Records

variable {t t' : BinaryTree (ℕ × VmmAllocation)} {a : VmmAllocation} {progHdr : ProgHdr} {flags x : ℕ}

theorem recorded_cons (c : ℕ × VmmAllocation) (l : List (ℕ × VmmAllocation)) :
    Tiling.cover (((c :: l).filter fun c => c.2.flags = flags).map fun c => allocSpan c.2) x =
      (if c.2.flags = flags then Tiling.hit (allocSpan c.2) x else 0) +
        Tiling.cover ((l.filter fun c => c.2.flags = flags).map fun c => allocSpan c.2) x := by
  rw [List.filter_cons]
  by_cases hf : c.2.flags = flags
  · rw [if_pos (decide_eq_true hf), if_pos hf, List.map_cons, Tiling.cover_cons]
  · rw [if_neg (by simpa using hf), if_neg hf, Nat.zero_add]

/-- mapping adds the pages of its record -/
theorem recorded_grown (hg : Grown t a t') :
    recorded t' flags x = recorded t flags x + if a.flags = flags then Tiling.hit (allocSpan a) x else 0 := by
  unfold recorded
  cases hg with
  | @root c tl tr htree hc =>
    -- the record that is overwritten is empty
    subst htree
    have hzero : (if c.2.flags = flags then Tiling.hit (allocSpan c.2) x else 0) = 0 := by
      rw [hit_empty hc, ite_self]
    rw [cells_node, cells_node, recorded_cons, recorded_cons, hzero, Nat.zero_add]
    exact Nat.add_comm _ _
  | @leaf p _ _ =>
    have hperm := (cells_insertLeaf (insertDir a.virtualAddr) (p, a) t).filter fun c => c.2.flags = flags
    rw [Tiling.cover_perm (hperm.map _), recorded_cons, Nat.add_comm]

theorem segmentFlags_ok (progHdr : ProgHdr) : FlagsOk progHdr (segmentFlags progHdr) := by
  unfold segmentFlags elfFlagsToPagingFlags
  by_cases hw : progHdr.flags &&& elfProgHdrFlagW ≠ 0
  · rw [if_pos hw]
    exact ⟨by decide, by decide, iff_of_true (by decide) hw⟩
  · rw [if_neg hw]
    exact ⟨by decide, by decide, iff_of_false (by decide) hw⟩

end Records

section Segment

variable {A : Allocator} {mi : KernelMeminfo} {cur : Current} {kernPagingCtx : PagingContext} {progHdr : ProgHdr}
  {rawElf : Mem} {m : Machine} {kern task : VmmContext} {s' : Loading} {lk lu : List (ℕ × Area)}
  {tk tu : BinaryTree (ℕ × VmmAllocation)}

/-- `i` pages from that of the segment on -/
structure Added (progHdr : ProgHdr) (t : BinaryTree (ℕ × VmmAllocation)) (i : ℕ) (s : Loading) : Prop where
  below : progHdr.vaddr / pageSize + i ≤ 2 ^ 20
  both : ∃ lk tk lu tu, Both s lk tk lu tu ∧ ∀ flags x, recorded tu flags x = recorded t flags x +
    if segmentFlags progHdr = flags then Tiling.hit (progHdr.vaddr / pageSize, i) x else 0

/-- one more page -/
theorem added_step {s s' : Loading} {i : ℕ} (hadded : Added progHdr tu i s)
    (hok : loadPage A mi cur kernPagingCtx progHdr rawElf s i = .ok s') : Added progHdr tu (i + 1) s' := by
  obtain ⟨hbelow, lk, tk, lu, tu₁, hb, hrec⟩ := hadded
  obtain ⟨lk', tk', lu', tu', hb', hpage, _, pa, _, _, hgrown⟩ := loadPage_spec hb hok
  have hne := hpage.ne_zero
  have hlt : progHdr.vaddr / pageSize + i < 2 ^ 20 := lt_of_le_of_ne hbelow fun h => hne (pageAt_zero h)
  refine ⟨hlt, _, _, _, _, hb', fun flags x => ?_⟩
  rw [recorded_grown hgrown, hrec]
  have hspan : allocSpan ⟨pageAt progHdr i, pa, 1, segmentFlags progHdr⟩ = (progHdr.vaddr / pageSize + i, 1) := by
    unfold allocSpan
    rw [pageAt_eq hlt, Nat.mul_div_cancel _ (by decide)]
  have hsplit : Tiling.hit (progHdr.vaddr / pageSize, i + 1) x =
      Tiling.hit (progHdr.vaddr / pageSize, i) x + Tiling.hit (progHdr.vaddr / pageSize + i, 1) x := Tiling.hit_split _ _ _ _
  rw [hspan, hsplit]
  dsimp only
  split_ifs
  · omega
  · rfl

/-- **The pages of a segment.** -/
theorem segment_adds (hb : Both ⟨m, kern, task, progHdr.filesz⟩ lk tk lu tu)
    (hok : handleLoadableSegment A mi cur kernPagingCtx progHdr rawElf m kern task = .ok s') :
    Added progHdr tu (pagingPageCount (max progHdr.filesz progHdr.memsz)) s' := by
  have hsize : (if progHdr.memsz < progHdr.filesz then progHdr.filesz else progHdr.memsz) =
      max progHdr.filesz progHdr.memsz := by
    split_ifs with hlt
    · exact (max_eq_left hlt.le).symm
    · exact (max_eq_right (not_lt.1 hlt)).symm
  unfold handleLoadableSegment at hok
  rw [hsize] at hok
  refine foldlM_range_inv ⟨?_, lk, tk, lu, tu, hb, fun flags x => ?_⟩ (fun i _ s s' hP hload => added_step hP hload) hok
  · have := progHdr.vaddr_lt
    simp only [pageSize]
    omega
  · have hzero : Tiling.hit (progHdr.vaddr / pageSize, 0) x = 0 := by
      rw [Tiling.hit_eq, if_neg (by dsimp only; omega)]
    rw [hzero, ite_self, Nat.add_zero]

/-- which of the pages have an address of the segment -/
theorem inSegment_iff (hend : progHdr.memsz = 0 ∨
      progHdr.vaddr % pageSize + progHdr.memsz ≤ pagingPageCount progHdr.memsz * pageSize) (x : ℕ) :
    InSegment progHdr x ↔
      progHdr.vaddr / pageSize ≤ x ∧ x < progHdr.vaddr / pageSize + pagingPageCount progHdr.memsz := by
  have h1 := progHdr.memsz_lt
  unfold InSegment pagingPageCount u32 at *
  simp only [pageSize] at hend ⊢
  refine ⟨fun h => ?_, fun hx => ?_⟩
  · obtain ⟨addr, h2, h3, rfl⟩ := h
    omega
  · -- the first address of the page that is one of the segment
    refine ⟨max progHdr.vaddr (x * 4096), le_max_left _ _, ?_, ?_⟩
    · rw [max_lt_iff]
      omega
    · rcases max_cases progHdr.vaddr (x * 4096) with ⟨h, _⟩ | ⟨h, _⟩
      · omega
      · omega

/-- **Coverage.** For a segment that is not longer in the file than in memory, a call that returns adds exactly the pages
with an address of the segment if and only if the segment is empty, or its last address is in the last of the
`paging_page_count(memsz)` pages or before. -/
theorem segment_coverage (hb : Both ⟨m, kern, task, progHdr.filesz⟩ lk tk lu tu) (hsize : progHdr.filesz ≤ progHdr.memsz)
    (hok : handleLoadableSegment A mi cur kernPagingCtx progHdr rawElf m kern task = .ok s') :
    (∃ tu', TreeAt s'.machine.heap.node s'.vmmCtx.allocations tu' ∧ AddsSegment progHdr tu tu') ↔
      progHdr.memsz = 0 ∨ progHdr.vaddr % pageSize + progHdr.memsz ≤ pagingPageCount progHdr.memsz * pageSize := by
  obtain ⟨_, lk', tk', lu', tu', hb', hrec⟩ := segment_adds hb hok
  rw [max_eq_right hsize] at hrec
  have hhit : ∀ x, recorded tu' (segmentFlags progHdr) x = recorded tu (segmentFlags progHdr) x +
      if progHdr.vaddr / pageSize ≤ x ∧ x < progHdr.vaddr / pageSize + pagingPageCount progHdr.memsz then 1 else 0 := by
    intro x
    rw [hrec, if_pos rfl, Tiling.hit_eq]
  refine ⟨fun hadds => ?_, fun hend => ?_⟩
  · obtain ⟨tu'', htree, flags, _, hadds⟩ := hadds
    obtain rfl := htree.unique hb'.task.tree
    by_contra hc
    obtain ⟨hm0, hlong⟩ := not_or.1 hc
    -- the last address of the segment
    obtain ⟨x, hx⟩ : ∃ x, x = (progHdr.vaddr + progHdr.memsz - 1) / pageSize := ⟨_, rfl⟩
    have hin : InSegment progHdr x := ⟨progHdr.vaddr + progHdr.memsz - 1, by omega, by omega, hx.symm⟩
    have h1 := (hadds x).1 hin
    have h2 := hrec flags x
    rw [Tiling.hit_eq] at h2
    split_ifs at h2 with hf hr
    · simp only [pageSize] at hlong hx hr
      omega
    · omega
    · omega
  · refine ⟨tu', hb'.task.tree, segmentFlags progHdr, segmentFlags_ok progHdr, fun x => ⟨fun hin => ?_, fun hout => ?_,
      fun flags' hne => ?_⟩⟩
    · rw [hhit, if_pos ((inSegment_iff hend x).1 hin)]
    · rw [hhit, if_neg fun hx => hout ((inSegment_iff hend x).2 hx), Nat.add_zero]
    · rw [hrec, if_neg (Ne.symm hne), Nat.add_zero]

end Segment

/-! ### Concrete segments -/

section Concrete

/-- a segment of three bytes at the start of a page -/
def alignedSegment : ProgHdr := ⟨1, 0, 0x400000, 2, 3, 6, userPage.virtualAddr_lt, by decide, by decide⟩

theorem segment_coverage_aligned :
    ∃ s', handleLoadableSegment .top .atOneMegabyte current context alignedSegment (fun _ => 1) machine kernel.2.1 task.2 =
        .ok s' ∧
      ∃ tu', TreeAt s'.machine.heap.node s'.vmmCtx.allocations tu' ∧ AddsSegment alignedSegment taskTree tu' := by
  refine ⟨_, eq_returned ⟨machine, kernel.2.1, task.2, 0⟩ (by decide +kernel), ?_⟩
  exact (segment_coverage (both_machine 2) (by decide) (eq_returned _ (by decide +kernel))).2 (Or.inr (by decide))

/-- two bytes, the last of a page and the first of the next -/
def acrossPages : ProgHdr := ⟨1, 0, 0x400FFF, 2, 2, 6, by decide, by decide, by decide⟩

/-- **Two bytes across the end of a page get one page.** Page 0x401000 is the kernel's, so that the copy goes through. -/
theorem unaligned_segment :
    acrossPages.filesz ≤ acrossPages.memsz ∧ acrossPages.vaddr + acrossPages.memsz ≤ 2 ^ 32 ∧
    Both ⟨machine, kernel.2.1, task.2, 2⟩ kernelList kernelTree taskList taskTree ∧
    ∃ s', handleLoadableSegment .top .atOneMegabyte current context acrossPages (fun _ => 1) machine kernel.2.1 task.2 =
        .ok s' ∧
      ¬ ∃ tu', TreeAt s'.machine.heap.node s'.vmmCtx.allocations tu' ∧ AddsSegment acrossPages taskTree tu' := by
  refine ⟨by decide, by decide, both_machine 2, _, eq_returned ⟨machine, kernel.2.1, task.2, 0⟩ (by decide +kernel), fun hadds => ?_⟩
  obtain ⟨_, _, _, _, tu₁, hb, hrec⟩ := @segment_adds .top .atOneMegabyte current context acrossPages (fun _ => 1) machine
    kernel.2.1 task.2 _ _ _ _ _ (both_machine 2) (eq_returned _ (by decide +kernel))
  obtain ⟨tu', htree, flags, _, hadds⟩ := hadds
  obtain rfl := htree.unique hb.task.tree
  have hin : InSegment acrossPages 0x401 := ⟨0x401000, by decide, by decide, by decide⟩
  have h1 := (hadds 0x401).1 hin
  have hout : Tiling.hit (acrossPages.vaddr / pageSize, pagingPageCount (max acrossPages.filesz acrossPages.memsz)) 0x401 = 0 := by
    decide
  rw [hrec, hout, ite_self] at h1
  omega

end Concrete

end Gubos.Elf
