/-
Where an ELF file gets user-accessible pages (`elf_load` in `elf/loader.c`).

`vmm_map_pages` looks at the mode of a request only where it chooses the address itself. So a segment is mapped for user mode
wherever its header says. In the kernel's context each page is unmapped again, which leaves an empty record at the page after
it; if that page is loaded next, its unmapping finds the empty record first and takes a page from it: 2^32 - 1 pages are left.

- `elfLoad_pages`: a call that returns is a sequence of pages, in the order of the headers;
- `user_half`: all user pages of both contexts are below `higher_half_base` exactly when every page loaded is, none comes after
  the page before it in memory, and none is where an earlier load left a record in the kernel's context;
- `kernel_segment`: a segment at 0xD0000000.

Premises: the two contexts are in cells of their own and the task's free list is sound; the kernel's root record is not empty, and
its records in the user half are the empty ones that earlier loads left, or start at pages that are not free in the task's
context, as the stack of the first task, at address 0, does in every clone of the kernel's context (`KernelTree`).
-/
import Gubos.Elf.Loader
import Gubos.Mm.CloneList

namespace Gubos.Elf

open Gubos.Core Gubos.Paging Gubos.Vmm Gubos.Pmm

/-! ## Pages in the order of loading -/

/-- the pages of a segment -/
def segmentPages (progHdr : ProgHdr) : List ℕ :=
  (List.range (pagingPageCount (if progHdr.memsz < progHdr.filesz then progHdr.filesz else progHdr.memsz))).map (pageAt progHdr)

/-- the pages of `n` headers from header `i` on, to the first of type NULL -/
def headerPages (header : Hdr) (rawElf : Mem) : ℕ → ℕ → List ℕ
  | 0, _ => []
  | n + 1, i =>
    let progHdr := progHdrAt rawElf (u32 (header.phoff + i * header.phentsize))
    if progHdr.type = elfProgHdrTypeNull then [] else segmentPages progHdr ++ headerPages header rawElf n (i + 1)

/-- the pages that `elf_load` loads -/
def loadedPages (header : Hdr) (rawElf : Mem) : List ℕ := headerPages header rawElf header.phnum 0

/-- the task's free list and the two trees -/
structure Trees where
  free : List (ℕ × Area)
  kern : BinaryTree (ℕ × VmmAllocation)
  task : BinaryTree (ℕ × VmmAllocation)

/-- pages are loaded one after the other, each for user mode -/
inductive PagesLoaded : List ℕ → Trees → Trees → Prop
  | nil (s : Trees) : PagesLoaded [] s s
  | cons {va flags : ℕ} {pages : List ℕ} {s s₁ s' : Trees} :
      flags &&& pageFlagUser ≠ 0 → PageLoaded va flags s.free s.kern s.task s₁.free s₁.kern s₁.task →
      PagesLoaded pages s₁ s' → PagesLoaded (va :: pages) s s'

theorem PagesLoaded.append {p q : List ℕ} {s s₁ s' : Trees} (h₁ : PagesLoaded p s s₁) (h₂ : PagesLoaded q s₁ s') :
    PagesLoaded (p ++ q) s s' := by
  induction h₁ with
  | nil s => exact h₂
  | cons huser hpage _ ih => exact .cons huser hpage (ih h₂)

section Load

variable {A : Allocator} {mi : KernelMeminfo} {cur : Current} {kernPagingCtx : PagingContext} {progHdr : ProgHdr}
  {header : Hdr} {rawElf : Mem} {s s' : Loading} {lk lu : List (ℕ × Area)} {tk tu : BinaryTree (ℕ × VmmAllocation)}

theorem segmentFlags_user (progHdr : ProgHdr) : segmentFlags progHdr &&& pageFlagUser ≠ 0 := by
  unfold segmentFlags elfFlagsToPagingFlags
  split_ifs
  · decide
  · decide

/-- the rounds of `handle_loadable_segment` -/
theorem rounds_pages {rounds : List ℕ} (hb : Both s lk tk lu tu)
    (hok : rounds.foldlM (loadPage A mi cur kernPagingCtx progHdr rawElf) s = .ok s') :
    ∃ lk' tk' lu' tu', Both s' lk' tk' lu' tu' ∧ PagesLoaded (rounds.map (pageAt progHdr)) ⟨lu, tk, tu⟩ ⟨lu', tk', tu'⟩ := by
  induction rounds generalizing s lk tk lu tu with
  | nil =>
    cases hok
    exact ⟨lk, tk, lu, tu, hb, .nil _⟩
  | cons i rounds ih =>
    rw [List.foldlM_cons] at hok
    obtain ⟨s₁, hload, hok⟩ := bind_ok.1 hok
    obtain ⟨lk₁, tk₁, lu₁, tu₁, hb₁, hpage, _⟩ := loadPage_spec hb hload
    obtain ⟨lk', tk', lu', tu', hb', hpages⟩ := ih hb₁ hok
    exact ⟨lk', tk', lu', tu', hb', .cons (segmentFlags_user progHdr) hpage hpages⟩

theorem segment_pages {m : Machine} {kern task : VmmContext} (hb : Both ⟨m, kern, task, progHdr.filesz⟩ lk tk lu tu)
    (hok : handleLoadableSegment A mi cur kernPagingCtx progHdr rawElf m kern task = .ok s') :
    ∃ lk' tk' lu' tu', Both s' lk' tk' lu' tu' ∧ PagesLoaded (segmentPages progHdr) ⟨lu, tk, tu⟩ ⟨lu', tk', tu'⟩ :=
  rounds_pages hb hok

/-- the rounds of `elf_load` -/
theorem headers_pages {n i : ℕ} {m m' : Machine} {kern kern' task task' : VmmContext}
    (hb : Both ⟨m, kern, task, 0⟩ lk tk lu tu)
    (hok : loadHeaders A mi cur kernPagingCtx header rawElf n i m kern task = .ok (m', kern', task')) :
    ∃ lk' tk' lu' tu', Both ⟨m', kern', task', 0⟩ lk' tk' lu' tu' ∧
      PagesLoaded (headerPages header rawElf n i) ⟨lu, tk, tu⟩ ⟨lu', tk', tu'⟩ := by
  induction n generalizing i m kern task lk tk lu tu with
  | zero =>
    cases hok
    exact ⟨lk, tk, lu, tu, hb, .nil _⟩
  | succ n ih =>
    unfold loadHeaders at hok
    unfold headerPages
    dsimp only at hok ⊢
    split_ifs at hok ⊢ with hnull hload
    · cases hok
      exact ⟨lk, tk, lu, tu, hb, .nil _⟩
    · obtain ⟨s₁, hseg, hok⟩ := bind_ok.1 hok
      obtain ⟨lk₁, tk₁, lu₁, tu₁, hb₁, hpages₁⟩ := segment_pages ⟨hb.kern, hb.task, hb.apart⟩ hseg
      obtain ⟨lk', tk', lu', tu', hb', hpages⟩ := ih ⟨hb₁.kern, hb₁.task, hb₁.apart⟩ hok
      exact ⟨lk', tk', lu', tu', hb', hpages₁.append hpages⟩

/-- **A file is loaded page by page.** -/
theorem elfLoad_pages {m m' : Machine} {kern kern' task task' : VmmContext} (hb : Both ⟨m, kern, task, 0⟩ lk tk lu tu)
    (hok : elfLoad A mi cur kernPagingCtx header rawElf m kern task = .ok (m', kern', task')) :
    ∃ lk' tk' lu' tu', Both ⟨m', kern', task', 0⟩ lk' tk' lu' tu' ∧
      PagesLoaded (loadedPages header rawElf) ⟨lu, tk, tu⟩ ⟨lu', tk', tu'⟩ := headers_pages hb hok

end Load

/-! ## The trees -/

/-- every page that is recorded for user mode is below `higher_half_base` -/
def UserBelow (mi : KernelMeminfo) (t : BinaryTree (ℕ × VmmAllocation)) : Prop :=
  ∀ c ∈ cells t, c.2.flags &&& pageFlagUser ≠ 0 → ∀ x, c.2.virtualAddr / pageSize ≤ x →
    x < c.2.virtualAddr / pageSize + c.2.pageCount → (x + 1) * pageSize ≤ mi.higherHalfBase

/-- the kernel's tree, beside the free list of the task: a record in the user half was left by an earlier load, and is empty,
or is not free for the task -/
structure KernelTree (mi : KernelMeminfo) (lu : List (ℕ × Area)) (t : BinaryTree (ℕ × VmmAllocation)) : Prop where
  root : ∃ c l r, t = .node c l r ∧ c.2.pageCount ≠ 0
  aligned : ∀ c ∈ cells t, c.2.virtualAddr % pageSize = 0
  low : ∀ c ∈ cells t, c.2.virtualAddr < mi.higherHalfBase →
    c.2.pageCount = 0 ∧ c.2.flags &&& pageFlagUser ≠ 0 ∨ ¬ Free lu (c.2.virtualAddr / pageSize)
  below : UserBelow mi t

/-- the pages to load: all in the user half, none right after an earlier one, none where the kernel's tree has a record -/
structure PagesOk (mi : KernelMeminfo) (t : BinaryTree (ℕ × VmmAllocation)) (pages : List ℕ) : Prop where
  below : ∀ va ∈ pages, va + pageSize ≤ mi.higherHalfBase
  order : pages.Pairwise fun v w => w ≠ v + pageSize
  unused : ∀ va ∈ pages, descend (startDir va) t = none

section Trees

variable {mi : KernelMeminfo} {t t' tk tu tk' tu' : BinaryTree (ℕ × VmmAllocation)} {lu lu' : List (ℕ × Area)}
  {a b : VmmAllocation} {c : ℕ × VmmAllocation} {va flags p x : ℕ}

/-- the new leaf gets another record -/
theorem map_setCell_insertLeaf {go : VmmAllocation → Dir} (hp : p ∉ ptrs (cells t)) :
    (insertLeaf go (p, a) t).map (setCell p b) = insertLeaf go (p, b) t := by
  induction t with
  | nil => simp only [insertLeaf, BinaryTree.map, setCell, if_true]
  | node c l r ihl ihr =>
    simp only [cells_node, ptrs_cons, ptrs_append, List.mem_cons, List.mem_append, not_or] at hp
    unfold insertLeaf
    split
    · rw [BinaryTree.map, ihl hp.2.1, map_setCell_of_notMem hp.2.2, setCell, if_neg (Ne.symm hp.1)]
    · rw [BinaryTree.map, ihr hp.2.2, map_setCell_of_notMem hp.2.1, setCell, if_neg (Ne.symm hp.1)]

/-- at which pages a search stops after a record was inserted at a page and moved to the next -/
theorem descend_start_moved {u : ℕ} (halign : ∀ c ∈ cells t, c.2.virtualAddr % pageSize = 0) (hva : va % pageSize = 0)
    (hb : b.virtualAddr = va + pageSize) (hnone : descend (startDir va) t = none) :
    descend (startDir u) (insertLeaf (insertDir va) (p, b) t) = none ↔ descend (startDir u) t = none ∧ u ≠ va + pageSize := by
  induction t with
  | nil =>
    by_cases hub : u = b.virtualAddr
    · have hstop : startDir u b = .stop := if_pos hub
      simp only [insertLeaf, descend, hstop, reduceCtorEq, false_iff, not_and, not_not]
      exact fun _ => hub.trans hb
    · have hdir := startDir_of_ne hub
      have hnil : descend (startDir u) (insertLeaf (insertDir va) (p, b) .nil) = none := by
        simp only [insertLeaf, descend, hdir, insertDir]
        split_ifs <;> rfl
      exact iff_of_true hnil ⟨rfl, fun h => hub (h.trans hb.symm)⟩
  | node c l r ihl ihr =>
    simp only [cells_node, List.mem_cons, List.mem_append] at halign
    have hc := halign c (Or.inl rfl)
    have ihl := ihl fun d hd => halign d (Or.inr (Or.inl hd))
    have ihr := ihr fun d hd => halign d (Or.inr (Or.inr hd))
    unfold descend at hnone
    have hne : va ≠ c.2.virtualAddr := by
      intro heq
      have hstop : startDir va c.2 = .stop := if_pos heq
      rw [hstop] at hnone
      cases hnone
    rw [startDir_of_ne hne] at hnone
    unfold insertLeaf
    by_cases huc : u = c.2.virtualAddr
    · -- the search stops before it comes to the leaf
      have hstop : startDir u c.2 = .stop := if_pos huc
      split
      · simp only [descend, hstop, reduceCtorEq, false_and]
      · simp only [descend, hstop, reduceCtorEq, false_and]
    have hdir := startDir_of_ne huc
    by_cases hlt : va < c.2.virtualAddr
    · have hleft : insertDir va c.2 = .left := if_pos hlt
      rw [hleft] at hnone
      simp only [hleft, descend, hdir]
      by_cases hult : u < c.2.virtualAddr
      · have huleft : insertDir u c.2 = .left := if_pos hult
        rw [huleft]
        exact ihl hnone
      · -- beyond the node, and so beyond the page
        have huright : insertDir u c.2 = .right := if_neg hult
        rw [huright]
        refine (and_iff_left ?_).symm
        simp only [pageSize] at hc hva ⊢
        omega
    · have hright : insertDir va c.2 = .right := if_neg hlt
      rw [hright] at hnone
      simp only [hright, descend, hdir]
      by_cases hult : u < c.2.virtualAddr
      · have huleft : insertDir u c.2 = .left := if_pos hult
        rw [huleft]
        refine (and_iff_left ?_).symm
        simp only [pageSize]
        omega
      · have huright : insertDir u c.2 = .right := if_neg hult
        rw [huright]
        exact ihr hnone

theorem grown_keeps (hg : Grown t a t') (hc : c ∈ cells t) (hcount : c.2.pageCount ≠ 0) : c ∈ cells t' := by
  cases hg with
  | @root d tl tr htree hd =>
    subst htree
    rcases List.mem_cons.1 hc with rfl | hc
    · exact absurd hd hcount
    · exact List.mem_cons_of_mem _ hc
  | leaf _ _ => exact (cells_insertLeaf _ _ _).mem_iff.2 (List.mem_cons_of_mem _ hc)

theorem shrunk_flags (a : VmmAllocation) (n : ℕ) : (shrunk a n).flags = a.flags := by
  simp only [shrunk]

/-- the record of a page that is moved on: no pages, at the next page -/
theorem shrunk_page (hva : a.virtualAddr + pageSize < 2 ^ 32) (hcount : a.pageCount = 1) :
    shrunk a 1 = ⟨a.virtualAddr + pageSize, a.physicalAddr, 0, a.flags⟩ := by
  unfold shrunk
  rw [hcount, Nat.mul_one, u32_of_lt hva]
  rfl

theorem userBelow_of_mem (h : UserBelow mi t) (hnew : a.flags &&& pageFlagUser ≠ 0 → ∀ x, a.virtualAddr / pageSize ≤ x →
      x < a.virtualAddr / pageSize + a.pageCount → (x + 1) * pageSize ≤ mi.higherHalfBase)
    (hsub : ∀ c ∈ cells t', c.2 = a ∨ c ∈ cells t) : UserBelow mi t' := by
  intro c hc huser
  rcases hsub c hc with rfl | hc
  · exact hnew huser
  · exact h c hc huser

/-- the kernel's tree, after a page is loaded at which its search stops nowhere: the record of the page is at the next -/
theorem PageLoaded.kern_eq (hpage : PageLoaded va flags lu tk tu lu' tk' tu') (hk : KernelTree mi lu tk)
    (hbelow : va + pageSize ≤ mi.higherHalfBase) (hnone : descend (startDir va) tk = none) :
    ∃ p pa, p ∉ ptrs (cells tk) ∧ tk' = insertLeaf (insertDir va) (p, ⟨va + pageSize, pa, 0, flags⟩) tk := by
  obtain ⟨pa, tk₁, c, hgrown, _, _, hfound, _, rfl⟩ := hpage.trees
  obtain ⟨d, l, r, htree, hd⟩ := hk.root
  cases hgrown with
  | root htree' hd' =>
    rw [htree] at htree'
    cases htree'
    exact absurd hd' hd
  | @leaf p hp _ =>
    have hleaf := @descend_start_newLeaf p tk ⟨va, pa, 1, flags⟩ hnone
    rw [hleaf] at hfound
    cases hfound
    have hlt := mi.higherHalfBase_lt
    refine ⟨p, pa, hp, ?_⟩
    dsimp only
    rw [map_setCell_insertLeaf hp, shrunk_page (lt_of_le_of_lt hbelow hlt) rfl]

/-- a page that is loaded was free for the task, and what was not free is not free afterwards -/
theorem PageLoaded.free_page (hpage : PageLoaded va flags lu tk tu lu' tk' tu') (hf : FreeOk lu) :
    Free lu (va / pageSize) ∧ ∀ x, Free lu' x → Free lu x := by
  obtain ⟨_, hcover⟩ := hpage.free hf
  unfold Free
  refine ⟨?_, fun x hx => ?_⟩
  · rw [hcover, Tiling.hit_of_mem le_rfl (Nat.lt_succ_self _)]
    exact Nat.succ_pos _
  · rw [hcover]
    exact Nat.add_pos_left hx _

/-- **A page where nothing was.** -/
theorem page_good (hpage : PageLoaded va flags lu tk tu lu' tk' tu') (huser : flags &&& pageFlagUser ≠ 0) (hf : FreeOk lu)
    (hk : KernelTree mi lu tk) (hbelow : va + pageSize ≤ mi.higherHalfBase) (hnone : descend (startDir va) tk = none) :
    KernelTree mi lu' tk' ∧ ∀ u, descend (startDir u) tk' = none ↔ descend (startDir u) tk = none ∧ u ≠ va + pageSize := by
  have hal := hpage.aligned
  obtain ⟨p, pa, hp, rfl⟩ := hpage.kern_eq hk hbelow hnone
  have hmem : ∀ {c}, c ∈ cells (insertLeaf (insertDir va) (p, ⟨va + pageSize, pa, 0, flags⟩) tk) →
      c.2 = ⟨va + pageSize, pa, 0, flags⟩ ∨ c ∈ cells tk := by
    intro c hc
    rcases List.mem_cons.1 ((cells_insertLeaf _ _ _).mem_iff.1 hc) with rfl | hc
    · exact Or.inl rfl
    · exact Or.inr hc
  refine ⟨⟨?_, fun c hc => ?_, fun c hc hlow => ?_, ?_⟩, fun u => descend_start_moved hk.aligned hal rfl hnone⟩
  · obtain ⟨d, l, r, rfl, hd⟩ := hk.root
    unfold insertLeaf
    split
    · exact ⟨d, _, r, rfl, hd⟩
    · exact ⟨d, l, _, rfl, hd⟩
  · rcases hmem hc with hc | hc
    · rw [hc]
      simp only [pageSize] at hal ⊢
      omega
    · exact hk.aligned c hc
  · rcases hmem hc with hc | hc
    · rw [hc]
      exact .inl ⟨rfl, huser⟩
    · exact (hk.low c hc hlow).imp_right fun hused hfree => hused ((hpage.free_page hf).2 _ hfree)
  · refine userBelow_of_mem hk.below (fun _ x h1 h2 => ?_) fun c hc => hmem hc
    dsimp only at h1 h2
    omega

/-- **The task's tree.** -/
theorem page_task (hpage : PageLoaded va flags lu tk tu lu' tk' tu') (hbelow : va + pageSize ≤ mi.higherHalfBase)
    (hu : UserBelow mi tu) : UserBelow mi tu' := by
  obtain ⟨pa, _, _, _, hgrown, _⟩ := hpage.trees
  refine userBelow_of_mem hu (fun _ x h1 h2 => ?_) hgrown.mem
  have hal := hpage.aligned
  simp only [pageSize] at h1 h2 hal hbelow ⊢
  omega

/-- a record for user mode, from the user half on, with almost 2^32 pages -/
def Swollen (mi : KernelMeminfo) (k : ℕ) (t : BinaryTree (ℕ × VmmAllocation)) : Prop :=
  ∃ c ∈ cells t, c.2.flags &&& pageFlagUser ≠ 0 ∧ c.2.virtualAddr ≤ mi.higherHalfBase ∧ c.2.pageCount < 2 ^ 32 ∧
    2 ^ 32 ≤ c.2.pageCount + 1 + k

/-- **A page where an empty record was.** -/
theorem page_bad (hpage : PageLoaded va flags lu tk tu lu' tk' tu') (hf : FreeOk lu) (hk : KernelTree mi lu tk)
    (hbelow : va + pageSize ≤ mi.higherHalfBase) (hfound : descend (startDir va) tk = some c) : Swollen mi 0 tk' := by
  obtain ⟨pa, tk₁, d, hgrown, _, _, hfound₁, hdva, rfl⟩ := hpage.trees
  obtain ⟨e, l, r, htree, he⟩ := hk.root
  cases hgrown with
  | root htree' he' =>
    rw [htree] at htree'
    cases htree'
    exact absurd he' he
  | @leaf p hp _ =>
    rw [descend_insertLeaf hfound] at hfound₁
    cases hfound₁
    have hc := (descend_some hfound).1
    have hlt := mi.higherHalfBase_lt
    have hp0 : 0 < pageSize := by decide
    -- the page was free for the task
    obtain ⟨hcount, huser⟩ := (hk.low c hc (by omega)).resolve_right fun hused => by
      rw [← hdva] at hpage
      exact hused (hpage.free_page hf).1
    refine ⟨(c.1, shrunk c.2 1), ?_, (shrunk_flags c.2 1).symm ▸ huser, ?_, ?_, ?_⟩
    · rw [cells_map]
      have hmem : c ∈ cells (insertLeaf (insertDir va) (p, ⟨va, pa, 1, flags⟩) tk) :=
        (cells_insertLeaf _ _ _).mem_iff.2 (List.mem_cons_of_mem _ hc)
      exact List.mem_map.2 ⟨c, hmem, if_pos rfl⟩
    · unfold shrunk
      rw [hdva, Nat.mul_one]
      exact (Nat.mod_le _ _).trans hbelow
    · exact u32_lt _
    · have hwrap : u32 (0 + 2 ^ 32 - 1) = 2 ^ 32 - 1 := by
        unfold u32
        norm_num
      have hshrunk : (shrunk c.2 1).pageCount = 2 ^ 32 - 1 := by
        unfold shrunk
        rw [hcount, hwrap]
      rw [hshrunk]
      norm_num

/-- and it stays -/
theorem page_swollen {k : ℕ} (hpage : PageLoaded va flags lu tk tu lu' tk' tu') (hbelow : va + pageSize ≤ mi.higherHalfBase)
    (hk : k < 2 ^ 31) (hs : Swollen mi k tk) : Swollen mi (k + 1) tk' := by
  obtain ⟨pa, tk₁, d, hgrown, _, hnd, hfound, hdva, rfl⟩ := hpage.trees
  obtain ⟨c, hc, huser, hva, hlt, hcount⟩ := hs
  have hc₁ := grown_keeps hgrown hc (by omega)
  rw [Swollen, cells_map]
  by_cases hcd : c.1 = d.1
  · -- it is the node that moves on
    obtain rfl := List.inj_on_of_nodup_map hnd hc₁ (descend_some hfound).1 hcd
    have hone : u32 (c.2.pageCount + 2 ^ 32 - 1) = c.2.pageCount - 1 := by
      unfold u32
      omega
    refine ⟨(c.1, shrunk c.2 1), List.mem_map.2 ⟨c, hc₁, if_pos rfl⟩, (shrunk_flags c.2 1).symm ▸ huser, ?_, ?_, ?_⟩
    · unfold shrunk
      rw [hdva, Nat.mul_one]
      exact (Nat.mod_le _ _).trans hbelow
    · exact u32_lt _
    · have hshrunk : (shrunk c.2 1).pageCount = c.2.pageCount - 1 := by
        unfold shrunk
        rw [hone]
      rw [hshrunk]
      omega
  · refine ⟨c, List.mem_map.2 ⟨c, hc₁, if_neg hcd⟩, huser, hva, hlt, by omega⟩

end Trees

/-! ## All pages -/

section Pages

variable {mi : KernelMeminfo} {pages : List ℕ} {s s' : Trees}

theorem PagesLoaded.aligned (h : PagesLoaded pages s s') : ∀ va ∈ pages, va % pageSize = 0 := by
  induction h with
  | nil s => exact fun va hva => absurd hva List.not_mem_nil
  | cons _ hpage _ ih =>
    intro va hva
    rcases List.mem_cons.1 hva with rfl | hva
    · exact hpage.aligned
    · exact ih va hva

/-- the pages loaded were free, so that they differ -/
theorem PagesLoaded.nodup (h : PagesLoaded pages s s') (hf : FreeOk s.free) :
    pages.Nodup ∧ ∀ va ∈ pages, 0 < freeCover s.free (va / pageSize) := by
  induction h with
  | nil s => exact ⟨List.nodup_nil, fun va hva => absurd hva List.not_mem_nil⟩
  | @cons va flags pages s s₁ s' _ hpage _ ih =>
    obtain ⟨hf₁, hcover⟩ := hpage.free hf
    obtain ⟨hnd, hfree⟩ := ih hf₁
    refine ⟨List.nodup_cons.2 ⟨fun hva => ?_, hnd⟩, fun w hw => ?_⟩
    · have h1 := hfree va hva
      have h2 := hf.cover_le_one (va / pageSize)
      rw [hcover, Tiling.hit_of_mem le_rfl (Nat.lt_succ_self _)] at h2
      omega
    · rcases List.mem_cons.1 hw with rfl | hw
      · exact (hpage.free_page hf).1
      · exact (hpage.free_page hf).2 _ (hfree w hw)

/-- and there are at most 2^20 of them -/
theorem PagesLoaded.length_le (h : PagesLoaded pages s s') (hf : FreeOk s.free) (hlt : ∀ va ∈ pages, va < 2 ^ 32) :
    pages.length ≤ 2 ^ 20 := by
  have hnd : (pages.map (· / pageSize)).Nodup := by
    refine (h.nodup hf).1.map_on fun v hv w hw hvw => ?_
    have h1 := h.aligned v hv
    have h2 := h.aligned w hw
    simp only [pageSize] at h1 h2 hvw
    omega
  have hsub : pages.map (· / pageSize) ⊆ List.range (2 ^ 20) := by
    intro x hx
    obtain ⟨v, hv, rfl⟩ := List.mem_map.1 hx
    have := hlt v hv
    refine List.mem_range.2 ?_
    simp only [pageSize]
    omega
  have hle := (hnd.subperm hsub).length_le
  rwa [List.length_map, List.length_range] at hle

/-- **Sufficient.** -/
theorem PagesLoaded.userBelow (h : PagesLoaded pages s s') (hf : FreeOk s.free) (hk : KernelTree mi s.free s.kern)
    (hu : UserBelow mi s.task) (hok : PagesOk mi s.kern pages) : UserBelow mi s'.kern ∧ UserBelow mi s'.task := by
  induction h with
  | nil s => exact ⟨hk.below, hu⟩
  | @cons va flags pages s s₁ s' huser hpage _ ih =>
    have hbelow := hok.below va List.mem_cons_self
    obtain ⟨hlater, horder⟩ := List.pairwise_cons.1 hok.order
    obtain ⟨hk₁, hsearch⟩ := page_good hpage huser hf hk hbelow (hok.unused va List.mem_cons_self)
    refine ih (hpage.free hf).1 hk₁ (page_task hpage hbelow hu) ⟨fun w hw => hok.below w (List.mem_cons_of_mem _ hw), horder, fun w hw => ?_⟩
    exact (hsearch w).2 ⟨hok.unused w (List.mem_cons_of_mem _ hw), hlater w hw⟩

/-- a page of the task stays recorded -/
theorem PagesLoaded.keeps (h : PagesLoaded pages s s') {c : ℕ × VmmAllocation} (hc : c ∈ cells s.task)
    (hcount : c.2.pageCount ≠ 0) : c ∈ cells s'.task := by
  induction h with
  | nil s => exact hc
  | cons _ hpage _ ih =>
    obtain ⟨_, _, _, _, hgrown, _⟩ := hpage.trees
    exact ih (grown_keeps hgrown hc hcount)

/-- **Necessary, in the task's context.** -/
theorem PagesLoaded.in_user_half (h : PagesLoaded pages s s') (hu : UserBelow mi s'.task) :
    ∀ va ∈ pages, va + pageSize ≤ mi.higherHalfBase := by
  induction h with
  | nil s => exact fun va hva => absurd hva List.not_mem_nil
  | @cons va flags pages s s₁ s' huser hpage hpages ih =>
    intro w hw
    rcases List.mem_cons.1 hw with rfl | hw
    · obtain ⟨pa, _, _, _, hgrown, _⟩ := hpage.trees
      obtain ⟨c, hc, hca⟩ := hgrown.has
      have hlast := hpages.keeps hc (by rw [hca]; exact Nat.one_ne_zero)
      have hend := hu c hlast (by rw [hca]; exact huser) (w / pageSize)
      rw [hca] at hend
      have hal := hpage.aligned
      have := hend le_rfl (Nat.lt_succ_self _)
      simp only [pageSize] at this hal ⊢
      omega
    · exact ih hu w hw

theorem PagesLoaded.swollen {k : ℕ} (h : PagesLoaded pages s s') (hbelow : ∀ va ∈ pages, va + pageSize ≤ mi.higherHalfBase)
    (hk : k + pages.length < 2 ^ 31) (hs : Swollen mi k s.kern) : Swollen mi (k + pages.length) s'.kern := by
  induction h generalizing k with
  | nil s => exact hs
  | @cons va flags pages s s₁ s' _ hpage _ ih =>
    rw [List.length_cons] at hk ⊢
    have hs₁ := page_swollen hpage (hbelow va List.mem_cons_self) (by omega) hs
    have := ih (fun w hw => hbelow w (List.mem_cons_of_mem _ hw)) (k := k + 1) (by omega) hs₁
    rwa [show k + (pages.length + 1) = k + 1 + pages.length by omega]

theorem not_userBelow_of_swollen {k : ℕ} {t : BinaryTree (ℕ × VmmAllocation)} (hk : k < 2 ^ 31) (hs : Swollen mi k t) :
    ¬ UserBelow mi t := by
  intro hu
  obtain ⟨c, hc, huser, _, _, hcount⟩ := hs
  have hpos : 0 < c.2.pageCount := by omega
  have hlast := hu c hc huser (c.2.virtualAddr / pageSize + (c.2.pageCount - 1)) (Nat.le_add_right _ _)
    (Nat.add_lt_add_left (Nat.sub_lt hpos Nat.one_pos) _)
  have hlt := mi.higherHalfBase_lt
  simp only [pageSize] at hlast
  omega

/-- **Necessary, in the kernel's context.** -/
theorem PagesLoaded.kernel (h : PagesLoaded pages s s') (hf : FreeOk s.free) (hk : KernelTree mi s.free s.kern)
    (hbelow : ∀ va ∈ pages, va + pageSize ≤ mi.higherHalfBase) (hu : UserBelow mi s'.kern) : PagesOk mi s.kern pages := by
  induction h with
  | nil s => exact ⟨hbelow, .nil, fun va hva => absurd hva List.not_mem_nil⟩
  | @cons va flags pages s s₁ s' huser hpage hpages ih =>
    have hva := hbelow va List.mem_cons_self
    have hrest : ∀ w ∈ pages, w + pageSize ≤ mi.higherHalfBase := fun w hw => hbelow w (List.mem_cons_of_mem _ hw)
    have hf₁ := (hpage.free hf).1
    cases hfound : descend (startDir va) s.kern with
    | some c =>
      -- the empty record that is found swells, and stays so to the end
      have hlen : pages.length ≤ 2 ^ 20 := by
        refine hpages.length_le hf₁ fun w hw => ?_
        have := hrest w hw
        have := mi.higherHalfBase_lt
        omega
      have hswollen := hpages.swollen hrest (by omega) (page_bad hpage hf hk hva hfound)
      exact absurd hu (not_userBelow_of_swollen (by omega) hswollen)
    | none =>
      obtain ⟨hk₁, hsearch⟩ := page_good hpage huser hf hk hva hfound
      have hok := ih hf₁ hk₁ hrest hu
      refine ⟨hbelow, List.pairwise_cons.2 ⟨fun w hw => ((hsearch w).1 (hok.unused w hw)).2, hok.order⟩, fun w hw => ?_⟩
      rcases List.mem_cons.1 hw with rfl | hw
      · exact hfound
      · exact ((hsearch w).1 (hok.unused w hw)).1

end Pages

/-! ## The loader -/

section Loader

variable {A : Allocator} {mi : KernelMeminfo} {cur : Current} {kernPagingCtx : PagingContext} {header : Hdr} {rawElf : Mem}
  {m m' : Machine} {kern kern' task task' : VmmContext} {lk lu : List (ℕ × Area)} {tk tu : BinaryTree (ℕ × VmmAllocation)}

/-- **User pages stay in the user half exactly when** every page that the file asks for is there, none of them comes after the
page before it, and the kernel's tree has no record at any of them. -/
theorem user_half (hb : Both ⟨m, kern, task, 0⟩ lk tk lu tu) (hf : FreeOk lu) (hk : KernelTree mi lu tk) (hu : UserBelow mi tu)
    (hok : elfLoad A mi cur kernPagingCtx header rawElf m kern task = .ok (m', kern', task')) :
    (∃ tk' tu', TreeAt m'.heap.node kern'.allocations tk' ∧ TreeAt m'.heap.node task'.allocations tu' ∧
      UserBelow mi tk' ∧ UserBelow mi tu') ↔ PagesOk mi tk (loadedPages header rawElf) := by
  obtain ⟨lk', tk', lu', tu', hb', hpages⟩ := elfLoad_pages hb hok
  refine ⟨fun hbelow => ?_, fun hpok => ?_⟩
  · obtain ⟨tk'', tu'', hkt, hut, hkb, hub⟩ := hbelow
    obtain rfl := hkt.unique hb'.kern.tree
    obtain rfl := hut.unique hb'.task.tree
    exact hpages.kernel hf hk (hpages.in_user_half hub) hkb
  · exact ⟨tk', tu', hb'.kern.tree, hb'.task.tree, hpages.userBelow hf hk hu hpok⟩

end Loader

/-! ### Concrete files -/

section Concrete

/-- the kernel's context with the stack of the first task, and a clone of it -/
def withStack : Heap × VmmContext × ℕ :=
  returned (emptyHeap, ⟨0, 0⟩, 0) (vmmMapPages .top .atOneMegabyte fresh.1 fresh.2 0 0x900000 10 3)

def cloned : Heap × VmmContext := returned (emptyHeap, ⟨0, 0⟩) (vmmCloneContext .top withStack.1 withStack.2.1)

def booted : Machine := ⟨cloned.1, someUsed, blank, fun _ => 0⟩

def bootedCurrent : Current := ⟨withStack.2.1, context⟩

def bootedKernelList : List (ℕ × Area) := listOf ⟨cloned.1, withStack.2.1⟩
def bootedKernelTree : BinaryTree (ℕ × VmmAllocation) := treeOf ⟨cloned.1, withStack.2.1⟩
def clonedList : List (ℕ × Area) := listOf ⟨cloned.1, cloned.2⟩
def clonedTree : BinaryTree (ℕ × VmmAllocation) := treeOf ⟨cloned.1, cloned.2⟩

theorem both_booted (fileSize : ℕ) :
    Both ⟨booted, withStack.2.1, cloned.2, fileSize⟩ bootedKernelList bootedKernelTree clonedList clonedTree := by
  have hk : Shape ⟨cloned.1, withStack.2.1⟩ bootedKernelList bootedKernelTree := by decide +kernel
  have ht : Shape ⟨cloned.1, cloned.2⟩ clonedList clonedTree := by decide +kernel
  have hkern : Rep cloned.1 withStack.2.1 bootedKernelList bootedKernelTree :=
    ⟨hk.list, hk.tree, by decide +kernel, by decide +kernel⟩
  have htask : Rep cloned.1 cloned.2 clonedList clonedTree := ⟨ht.list, ht.tree, by decide +kernel, by decide +kernel⟩
  exact ⟨hkern, htask, by decide +kernel⟩

theorem clonedList_ok : FreeOk clonedList := by
  have hal : ∀ c ∈ clonedList, c.2.virtualAddr % pageSize = 0 := by decide +kernel
  have hpos : ∀ c ∈ clonedList, 0 < c.2.pageCount := by decide +kernel
  have hfits : ∀ c ∈ clonedList, c.2.virtualAddr + c.2.pageCount * pageSize ≤ 2 ^ 32 := by decide +kernel
  exact ⟨fun c hc => ⟨hal c hc, hpos c hc, hfits c hc⟩, by decide +kernel⟩

/-- the stack is in the user half of the kernel's tree, and not free in the clone -/
theorem bootedKernelTree_ok : KernelTree .atOneMegabyte clonedList bootedKernelTree := by
  have hsup : ∀ c ∈ cells bootedKernelTree, c.2.flags &&& pageFlagUser = 0 := by decide +kernel
  have hlow : ∀ c ∈ cells bootedKernelTree, c.2.virtualAddr < 0xC0000000 →
      freeCover clonedList (c.2.virtualAddr / pageSize) = 0 := by decide +kernel
  refine ⟨⟨_, _, _, rfl, by decide +kernel⟩, by decide +kernel, fun c hc hbase => .inr ?_, fun c hc huser => absurd (hsup c hc) huser⟩
  unfold Free
  rw [hlow c hc hbase]
  exact lt_irrefl 0

theorem clonedTree_below : UserBelow .atOneMegabyte clonedTree := by
  have hsup : ∀ c ∈ cells clonedTree, c.2.flags &&& pageFlagUser = 0 := by decide +kernel
  exact fun c hc huser => absurd (hsup c hc) huser

/-- a file that is one program header and the two bytes after it, to be loaded at `vaddr` -/
def oneSegment (vaddr : ℕ) : Mem := ofWords [1, 32, vaddr, vaddr, 2, 3, 6, 4096, 0x0101]

def oneHeader : Hdr := ⟨0, 32, 1⟩

/-- what the loader makes of it -/
def loadedAt (vaddr : ℕ) : Machine × VmmContext × VmmContext :=
  returned (booted, withStack.2.1, cloned.2)
    (elfLoad .top .atOneMegabyte bootedCurrent context oneHeader (oneSegment vaddr) booted withStack.2.1 cloned.2)

theorem loadedAt_user : elfLoad .top .atOneMegabyte bootedCurrent context oneHeader (oneSegment 0x400000) booted withStack.2.1
    cloned.2 = .ok (loadedAt 0x400000) := eq_returned _ (by decide +kernel)

theorem loadedAt_kernel : elfLoad .top .atOneMegabyte bootedCurrent context oneHeader (oneSegment 0xD0000000) booted withStack.2.1
    cloned.2 = .ok (loadedAt 0xD0000000) := eq_returned _ (by decide +kernel)

theorem user_half_below :
    ∃ m' kern' task', elfLoad .top .atOneMegabyte bootedCurrent context oneHeader (oneSegment 0x400000) booted withStack.2.1
        cloned.2 = .ok (m', kern', task') ∧
      ∃ tk' tu', TreeAt m'.heap.node kern'.allocations tk' ∧ TreeAt m'.heap.node task'.allocations tu' ∧
        UserBelow .atOneMegabyte tk' ∧ UserBelow .atOneMegabyte tu' := by
  refine ⟨_, _, _, loadedAt_user, ?_⟩
  have hpages : PagesOk .atOneMegabyte bootedKernelTree (loadedPages oneHeader (oneSegment 0x400000)) :=
    ⟨by decide +kernel, by decide +kernel, by decide +kernel⟩
  exact (user_half (both_booted 0) clonedList_ok bootedKernelTree_ok clonedTree_below loadedAt_user).2 hpages

/-- **A segment at 0xD0000000 is mapped for user mode.** -/
theorem kernel_segment :
    Both ⟨booted, withStack.2.1, cloned.2, 0⟩ bootedKernelList bootedKernelTree clonedList clonedTree ∧ FreeOk clonedList ∧
    KernelTree .atOneMegabyte clonedList bootedKernelTree ∧ UserBelow .atOneMegabyte clonedTree ∧
    ∃ m' kern' task', elfLoad .top .atOneMegabyte bootedCurrent context oneHeader (oneSegment 0xD0000000) booted withStack.2.1
        cloned.2 = .ok (m', kern', task') ∧
      ∃ tu', TreeAt m'.heap.node task'.allocations tu' ∧ ¬ UserBelow .atOneMegabyte tu' := by
  have hload := loadedAt_kernel
  generalize loadedAt 0xD0000000 = loaded at hload
  obtain ⟨m', kern', task'⟩ := loaded
  obtain ⟨_, _, _, tu', hb', hpages⟩ := elfLoad_pages (both_booted 0) hload
  refine ⟨both_booted 0, clonedList_ok, bootedKernelTree_ok, clonedTree_below, m', kern', task', hload, ?_⟩
  refine ⟨tu', hb'.task.tree, fun hu => ?_⟩
  have hpage : loadedPages oneHeader (oneSegment 0xD0000000) = [0xD0000000] := by decide +kernel
  rw [hpage] at hpages
  have hend := hpages.in_user_half hu 0xD0000000 List.mem_cons_self
  revert hend
  decide +kernel

end Concrete

end Gubos.Elf
