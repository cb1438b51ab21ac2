/-
The bytes of a segment (`handle_loadable_segment` in `elf/loader.c`).

In each round `memcpy` copies what is left of the file, not what is left of it in the page, and `memset` writes all the zeros at
once. Only the page of the round is mapped: the first byte beyond it is a page fault at a page that nobody has, and the
handler panics.

- `loadPage_ok`: a round whose bytes stay in its page returns, and writes them to the page's frame;
- `loadPage_fits`: a round that returns had its bytes in its page, if the page after it is free;
- `segment_image`: the segment is loaded as it should be exactly when it is empty, or its bytes fit in one page, or its file part
  is one page and the rest fits in a second; and it is not at address 0, does not reach the last page of the address space,
  and no frame is 0;
- `two_page_segment`: a file part of 4097 bytes.

Premises: the contexts are in cells of their own with sound free lists, the current task has the kernel's allocations, both
tables are `Placed`, and the heap answers ten more requests (`Setting`); the pages are free in both contexts (`FreePage`).
-/
import Gubos.Elf.Stores
import Gubos.Mm.Totality

namespace Gubos.Elf

open Gubos.Core Gubos.Paging Gubos.Vmm Gubos.Pmm Gubos.PageFault

/-! ## One round -/

/-- before a round -/
structure Ready (A : Allocator) (mi : KernelMeminfo) (cur : Current) (kernPagingCtx : PagingContext) (N : ℕ) (s : Loading)
    (lk : List (ℕ × Area)) (tk : BinaryTree (ℕ × VmmAllocation)) (lu : List (ℕ × Area)) (tu : BinaryTree (ℕ × VmmAllocation)) :
    Prop where
  both : Both s lk tk lu tu
  kernRoot : tk ≠ .nil
  taskRoot : tu ≠ .nil
  current : cur.vmmContext.allocations = s.kernVmmCtx.allocations
  tables : Placed mi cur.pagingCtx
  kernTables : Placed mi kernPagingCtx
  answers : A.Answers N

/-- a page that can be mapped in both contexts, and that no record or table entry has -/
structure PageReady (mi : KernelMeminfo) (cur : Current) (s : Loading) (lk : List (ℕ × Area))
    (tk : BinaryTree (ℕ × VmmAllocation)) (lu : List (ℕ × Area)) (va : ℕ) : Prop where
  kern : Offers lk va
  task : Offers lu va
  record : ∀ c ∈ cells tk, findDir va c.2 ≠ .stop
  unmapped : Unmapped mi s.machine.tables cur.pagingCtx va

/-- how many zeros a round writes -/
def zeros (progHdr : ProgHdr) (fileSize : ℕ) : ℕ := if fileSize < pageSize then progHdr.memsz - progHdr.filesz else 0

/-- what a round does: the bytes are in the frame, and pages that were not mapped are not -/
structure RoundDone (mi : KernelMeminfo) (cur : Current) (progHdr : ProgHdr) (rawElf : Mem) (i va pa : ℕ) (bm : Bitmap)
    (s s' : Loading) : Prop where
  bitmap : s'.machine.bitmap = bm
  memory : s'.machine.memory = fill (fill s.machine.memory pa s.fileSize fun k =>
    rawElf (u32 (progHdr.offset + i * pageSize + k))) (pa + s.fileSize) (zeros progHdr s.fileSize) fun _ => 0
  fileSize : s'.fileSize = if s.fileSize < pageSize then s.fileSize else s.fileSize - pageSize
  others : OthersKept mi cur.pagingCtx va s.machine.tables s'.machine.tables
  size : s'.machine.heap.arena.live.length ≤ s.machine.heap.arena.live.length + 5
  root : s'.kernVmmCtx.allocations = s.kernVmmCtx.allocations

section Round

variable {A : Allocator} {mi : KernelMeminfo} {cur : Current} {kernPagingCtx : PagingContext} {progHdr : ProgHdr}
  {rawElf : Mem} {s s' : Loading} {N i va pa x : ℕ} {bm : Bitmap} {lk lu : List (ℕ × Area)}
  {tk tu : BinaryTree (ℕ × VmmAllocation)} {h : Heap} {ctx ctx' : VmmContext} {t t' : BinaryTree (ℕ × VmmAllocation)}
  {a : VmmAllocation}

/-- a lookup depends on the tree of the context only -/
theorem vmmFindAllocation_congr (hroot : ctx.allocations = ctx'.allocations) (x : ℕ) :
    vmmFindAllocation h ctx x = vmmFindAllocation h ctx' x := by
  unfold vmmFindAllocation
  rw [hroot]

/-- no record is found if none contains the address -/
theorem descend_eq_none (hnone : ∀ c ∈ cells t, findDir x c.2 ≠ .stop) : descend (findDir x) t = none := by
  cases hd : descend (findDir x) t with
  | none => rfl
  | some c =>
    obtain ⟨hc, hstop⟩ := descend_some hd
    exact absurd hstop (hnone c hc)

/-- the record of a page that was added is found, if the page is not the last of the address space -/
theorem lookup_page {lk : List (ℕ × Area)} {flags : ℕ} (hr : Rep h ctx lk t') (hg : Grown t ⟨va, pa, 1, flags⟩ t')
    (hnone : ∀ c ∈ cells t, findDir va c.2 ≠ .stop) (hend : va + pageSize < 2 ^ 32) :
    vmmFindAllocation h ctx va = .ok ⟨va, pa, 1, flags⟩ := by
  have hlt : va < endOf ⟨va, pa, 1, flags⟩ := by
    unfold endOf
    dsimp only
    rw [Nat.one_mul, u32_of_lt hend]
    exact Nat.lt_add_of_pos_right (by decide)
  obtain ⟨p, hp⟩ := hg.found_new (descend_eq_none hnone) hlt
  rw [vmmFindAllocation_eq hr, hp]
  rfl

theorem segmentFlags_present (progHdr : ProgHdr) : segmentFlags progHdr < 4096 ∧ (segmentFlags progHdr).testBit 0 = true := by
  unfold segmentFlags elfFlagsToPagingFlags
  split_ifs
  · decide
  · decide

/-- what `memset` does, if the zeros stay in the page -/
theorem zeroRest_backed {m : Machine} {fileSize : ℕ} (hp : Placed mi cur.pagingCtx) (ha : Backing a) (hva : va % pageSize = 0)
    (hend : va + pageSize < 2 ^ 32) (hle : fileSize + zeros progHdr fileSize ≤ pageSize)
    (hfound : vmmFindAllocation m.heap cur.vmmContext va = .ok a)
    (hopen : Unmapped mi m.tables cur.pagingCtx va ∨ Maps mi m.tables cur.pagingCtx va a.physicalAddr) :
    ∃ tables, zeroRest mi cur progHdr m va fileSize = .ok ({ m with
          tables := tables
          memory := fill m.memory (a.physicalAddr + fileSize) (zeros progHdr fileSize) fun _ => 0 },
        if fileSize < pageSize then fileSize else fileSize - pageSize) ∧
      OthersKept mi cur.pagingCtx va m.tables tables := by
  unfold zeroRest zeros at *
  by_cases hpart : fileSize < pageSize
  · simp only [if_pos hpart] at hle ⊢
    by_cases hmore : progHdr.filesz < progHdr.memsz
    · rw [if_pos hmore]
      obtain ⟨tables, hset, _, hkept⟩ := @memcpy_backed mi cur m a va fileSize (progHdr.memsz - progHdr.filesz) (fun _ => 0) hp ha
        hva hend.le hle hfound hopen
      have haddr : u32 (va + fileSize) = va + fileSize := by
        refine u32_of_lt ?_
        simp only [pageSize] at hend hpart
        omega
      refine ⟨tables, bind_ok.2 ⟨_, ?_, rfl⟩, hkept⟩
      rw [haddr, memset_eq]
      exact hset
    · refine ⟨m.tables, ?_, .refl _ _⟩
      rw [if_neg hmore, Nat.sub_eq_zero_of_le (not_lt.1 hmore), fill_zero]
  · refine ⟨m.tables, ?_, .refl _ _⟩
    simp only [if_neg hpart, fill_zero]

/-- **A round** whose bytes stay in the page. -/
theorem loadPage_ok (hs : Ready A mi cur kernPagingCtx N s lk tk lu tu) (hpage : PageReady mi cur s lk tk lu va)
    (hlen : s.machine.heap.arena.live.length + 5 ≤ N) (hi : u32 (progHdr.vaddr + i * pageSize) = va) (hva : va % pageSize = 0)
    (h0 : va ≠ 0) (hend : va + pageSize < 2 ^ 32) (hpmm : pmmAllocPage s.machine.bitmap = .ok (pa, bm)) (hpa : pa ≠ 0)
    (hle : s.fileSize + zeros progHdr s.fileSize ≤ pageSize) :
    ∃ s', loadPage A mi cur kernPagingCtx progHdr rawElf s i = .ok s' ∧ RoundDone mi cur progHdr rawElf i va pa bm s s' := by
  obtain ⟨hpal, _⟩ := allocPage_aligned hpmm
  obtain ⟨hflags, hpresent⟩ := segmentFlags_present progHdr
  have halign : pagingAlignAddr va = va := Nat.div_mul_cancel (Nat.dvd_of_mod_eq_zero hva)
  have hlt : va < 2 ^ 32 := lt_of_le_of_lt (Nat.le_add_right _ _) hend
  have ha : Backing ⟨va, pa, 1, segmentFlags progHdr⟩ := ⟨Nat.one_ne_zero, hpa, hpal, hflags, hpresent⟩
  have hb := hs.both
  -- the kernel's context
  obtain ⟨h₁, kern₁, hmap₁, hsize₁, hroot₁⟩ := @map_returns A mi _ _ lk tk va pa (segmentFlags progHdr) N hb.kern hs.kernRoot
    hpage.kern hs.answers (by omega) h0 hlt hva hpal
  obtain ⟨_, _, _, lk₁, tk₁, hk₁, hgrown₁, hf₁⟩ := map_frame hb.kern hmap₁
  obtain ⟨hu₁, hapart₁⟩ := hb.task.frame hf₁ hb.apart
  have hfound₁ : vmmFindAllocation h₁ cur.vmmContext va = .ok ⟨va, pa, 1, segmentFlags progHdr⟩ := by
    rw [vmmFindAllocation_congr (hs.current.trans hroot₁.symm)]
    exact lookup_page hk₁ hgrown₁ hpage.record hend
  obtain ⟨tables₁, hcopy, hopen, hkept₁⟩ := @memcpy_backed mi cur ⟨h₁, bm, s.machine.tables, s.machine.memory⟩ _ va 0 s.fileSize
    (fun k => rawElf (u32 (progHdr.offset + i * pageSize + k))) hs.tables ha hva hend.le (by omega) hfound₁ (Or.inl hpage.unmapped)
  rw [Nat.add_zero, Nat.add_zero] at hcopy
  -- the task's context
  obtain ⟨h₂, task₂, hmap₂, hsize₂, _⟩ := @map_returns A mi h₁ _ lu tu va pa (segmentFlags progHdr) N hu₁ hs.taskRoot
    hpage.task hs.answers (by omega) h0 hlt hva hpal
  obtain ⟨_, _, _, lu₂, tu₂, hu₂, hgrown₂, hf₂⟩ := map_frame hu₁ hmap₂
  obtain ⟨hk₂, hapart₂⟩ := hk₁.frame hf₂ fun p hp hp' => hapart₁ p hp' hp
  have hfound₂ : vmmFindAllocation h₂ cur.vmmContext va = .ok ⟨va, pa, 1, segmentFlags progHdr⟩ := by
    rw [vmmFindAllocation_congr (hs.current.trans hroot₁.symm)]
    exact lookup_page hk₂ hgrown₁ hpage.record hend
  obtain ⟨tables₂, hzero, hkept₂⟩ := @zeroRest_backed mi cur progHdr va _ ⟨h₂, bm, tables₁, fill s.machine.memory pa s.fileSize
    fun k => rawElf (u32 (progHdr.offset + i * pageSize + k))⟩ s.fileSize hs.tables ha hva hend hle hfound₂ hopen
  -- the kernel's again
  obtain ⟨c, hstart⟩ := hgrown₁.start_found
  obtain ⟨h₃, kern₃, hunmap, hsize₃, hroot₃⟩ := @unmap_returns A mi h₂ kern₁ lk₁ tk₁ va N c hk₂ hs.answers (by omega) h0 hva hstart
  dsimp only at hcopy hzero hkept₁ hkept₂
  refine ⟨⟨⟨h₃, bm, pagingUnmapAddr mi kernPagingCtx tables₂ va, fill (fill s.machine.memory pa s.fileSize fun k =>
      rawElf (u32 (progHdr.offset + i * pageSize + k))) (pa + s.fileSize) (zeros progHdr s.fileSize) fun _ => 0⟩, kern₃, task₂,
      if s.fileSize < pageSize then s.fileSize else s.fileSize - pageSize⟩, ?_, ?_⟩
  · unfold loadPage
    dsimp only
    rw [hi, halign, hpmm]
    dsimp only [bind, Except.bind]
    rw [hmap₁]
    dsimp only
    rw [hcopy]
    dsimp only
    rw [hmap₂]
    dsimp only
    rw [hzero]
    dsimp only
    rw [hunmap]
  · exact ⟨rfl, rfl, rfl, fun x hx hne hu => (hkept₂ x hx hne (hkept₁ x hx hne hu)).unmap hs.kernTables hlt,
      by dsimp only; omega, hroot₃.trans hroot₁⟩

/-- the root of a tree stays where it is -/
theorem grown_root_eq {h' : Heap} {q q' : ℕ} (hg : Grown t a t') (ht : t ≠ .nil) (hq : TreeAt h.node q t)
    (hq' : TreeAt h'.node q' t') : q' = q := by
  cases hg with
  | root htree _ =>
    subst htree
    exact hq'.1.trans hq.1.symm
  | leaf _ _ =>
    cases t with
    | nil => exact absurd rfl ht
    | node c tl tr =>
      unfold insertLeaf at hq'
      split at hq'
      · exact hq'.1.trans hq.1.symm
      · exact hq'.1.trans hq.1.symm

/-- the two times that a round writes, with the record of its page in the kernel's tree -/
theorem loadPage_stores (hs : Ready A mi cur kernPagingCtx N s lk tk lu tu) (hi : u32 (progHdr.vaddr + i * pageSize) = va)
    (hva : va % pageSize = 0) (hok : loadPage A mi cur kernPagingCtx progHdr rawElf s i = .ok s') :
    ∃ pa bm tk₁ h₁ h₂ m₁ m₂ f fileSize', Grown tk ⟨va, pa, 1, segmentFlags progHdr⟩ tk₁ ∧
      (∀ x, vmmFindAllocation h₁ cur.vmmContext x = .ok (found (descend (findDir x) tk₁))) ∧
      (∀ x, vmmFindAllocation h₂ cur.vmmContext x = .ok (found (descend (findDir x) tk₁))) ∧
      memcpy mi cur ⟨h₁, bm, s.machine.tables, s.machine.memory⟩ va f s.fileSize = .ok m₁ ∧
      zeroRest mi cur progHdr { m₁ with heap := h₂ } va s.fileSize = .ok (m₂, fileSize') := by
  obtain ⟨_, _, _, _, _, hloaded, _⟩ := loadPage_spec hs.both hok
  have halign : pagingAlignAddr va = va := Nat.div_mul_cancel (Nat.dvd_of_mod_eq_zero hva)
  have hne : va ≠ 0 := by
    have := hloaded.ne_zero
    unfold pageAt at this
    rwa [hi, halign] at this
  obtain ⟨⟨pa, bm⟩, _, hok⟩ := bind_ok.1 hok
  obtain ⟨⟨h₁, kern₁, r₁⟩, hkern, hok⟩ := bind_ok.1 hok
  obtain ⟨m₁, hcopy, hok⟩ := bind_ok.1 hok
  obtain ⟨⟨h₂, task₂, r₂⟩, htask, hok⟩ := bind_ok.1 hok
  obtain ⟨⟨m₂, fileSize'⟩, hzero, _⟩ := bind_ok.1 hok
  have hheap := memcpy_heap hcopy
  dsimp only at hkern hheap htask
  rw [hi, halign] at hkern
  rw [hi] at hcopy hzero
  rw [hheap] at htask
  obtain ⟨_, _, haddr₁, lk₁, tk₁, hk₁, hgrown₁, hf₁⟩ := map_frame hs.both.kern hkern
  obtain ⟨hu₁, hapart₁⟩ := hs.both.task.frame hf₁ hs.both.apart
  obtain ⟨_, _, _, lu₂, tu₂, hu₂, _, hf₂⟩ := map_frame hu₁ htask
  obtain ⟨hk₂, _⟩ := hk₁.frame hf₂ fun p hp hp' => hapart₁ p hp' hp
  have hroot : cur.vmmContext.allocations = kern₁.allocations :=
    hs.current.trans (grown_root_eq hgrown₁ hs.kernRoot hs.both.kern.tree hk₁.tree).symm
  rw [haddr₁ hne] at hgrown₁
  refine ⟨pa, bm, tk₁, h₁, h₂, m₁, m₂, _, fileSize', hgrown₁, fun x => ?_, fun x => ?_, hcopy, hzero⟩
  · rw [vmmFindAllocation_congr hroot, vmmFindAllocation_eq hk₁]
  · rw [vmmFindAllocation_congr hroot, vmmFindAllocation_eq hk₂]

/-- a record of one page contains no address of another -/
theorem findDir_page {flags : ℕ} (hx : va ≤ x → va + pageSize ≤ x) : findDir x ⟨va, pa, 1, flags⟩ ≠ .stop := by
  intro hstop
  obtain ⟨hge, hlt⟩ := findDir_stop.1 hstop
  have hle : endOf ⟨va, pa, 1, flags⟩ ≤ va + 1 * pageSize := endOf_le _
  have := hx hge
  omega

/-- no record of the tree contains the address, after another page got its record -/
theorem grown_none {flags : ℕ} (hg : Grown t ⟨va, pa, 1, flags⟩ t') (hnone : ∀ c ∈ cells t, findDir x c.2 ≠ .stop)
    (hx : va ≤ x → va + pageSize ≤ x) : ∀ c ∈ cells t', findDir x c.2 ≠ .stop := by
  intro c hc
  rcases hg.mem c hc with hnew | hold
  · rw [hnew]
    exact findDir_page hx
  · exact hnone c hold

/-- **A round that returns** had its bytes in its page, if nobody has the page after it. -/
theorem loadPage_fits (hs : Ready A mi cur kernPagingCtx N s lk tk lu tu) (hi : u32 (progHdr.vaddr + i * pageSize) = va)
    (hva : va % pageSize = 0) (hend : va + 2 * pageSize ≤ 2 ^ 32) (hpage : ∀ c ∈ cells tk, findDir va c.2 ≠ .stop)
    (hnext : ∀ c ∈ cells tk, findDir (va + pageSize) c.2 ≠ .stop)
    (hu : Unmapped mi s.machine.tables cur.pagingCtx (va + pageSize))
    (hok : loadPage A mi cur kernPagingCtx progHdr rawElf s i = .ok s') :
    s.fileSize + zeros progHdr s.fileSize ≤ pageSize := by
  obtain ⟨pa, bm, tk₁, h₁, h₂, m₁, m₂, f, fileSize', hgrown, hfound₁, hfound₂, hcopy, hzero⟩ := loadPage_stores hs hi hva hok
  have hlt : va < endOf ⟨va, pa, 1, segmentFlags progHdr⟩ := by
    unfold endOf
    dsimp only
    rw [Nat.one_mul, u32_of_lt (by simp only [pageSize] at hend ⊢; omega)]
    exact Nat.lt_add_of_pos_right (by decide)
  obtain ⟨p, hp⟩ := hgrown.found_new (descend_eq_none hpage) hlt
  dsimp only at hp
  have hnone : descend (findDir (va + pageSize)) tk₁ = none := descend_eq_none (grown_none hgrown hnext fun _ => le_rfl)
  have hflags := (segmentFlags_present progHdr).1
  have hva₁ := hfound₁ va
  have hva₂ := hfound₂ va
  have hnext₁ := hfound₁ (va + pageSize)
  have hnext₂ := hfound₂ (va + pageSize)
  rw [hp] at hva₁ hva₂
  rw [hnone] at hnext₁ hnext₂
  rw [← Nat.add_zero va] at hcopy
  obtain ⟨hle, hkept⟩ := memcpy_stops (m := ⟨h₁, bm, s.machine.tables, s.machine.memory⟩) hs.tables hva hend hva₁ hflags hu hnext₁ rfl (Nat.zero_le _) hcopy
  rw [Nat.zero_add] at hle
  have hne : (va + pageSize) / pageSize ≠ va / pageSize := by
    simp only [pageSize]
    omega
  have hu' := hkept (va + pageSize) (by simp only [pageSize] at hend ⊢; omega) hne hu
  unfold zeros
  by_cases hpart : s.fileSize < pageSize
  · rw [if_pos hpart]
    unfold zeroRest at hzero
    rw [if_pos hpart] at hzero
    by_cases hmore : progHdr.filesz < progHdr.memsz
    · rw [if_pos hmore] at hzero
      obtain ⟨m₃, hset, _⟩ := bind_ok.1 hzero
      have haddr : u32 (va + s.fileSize) = va + s.fileSize := by
        refine u32_of_lt ?_
        simp only [pageSize] at hend hpart
        omega
      rw [haddr, memset_eq] at hset
      exact (memcpy_stops (m := ⟨h₂, m₁.bitmap, m₁.tables, m₁.memory⟩) hs.tables hva hend hva₂ hflags hu' hnext₂ rfl hle hset).1
    · rw [Nat.sub_eq_zero_of_le (not_lt.1 hmore)]
      exact hle
  · rw [if_neg hpart]
    exact hle

/-- **The last page of the address space**: its record is not found, and no byte is written. -/
theorem loadPage_last (hs : Ready A mi cur kernPagingCtx N s lk tk lu tu) (hi : u32 (progHdr.vaddr + i * pageSize) = va)
    (hva : va % pageSize = 0) (hend : va + pageSize = 2 ^ 32) (hpage : ∀ c ∈ cells tk, findDir va c.2 ≠ .stop)
    (hu : Unmapped mi s.machine.tables cur.pagingCtx va)
    (hok : loadPage A mi cur kernPagingCtx progHdr rawElf s i = .ok s') :
    s.fileSize + zeros progHdr s.fileSize = 0 := by
  obtain ⟨pa, bm, tk₁, h₁, h₂, m₁, m₂, f, fileSize', hgrown, hfound₁, hfound₂, hcopy, hzero⟩ := loadPage_stores hs hi hva hok
  have hnone : descend (findDir va) tk₁ = none := by
    refine descend_eq_none fun c hc => ?_
    rcases hgrown.mem c hc with hnew | hold
    · rw [hnew]
      intro hstop
      have hlt := (findDir_stop.1 hstop).2
      have hzero : endOf ⟨va, pa, 1, segmentFlags progHdr⟩ = 0 := by
        unfold endOf u32
        dsimp only
        rw [Nat.one_mul, hend]
        norm_num
      omega
    · exact hpage c hold
  have hva₁ := hfound₁ va
  have hva₂ := hfound₂ va
  rw [hnone] at hva₁ hva₂
  rw [← Nat.add_zero va] at hcopy
  have hpos : 0 < pageSize := by decide
  have hcopied : s.fileSize = 0 :=
    memcpy_refused (m := ⟨h₁, bm, s.machine.tables, s.machine.memory⟩) hva hend.le hpos hu hva₁ rfl hcopy
  unfold zeros
  rw [hcopied] at hcopy hzero ⊢
  cases hcopy
  rw [if_pos hpos, Nat.zero_add]
  unfold zeroRest at hzero
  rw [if_pos hpos] at hzero
  by_cases hmore : progHdr.filesz < progHdr.memsz
  · rw [if_pos hmore] at hzero
    obtain ⟨m₃, hset, _⟩ := bind_ok.1 hzero
    have haddr : u32 (va + 0) = va + 0 := by
      refine u32_of_lt ?_
      simp only [pageSize] at hend
      omega
    rw [haddr, memset_eq] at hset
    exact memcpy_refused (m := ⟨h₂, bm, s.machine.tables, s.machine.memory⟩) hva hend.le hpos hu hva₂ rfl hset
  · exact Nat.sub_eq_zero_of_le (not_lt.1 hmore)

/-! ## After a round -/

theorem ne_nil_of_mem {c : ℕ × VmmAllocation} (hc : c ∈ cells t) : t ≠ .nil := by
  intro hnil
  rw [hnil] at hc
  exact List.not_mem_nil hc

theorem grown_ne_nil (hg : Grown t a t') : t' ≠ .nil := by
  obtain ⟨c, hc, _⟩ := hg.has
  exact ne_nil_of_mem hc

/-- the record that moves on contains no other page -/
theorem moved_none {c : ℕ × VmmAllocation} {flags : ℕ} (hg : Grown t ⟨va, pa, 1, flags⟩ t')
    (hc : c ∈ cells t') (hcva : c.2.virtualAddr = va) (hpage : ∀ c ∈ cells t, findDir va c.2 ≠ .stop)
    (hnone : ∀ c ∈ cells t, findDir x c.2 ≠ .stop) (hend : va + pageSize < 2 ^ 32) (hx : va ≤ x → va + pageSize ≤ x) :
    ∀ d ∈ cells (t'.map (setCell c.1 (shrunk c.2 1))), findDir x d.2 ≠ .stop := by
  intro d hd
  rw [cells_map] at hd
  obtain ⟨e, he, rfl⟩ := List.mem_map.1 hd
  unfold setCell
  split_ifs
  · intro hstop
    obtain ⟨hge, hlt⟩ := findDir_stop.1 hstop
    dsimp only at hge hlt
    rw [endOf_shrunk c.2 (by norm_num)] at hlt
    have hva : (shrunk c.2 1).virtualAddr = va + pageSize := by
      unfold shrunk
      rw [hcva, Nat.mul_one, u32_of_lt hend]
    rw [hva] at hge
    rcases hg.mem c hc with hnew | hold
    · have hle := endOf_le c.2
      rw [hnew] at hle hlt
      dsimp only at hle
      omega
    · refine hpage c hold (findDir_stop.2 ⟨hcva.le, ?_⟩)
      omega
  · exact grown_none hg hnone hx e he

theorem pageAt_of_aligned (hi : u32 (progHdr.vaddr + i * pageSize) = va) (hva : va % pageSize = 0) : pageAt progHdr i = va := by
  unfold pageAt
  rw [hi]
  exact Nat.div_mul_cancel (Nat.dvd_of_mod_eq_zero hva)

/-- the new record of the task -/
theorem descend_new {flags : ℕ} (hg : Grown tu ⟨va, pa, 1, flags⟩ tu') (hnone : ∀ c ∈ cells tu, findDir va c.2 ≠ .stop)
    (hend : va + pageSize < 2 ^ 32) : ∃ p, descend (findDir va) tu' = some (p, ⟨va, pa, 1, flags⟩) := by
  refine hg.found_new (descend_eq_none hnone) ?_
  unfold endOf
  dsimp only
  rw [Nat.one_mul, u32_of_lt hend]
  exact Nat.lt_add_of_pos_right (by decide)

/-- a round that returns has added the record of its page, which is found -/
theorem round_record (hb : Both s lk tk lu tu) (hi : u32 (progHdr.vaddr + i * pageSize) = va) (hva : va % pageSize = 0)
    (hend : va + pageSize < 2 ^ 32) (hnone : ∀ c ∈ cells tu, findDir va c.2 ≠ .stop)
    (hpmm : pmmAllocPage s.machine.bitmap = .ok (pa, bm))
    (hok : loadPage A mi cur kernPagingCtx progHdr rawElf s i = .ok s') :
    ∃ lk' tk' lu' tu' p, Both s' lk' tk' lu' tu' ∧ Grown tu ⟨va, pa, 1, segmentFlags progHdr⟩ tu' ∧
      descend (findDir va) tu' = some (p, ⟨va, pa, 1, segmentFlags progHdr⟩) := by
  obtain ⟨lk', tk', lu', tu', hb', _, _, pa', bm', hpmm', hgrown⟩ := loadPage_spec hb hok
  rw [hpmm] at hpmm'
  cases hpmm'
  rw [pageAt_of_aligned hi hva] at hgrown
  obtain ⟨p, hp⟩ := descend_new hgrown hnone hend
  exact ⟨lk', tk', lu', tu', p, hb', hgrown, hp⟩

/-- **After a round** the state is ready for the next, and other free pages can be loaded. -/
theorem round_next (hs : Ready A mi cur kernPagingCtx N s lk tk lu tu) (hfk : FreeOk lk) (hfu : FreeOk lu)
    (hi : u32 (progHdr.vaddr + i * pageSize) = va) (hva : va % pageSize = 0) (hend : va + pageSize < 2 ^ 32)
    (hpage : ∀ c ∈ cells tk, findDir va c.2 ≠ .stop) (hpmm : pmmAllocPage s.machine.bitmap = .ok (pa, bm))
    (hok : loadPage A mi cur kernPagingCtx progHdr rawElf s i = .ok s')
    (hdone : RoundDone mi cur progHdr rawElf i va pa bm s s') :
    ∃ lk' tk' lu' tu', Ready A mi cur kernPagingCtx N s' lk' tk' lu' tu' ∧
      Grown tu ⟨va, pa, 1, segmentFlags progHdr⟩ tu' ∧
      ∀ x < 2 ^ 32, x % pageSize = 0 → x ≠ va → Free lk (x / pageSize) → Free lu (x / pageSize) →
        (∀ c ∈ cells tk, findDir x c.2 ≠ .stop) → Unmapped mi s.machine.tables cur.pagingCtx x →
        PageReady mi cur s' lk' tk' lu' x := by
  obtain ⟨lk', tk', lu', tu', hb', hloaded, hoffers, pa', bm', hpmm', hgrown⟩ := loadPage_spec hs.both hok
  rw [hpmm] at hpmm'
  cases hpmm'
  rw [pageAt_of_aligned hi hva] at hloaded hoffers hgrown
  obtain ⟨pa₁, tk₁, c, hgrown₁, _, _, hfound, hcva, htk'⟩ := hloaded.trees
  have hkernRoot : tk' ≠ .nil := by
    have hmem : setCell c.1 (shrunk c.2 1) c ∈ cells tk' := by
      rw [htk', cells_map]
      exact List.mem_map_of_mem (descend_some hfound).1
    exact ne_nil_of_mem hmem
  refine ⟨lk', tk', lu', tu', ⟨hb', hkernRoot, grown_ne_nil hgrown, hs.current.trans hdone.root.symm, hs.tables, hs.kernTables,
    hs.answers⟩, hgrown, fun x hx hxal hne hkfree hufree hrecord hu => ?_⟩
  have hpages : x / pageSize ≠ va / pageSize := by
    simp only [pageSize] at hxal hva ⊢
    omega
  obtain ⟨hfu', hcover⟩ := hloaded.free hfu
  refine ⟨hoffers hfk x hxal hpages hkfree, offers_of_free hfu' hxal ?_, ?_, hdone.others x hx hpages hu⟩
  · have hother : Tiling.hit (va / pageSize, 1) (x / pageSize) = 0 := by
      rw [Tiling.hit_eq, if_neg (by dsimp only; omega)]
    have hsame := hcover (x / pageSize)
    rw [hother] at hsame
    unfold Free at hufree ⊢
    omega
  · rw [htk']
    refine moved_none hgrown₁ (descend_some hfound).1 hcva hpage hrecord hend fun hle => ?_
    simp only [pageSize] at hxal hva ⊢
    omega

end Round

/-! ## The segment -/

/-- the frame that the task's allocation gives the page of an address -/
def taskFrame (s : Loading) (addr : ℕ) : Option ℕ :=
  match vmmFindAllocation s.machine.heap s.vmmCtx (pagingAlignAddr addr) with
  | .ok a => if a.pageCount ≠ 0 ∧ a.physicalAddr ≠ 0 then some a.physicalAddr else none
  | .error _ => none

/-- the byte that the task sees -/
def taskByte (s : Loading) (addr : ℕ) : Option UInt8 :=
  (taskFrame s addr).map fun frame => s.machine.memory (frame + addr % pageSize)

/-- the task sees the bytes of the file and zeros after them, and bytes outside the pages of the segment are as before -/
structure Image (progHdr : ProgHdr) (rawElf : Mem) (m : Machine) (s : Loading) : Prop where
  file : ∀ k < progHdr.filesz, taskByte s (progHdr.vaddr + k) = some (rawElf (progHdr.offset + k))
  zero : ∀ k < progHdr.memsz, progHdr.filesz ≤ k → taskByte s (progHdr.vaddr + k) = some 0
  outside : ∀ x, (∀ k < progHdr.memsz, ∀ frame, taskFrame s (progHdr.vaddr + k) = some frame → x < frame ∨ frame + pageSize ≤ x) →
    s.machine.memory x = m.memory x

/-- the frames that `n` calls of `pmm_alloc_page` give -/
def allocFrames : ℕ → Bitmap → Except Fault (List ℕ)
  | 0, _ => .ok []
  | n + 1, bm => do
    let (frame, bm) ← pmmAllocPage bm
    let frames ← allocFrames n bm
    .ok (frame :: frames)

/-- a page that is free in both contexts: it is in both free lists, no record contains it, and no table maps it -/
structure FreePage (mi : KernelMeminfo) (cur : Current) (m : Machine) (lk : List (ℕ × Area)) (tk : BinaryTree (ℕ × VmmAllocation))
    (lu : List (ℕ × Area)) (tu : BinaryTree (ℕ × VmmAllocation)) (va : ℕ) : Prop where
  kern : Free lk (va / pageSize)
  task : Free lu (va / pageSize)
  kernRecord : ∀ c ∈ cells tk, findDir va c.2 ≠ .stop
  taskRecord : ∀ c ∈ cells tu, findDir va c.2 ≠ .stop
  unmapped : Unmapped mi m.tables cur.pagingCtx va

/-- the state that the kernel calls the loader in -/
structure Setting (A : Allocator) (mi : KernelMeminfo) (cur : Current) (kernPagingCtx : PagingContext) (m : Machine)
    (kern task : VmmContext) (lk : List (ℕ × Area)) (tk : BinaryTree (ℕ × VmmAllocation)) (lu : List (ℕ × Area))
    (tu : BinaryTree (ℕ × VmmAllocation)) : Prop where
  both : Both ⟨m, kern, task, 0⟩ lk tk lu tu
  kernFree : FreeOk lk
  taskFree : FreeOk lu
  kernRoot : tk ≠ .nil
  taskRoot : tu ≠ .nil
  current : cur.vmmContext.allocations = kern.allocations
  tables : Placed mi cur.pagingCtx
  kernTables : Placed mi kernPagingCtx
  answers : A.Answers (m.heap.arena.live.length + 10)

/-- the segment is empty; or it is not at address 0, does not reach the last page of the address space, has no frame 0, and its
bytes fit in one page, or its file part is one page and the zeros fit in another -/
def ImageOk (progHdr : ProgHdr) (frames : List ℕ) : Prop :=
  progHdr.memsz = 0 ∨ (progHdr.vaddr ≠ 0 ∧ progHdr.vaddr + progHdr.memsz + pageSize ≤ 2 ^ 32 ∧ 0 ∉ frames ∧
    (progHdr.memsz ≤ pageSize ∨ (progHdr.filesz = pageSize ∧ progHdr.memsz ≤ 2 * pageSize)))

section Segment

variable {A : Allocator} {mi : KernelMeminfo} {cur : Current} {kernPagingCtx : PagingContext} {progHdr : ProgHdr}
  {rawElf : Mem} {m : Machine} {kern task : VmmContext} {s s' : Loading} {frames : List ℕ} {N va pa addr : ℕ}
  {lk lu : List (ℕ × Area)} {tk tu tu' : BinaryTree (ℕ × VmmAllocation)}

/-- a free page is in the address space -/
theorem free_lt {l : List (ℕ × Area)} {p : ℕ} (hf : FreeOk l) (hp : Free l p) : (p + 1) * pageSize ≤ 2 ^ 32 := by
  have hone : freeCover l p = 1 := le_antisymm (hf.cover_le_one _) hp
  obtain ⟨c, hc, h1, h2⟩ := exists_block hf hone
  have hfits := (hf.area c hc).fits
  have hal := (hf.area c hc).aligned
  simp only [pageSize] at h1 h2 hfits hal ⊢
  omega

/-- what the task sees is decided by the record found -/
theorem taskFrame_eq (hr : Rep s.machine.heap s.vmmCtx lu tu) :
    taskFrame s addr = if (found (descend (findDir (pagingAlignAddr addr)) tu)).pageCount ≠ 0 ∧
        (found (descend (findDir (pagingAlignAddr addr)) tu)).physicalAddr ≠ 0 then
      some (found (descend (findDir (pagingAlignAddr addr)) tu)).physicalAddr else none := by
  unfold taskFrame
  rw [vmmFindAllocation_eq hr]

theorem taskFrame_none (hr : Rep s.machine.heap s.vmmCtx lu tu) (hd : descend (findDir (pagingAlignAddr addr)) tu = none) :
    taskFrame s addr = none := by
  rw [taskFrame_eq hr, hd]
  exact if_neg fun h => h.1 rfl

theorem taskFrame_some {p flags : ℕ} (hr : Rep s.machine.heap s.vmmCtx lu tu)
    (hd : descend (findDir (pagingAlignAddr addr)) tu = some (p, ⟨va, pa, 1, flags⟩)) :
    taskFrame s addr = if pa ≠ 0 then some pa else none := by
  rw [taskFrame_eq hr, hd]
  simp only [found, ne_eq, Nat.one_ne_zero, not_false_eq_true, true_and]

/-- every page of the image has a frame -/
theorem Image.frame (hi : Image progHdr rawElf m s) {k : ℕ} (hk : k < progHdr.memsz) :
    ∃ frame, taskFrame s (progHdr.vaddr + k) = some frame := by
  have hbyte : ∃ b, taskByte s (progHdr.vaddr + k) = some b := by
    rcases Nat.lt_or_ge k progHdr.filesz with hlt | hge
    · exact ⟨_, hi.file k hlt⟩
    · exact ⟨_, hi.zero k hk hge⟩
  obtain ⟨b, hb⟩ := hbyte
  obtain ⟨frame, hframe, _⟩ := Option.map_eq_some_iff.1 hb
  exact ⟨frame, hframe⟩

/-- a record of the task stays found in all rounds -/
theorem rounds_keep {rounds : List ℕ} {d : ℕ × VmmAllocation} (hb : Both s lk tk lu tu) (hroot : RootOk tu)
    (hd : descend (findDir va) tu = some d)
    (hok : rounds.foldlM (loadPage A mi cur kernPagingCtx progHdr rawElf) s = .ok s') :
    ∃ lu' tu', Rep s'.machine.heap s'.vmmCtx lu' tu' ∧ descend (findDir va) tu' = some d := by
  induction rounds generalizing s lk tk lu tu with
  | nil =>
    cases hok
    exact ⟨lu, tu, hb.task, hd⟩
  | cons i rounds ih =>
    rw [List.foldlM_cons] at hok
    obtain ⟨s₁, hload, hok⟩ := bind_ok.1 hok
    obtain ⟨lk₁, tk₁, lu₁, tu₁, hb₁, _, _, _, _, _, hgrown⟩ := loadPage_spec hb hload
    exact ih hb₁ (hgrown.rootOk Nat.one_ne_zero) (hgrown.found_old hroot hd) hok

theorem Setting.ready (hs : Setting A mi cur kernPagingCtx m kern task lk tk lu tu) (fileSize : ℕ) :
    Ready A mi cur kernPagingCtx (m.heap.arena.live.length + 10) ⟨m, kern, task, fileSize⟩ lk tk lu tu :=
  ⟨⟨hs.both.kern, hs.both.task, hs.both.apart⟩, hs.kernRoot, hs.taskRoot, hs.current, hs.tables, hs.kernTables, hs.answers⟩

theorem FreePage.ready (hf : FreePage mi cur m lk tk lu tu va) (hs : Setting A mi cur kernPagingCtx m kern task lk tk lu tu)
    (hva : va % pageSize = 0) (fileSize : ℕ) : PageReady mi cur ⟨m, kern, task, fileSize⟩ lk tk lu va :=
  ⟨offers_of_free hs.kernFree hva hf.kern, offers_of_free hs.taskFree hva hf.task, hf.kernRecord, hf.unmapped⟩

theorem handleLoadableSegment_eq (hsize : progHdr.filesz ≤ progHdr.memsz) :
    handleLoadableSegment A mi cur kernPagingCtx progHdr rawElf m kern task =
      (List.range (pagingPageCount progHdr.memsz)).foldlM (loadPage A mi cur kernPagingCtx progHdr rawElf)
        ⟨m, kern, task, progHdr.filesz⟩ := by
  unfold handleLoadableSegment
  rw [if_neg (not_lt.2 hsize)]

/-- the image of a segment in one page -/
theorem image_one {bm : Bitmap} (hva : progHdr.vaddr % pageSize = 0) (hsize : progHdr.filesz ≤ progHdr.memsz)
    (hone : progHdr.memsz ≤ pageSize) (hfile : progHdr.offset + progHdr.filesz ≤ 2 ^ 32)
    (hdone : RoundDone mi cur progHdr rawElf 0 progHdr.vaddr pa bm ⟨m, kern, task, progHdr.filesz⟩ s)
    (hframe : ∀ k < pageSize, taskFrame s (progHdr.vaddr + k) = some pa) : Image progHdr rawElf m s := by
  have hmemory := hdone.memory
  dsimp only at hmemory
  simp only [pageSize] at hva hone
  have hbyte : ∀ k < pageSize, taskByte s (progHdr.vaddr + k) = some (s.machine.memory (pa + k)) := by
    intro k hk
    have hmod : (progHdr.vaddr + k) % pageSize = k := by
      simp only [pageSize] at hk ⊢
      omega
    unfold taskByte
    rw [hframe k hk, Option.map_some, hmod]
  have hzeros : progHdr.filesz + zeros progHdr progHdr.filesz = progHdr.memsz := by
    unfold zeros
    split_ifs with hpart
    · exact Nat.add_sub_cancel' hsize
    · simp only [pageSize] at hpart
      omega
  refine ⟨fun k hk => ?_, fun k hk hge => ?_, fun x hx => ?_⟩
  · have haddr : u32 (progHdr.offset + 0 * pageSize + k) = progHdr.offset + k := by
      rw [Nat.zero_mul, Nat.add_zero, u32_of_lt (by omega)]
    rw [hbyte k (by simp only [pageSize]; omega), hmemory, fill_outside _ _ (by omega), fill_inside _ _ hk, haddr]
  · have hin : pa + k = pa + progHdr.filesz + (k - progHdr.filesz) := by omega
    rw [hbyte k (by simp only [pageSize]; omega), hmemory, hin, fill_inside _ _ (by omega)]
  · rw [hmemory]
    by_cases hk : 0 < progHdr.memsz
    · have hout := hx 0 hk pa (hframe 0 (by decide))
      simp only [pageSize] at hout
      rw [fill_outside _ _ (by omega), fill_outside _ _ (by omega)]
    · rw [fill_outside _ _ (by omega), fill_outside _ _ (by omega)]

/-- the image of a segment with one page of the file and a page of zeros -/
theorem image_two {bm bm' : Bitmap} {pa' : ℕ} (hva : progHdr.vaddr % pageSize = 0) (hfull : progHdr.filesz = pageSize)
    (hmore : pageSize < progHdr.memsz) (htwo : progHdr.memsz ≤ 2 * pageSize)
    (hfile : progHdr.offset + progHdr.filesz ≤ 2 ^ 32) (hpa : pa % pageSize = 0) (hpa' : pa' % pageSize = 0) (hne : pa ≠ pa')
    (hdone : RoundDone mi cur progHdr rawElf 0 progHdr.vaddr pa bm ⟨m, kern, task, progHdr.filesz⟩ s)
    (hdone' : RoundDone mi cur progHdr rawElf 1 (progHdr.vaddr + pageSize) pa' bm' s s')
    (hframe : ∀ k < pageSize, taskFrame s' (progHdr.vaddr + k) = some pa)
    (hframe' : ∀ k < pageSize, taskFrame s' (progHdr.vaddr + pageSize + k) = some pa') : Image progHdr rawElf m s' := by
  have hsize : s.fileSize = 0 := by
    rw [hdone.fileSize]
    dsimp only
    rw [hfull, if_neg (lt_irrefl _), Nat.sub_self]
  have hzeros : zeros progHdr s.fileSize = progHdr.memsz - pageSize := by
    unfold zeros
    rw [hsize, if_pos (by decide), hfull]
  -- one page of the file, and the zeros
  have hmemory : s'.machine.memory = fill (fill m.memory pa pageSize fun k => rawElf (u32 (progHdr.offset + 0 * pageSize + k))) pa'
      (progHdr.memsz - pageSize) fun _ => 0 := by
    have hnone : zeros progHdr pageSize = 0 := if_neg (lt_irrefl _)
    have hfirst := hdone.memory
    dsimp only at hfirst
    rw [hfull, hnone, fill_zero] at hfirst
    rw [hdone'.memory, hzeros, hsize, fill_zero, Nat.add_zero, hfirst]
  simp only [pageSize] at hva hpa hpa'
  have hbyte : ∀ k < pageSize, taskByte s' (progHdr.vaddr + k) = some (s'.machine.memory (pa + k)) := by
    intro k hk
    have hmod : (progHdr.vaddr + k) % pageSize = k := by
      simp only [pageSize] at hk ⊢
      omega
    unfold taskByte
    rw [hframe k hk, Option.map_some, hmod]
  have hbyte' : ∀ k < pageSize, taskByte s' (progHdr.vaddr + (pageSize + k)) = some (s'.machine.memory (pa' + k)) := by
    intro k hk
    have hmod : (progHdr.vaddr + pageSize + k) % pageSize = k := by
      simp only [pageSize] at hk ⊢
      omega
    unfold taskByte
    rw [← Nat.add_assoc, hframe' k hk, Option.map_some, hmod]
  refine ⟨fun k hk => ?_, fun k hk hge => ?_, fun x hx => ?_⟩
  · rw [hfull] at hk hfile
    have haddr : u32 (progHdr.offset + 0 * pageSize + k) = progHdr.offset + k := by
      rw [Nat.zero_mul, Nat.add_zero, u32_of_lt (by omega)]
    have hout : pa + k < pa' ∨ pa' + (progHdr.memsz - pageSize) ≤ pa + k := by
      simp only [pageSize] at hk htwo ⊢
      omega
    rw [hbyte k hk, hmemory, fill_outside _ _ hout, fill_inside _ _ hk, haddr]
  · rw [hfull] at hge
    have hin : k - pageSize < progHdr.memsz - pageSize := Nat.sub_lt_sub_right hge hk
    rw [← Nat.add_sub_cancel' hge, hbyte' _ (by omega), hmemory, fill_inside _ _ hin]
  · have hout := hx 0 (by omega) pa (hframe 0 (by decide))
    have hout' := hx pageSize hmore pa' (hframe' 0 (by decide))
    rw [hmemory, fill_outside _ _ (by omega), fill_outside _ _ hout]

theorem pagingAlignAddr_add {k : ℕ} (hva : va % pageSize = 0) (hk : k < pageSize) : pagingAlignAddr (va + k) = va := by
  unfold pagingAlignAddr
  simp only [pageSize] at hva hk ⊢
  omega

/-- the addresses of the first two rounds -/
theorem round_zero (progHdr : ProgHdr) : u32 (progHdr.vaddr + 0 * pageSize) = progHdr.vaddr := by
  rw [Nat.zero_mul, Nat.add_zero, u32_of_lt progHdr.vaddr_lt]

theorem round_one (hend : progHdr.vaddr + pageSize < 2 ^ 32) :
    u32 (progHdr.vaddr + 1 * pageSize) = progHdr.vaddr + pageSize := by
  rw [Nat.one_mul, u32_of_lt hend]

/-- **Sufficient, with one page.** -/
theorem segment_one {bm : Bitmap} (hs : Setting A mi cur kernPagingCtx m kern task lk tk lu tu)
    (hva : progHdr.vaddr % pageSize = 0) (hsize : progHdr.filesz ≤ progHdr.memsz) (h0 : progHdr.vaddr ≠ 0)
    (hpos : 0 < progHdr.memsz) (hone : progHdr.memsz ≤ pageSize) (hend : progHdr.vaddr + pageSize < 2 ^ 32)
    (hpage : FreePage mi cur m lk tk lu tu progHdr.vaddr) (hfile : progHdr.offset + progHdr.filesz ≤ 2 ^ 32)
    (hpmm : pmmAllocPage m.bitmap = .ok (pa, bm)) (hpa : pa ≠ 0) :
    ∃ s', handleLoadableSegment A mi cur kernPagingCtx progHdr rawElf m kern task = .ok s' ∧ Image progHdr rawElf m s' := by
  have hi := round_zero progHdr
  have hle : progHdr.filesz + zeros progHdr progHdr.filesz ≤ pageSize := by
    unfold zeros
    split_ifs
    · omega
    · omega
  have hready := hs.ready progHdr.filesz
  obtain ⟨s', hload, hdone⟩ := @loadPage_ok A mi cur kernPagingCtx progHdr rawElf _ _ 0 _ pa bm _ _ _ _ hready
    (hpage.ready hs hva progHdr.filesz) (by dsimp only; omega) hi hva h0 hend hpmm hpa hle
  obtain ⟨lk', tk', lu', tu', hready', hgrown, _⟩ :=
    round_next hready hs.kernFree hs.taskFree hi hva hend hpage.kernRecord hpmm hload hdone
  obtain ⟨p, hp⟩ := descend_new hgrown hpage.taskRecord hend
  refine ⟨s', ?_, image_one hva hsize hone hfile hdone fun k hk => ?_⟩
  · have hcount : pagingPageCount progHdr.memsz = 1 := by
      unfold pagingPageCount u32
      simp only [pageSize] at hone ⊢
      omega
    rw [handleLoadableSegment_eq hsize, hcount]
    exact bind_ok.2 ⟨s', hload, rfl⟩
  · rw [← pagingAlignAddr_add hva hk] at hp
    rw [taskFrame_some hready'.both.task hp, if_pos hpa]

/-- **Sufficient, with two pages.** -/
theorem segment_two {bm bm' : Bitmap} {pa' : ℕ} (hs : Setting A mi cur kernPagingCtx m kern task lk tk lu tu)
    (hva : progHdr.vaddr % pageSize = 0) (hfull : progHdr.filesz = pageSize) (h0 : progHdr.vaddr ≠ 0)
    (hmore : pageSize < progHdr.memsz) (htwo : progHdr.memsz ≤ 2 * pageSize)
    (hend : progHdr.vaddr + pageSize + pageSize < 2 ^ 32) (hpage : FreePage mi cur m lk tk lu tu progHdr.vaddr)
    (hpage' : FreePage mi cur m lk tk lu tu (progHdr.vaddr + pageSize)) (hfile : progHdr.offset + progHdr.filesz ≤ 2 ^ 32)
    (hpmm : pmmAllocPage m.bitmap = .ok (pa, bm)) (hpmm' : pmmAllocPage bm = .ok (pa', bm')) (hpa : pa ≠ 0) (hpa' : pa' ≠ 0)
    (hne : pa ≠ pa') :
    ∃ s', handleLoadableSegment A mi cur kernPagingCtx progHdr rawElf m kern task = .ok s' ∧ Image progHdr rawElf m s' := by
  have hi := round_zero progHdr
  have hi' := @round_one progHdr (by omega)
  have hva' : (progHdr.vaddr + pageSize) % pageSize = 0 := by rw [Nat.add_mod_right, hva]
  have hpos : 0 < pageSize := by decide
  have hnone : zeros progHdr pageSize = 0 := if_neg (lt_irrefl _)
  have hready := hs.ready progHdr.filesz
  -- the first page
  obtain ⟨s₁, hload, hdone⟩ := @loadPage_ok A mi cur kernPagingCtx progHdr rawElf _ _ 0 _ pa bm _ _ _ _ hready
    (hpage.ready hs hva progHdr.filesz) (by dsimp only; omega) hi hva h0 (by omega) hpmm hpa
    (by dsimp only; rw [hfull, hnone]; exact le_rfl)
  obtain ⟨lk₁, tk₁, lu₁, tu₁, hready₁, hgrown₁, hpages⟩ :=
    round_next hready hs.kernFree hs.taskFree hi hva (by omega) hpage.kernRecord hpmm hload hdone
  have hsize : s₁.fileSize = 0 := by
    rw [hdone.fileSize]
    dsimp only
    rw [hfull, if_neg (lt_irrefl _), Nat.sub_self]
  have hzeros : s₁.fileSize + zeros progHdr s₁.fileSize ≤ pageSize := by
    unfold zeros
    rw [hsize, if_pos hpos, hfull]
    omega
  have hpmm₁ : pmmAllocPage s₁.machine.bitmap = .ok (pa', bm') := by
    rw [hdone.bitmap]
    exact hpmm'
  have hpage₁ := hpages (progHdr.vaddr + pageSize) (by omega) hva' (by omega) hpage'.kern hpage'.task hpage'.kernRecord
    hpage'.unmapped
  have hsize₁ := hdone.size
  dsimp only at hsize₁
  -- the second
  obtain ⟨s₂, hload', hdone'⟩ := @loadPage_ok A mi cur kernPagingCtx progHdr rawElf _ _ 1 _ pa' bm' _ _ _ _ hready₁ hpage₁
    (by omega) hi' hva' (by omega) hend hpmm₁ hpa' hzeros
  have hnone' : ∀ c ∈ cells tu₁, findDir (progHdr.vaddr + pageSize) c.2 ≠ .stop :=
    grown_none hgrown₁ hpage'.taskRecord fun _ => le_rfl
  obtain ⟨lk₂, tk₂, lu₂, tu₂, q, hb₂, hgrown₂, hq⟩ := round_record hready₁.both hi' hva' hend hnone' hpmm₁ hload'
  obtain ⟨p, hp⟩ := descend_new hgrown₁ hpage.taskRecord (by omega)
  have hp₂ := hgrown₂.found_old (hgrown₁.rootOk Nat.one_ne_zero) hp
  refine ⟨s₂, ?_, image_two hva hfull hmore htwo hfile (allocPage_aligned hpmm).1 (allocPage_aligned hpmm').1 hne hdone hdone'
    (fun k hk => ?_) fun k hk => ?_⟩
  · have hcount : pagingPageCount progHdr.memsz = 2 := by
      unfold pagingPageCount u32
      simp only [pageSize] at hmore htwo ⊢
      omega
    rw [handleLoadableSegment_eq (hfull.trans_le hmore.le), hcount]
    exact bind_ok.2 ⟨s₁, hload, bind_ok.2 ⟨s₂, hload', rfl⟩⟩
  · rw [← pagingAlignAddr_add hva hk] at hp₂
    rw [taskFrame_some hb₂.task hp₂, if_pos hpa]
  · rw [← pagingAlignAddr_add hva' hk] at hq
    rw [taskFrame_some hb₂.task hq, if_pos hpa']

/-- a page that the task sees has a frame that is not 0 -/
theorem Image.frame_ne_zero {p flags k : ℕ} (himage : Image progHdr rawElf m s) (hk : k < progHdr.memsz)
    (hva : (progHdr.vaddr + k) % pageSize = 0) (hr : Rep s.machine.heap s.vmmCtx lu tu)
    (hd : descend (findDir (progHdr.vaddr + k)) tu = some (p, ⟨va, pa, 1, flags⟩)) : pa ≠ 0 := by
  intro hzero
  obtain ⟨frame, hframe⟩ := himage.frame hk
  have halign : pagingAlignAddr (progHdr.vaddr + k) = progHdr.vaddr + k := Nat.div_mul_cancel (Nat.dvd_of_mod_eq_zero hva)
  rw [← halign] at hd
  rw [taskFrame_some hr hd, if_neg (not_not.2 hzero)] at hframe
  cases hframe

theorem allocFrames_succ {n : ℕ} {bm : Bitmap} (hframes : allocFrames (n + 1) bm = .ok frames) :
    ∃ pa bm' rest, pmmAllocPage bm = .ok (pa, bm') ∧ allocFrames n bm' = .ok rest ∧ frames = pa :: rest := by
  obtain ⟨⟨pa, bm'⟩, hpmm, hframes⟩ := bind_ok.1 hframes
  obtain ⟨rest, hrest, hframes⟩ := bind_ok.1 hframes
  cases hframes
  exact ⟨pa, bm', rest, hpmm, hrest, rfl⟩

/-- the pages of the segment -/
def PagesFree (mi : KernelMeminfo) (cur : Current) (progHdr : ProgHdr) (m : Machine) (lk : List (ℕ × Area))
    (tk : BinaryTree (ℕ × VmmAllocation)) (lu : List (ℕ × Area)) (tu : BinaryTree (ℕ × VmmAllocation)) : Prop :=
  ∀ k < progHdr.memsz, k % pageSize = 0 → FreePage mi cur m lk tk lu tu (progHdr.vaddr + k)

/-- **Necessary, with one page.** -/
theorem needs_one {bm : Bitmap} (hs : Setting A mi cur kernPagingCtx m kern task lk tk lu tu)
    (hva : progHdr.vaddr % pageSize = 0) (hpos : 0 < progHdr.memsz) (hpage : FreePage mi cur m lk tk lu tu progHdr.vaddr)
    (hpmm : pmmAllocPage m.bitmap = .ok (pa, bm))
    (hload : loadPage A mi cur kernPagingCtx progHdr rawElf ⟨m, kern, task, progHdr.filesz⟩ 0 = .ok s)
    (himage : Image progHdr rawElf m s) : progHdr.vaddr + pageSize < 2 ^ 32 ∧ pa ≠ 0 := by
  have hi := round_zero progHdr
  have hready := hs.ready progHdr.filesz
  have hend : progHdr.vaddr + pageSize < 2 ^ 32 := by
    have hfits := free_lt hs.kernFree hpage.kern
    rcases Nat.lt_or_eq_of_le (show progHdr.vaddr + pageSize ≤ 2 ^ 32 by simp only [pageSize] at hfits hva ⊢; omega) with h | h
    · exact h
    · have hnone := loadPage_last hready hi hva h hpage.kernRecord hpage.unmapped hload
      unfold zeros at hnone
      dsimp only at hnone
      rw [if_pos (by simp only [pageSize]; omega)] at hnone
      omega
  obtain ⟨lk₁, tk₁, lu₁, tu₁, p, hb₁, _, hp⟩ := round_record hready.both hi hva hend hpage.taskRecord hpmm hload
  exact ⟨hend, himage.frame_ne_zero hpos hva hb₁.task hp⟩

/-- **Necessary, with more pages.** -/
theorem needs_two {bm bm' : Bitmap} {pa' : ℕ} {s₁ s₂ : Loading} {rounds : List ℕ}
    (hs : Setting A mi cur kernPagingCtx m kern task lk tk lu tu) (hva : progHdr.vaddr % pageSize = 0)
    (hsize : progHdr.filesz ≤ progHdr.memsz) (h0 : progHdr.vaddr ≠ 0) (hmore : pageSize < progHdr.memsz)
    (hpages : PagesFree mi cur progHdr m lk tk lu tu) (hpmm : pmmAllocPage m.bitmap = .ok (pa, bm))
    (hpmm' : pmmAllocPage bm = .ok (pa', bm'))
    (hload : loadPage A mi cur kernPagingCtx progHdr rawElf ⟨m, kern, task, progHdr.filesz⟩ 0 = .ok s₁)
    (hload' : loadPage A mi cur kernPagingCtx progHdr rawElf s₁ 1 = .ok s₂)
    (hrest : rounds.foldlM (loadPage A mi cur kernPagingCtx progHdr rawElf) s₂ = .ok s)
    (himage : Image progHdr rawElf m s) :
    progHdr.filesz = pageSize ∧ progHdr.memsz ≤ 2 * pageSize ∧ progHdr.vaddr + pageSize + pageSize < 2 ^ 32 ∧ pa ≠ 0 ∧ pa' ≠ 0 := by
  have hpos : 0 < pageSize := by decide
  have hpage : FreePage mi cur m lk tk lu tu progHdr.vaddr := hpages 0 (by omega) rfl
  have hpage' := hpages pageSize hmore (Nat.mod_self _)
  have hva' : (progHdr.vaddr + pageSize) % pageSize = 0 := by rw [Nat.add_mod_right, hva]
  have hfits : progHdr.vaddr + 2 * pageSize ≤ 2 ^ 32 := by
    have hlt := free_lt hs.kernFree hpage'.kern
    simp only [pageSize] at hlt hva ⊢
    omega
  have hi := round_zero progHdr
  have hi' := @round_one progHdr (by omega)
  have hready := hs.ready progHdr.filesz
  -- the first round fills its page with the file
  have hle := loadPage_fits hready hi hva hfits hpage.kernRecord hpage'.kernRecord hpage'.unmapped hload
  dsimp only at hle
  have hfull : progHdr.filesz = pageSize := by
    unfold zeros at hle
    split_ifs at hle
    · omega
    · omega
  -- its record has a frame that is not 0
  obtain ⟨lk₁, tk₁, lu₁, tu₁, p, hb₁, hgrown₁, hp⟩ :=
    round_record hready.both hi hva (by omega) hpage.taskRecord hpmm hload
  obtain ⟨lu', tu', hr', hp'⟩ := @rounds_keep A mi cur kernPagingCtx progHdr rawElf s₁ s _ _ _ _ _ (1 :: rounds) _ hb₁
    (hgrown₁.rootOk Nat.one_ne_zero) hp (bind_ok.2 ⟨s₂, hload', hrest⟩)
  have hpa : pa ≠ 0 := himage.frame_ne_zero (show 0 < progHdr.memsz by omega) hva hr' hp'
  -- so it was as it should be
  obtain ⟨s₁', hload₁, hdone⟩ := @loadPage_ok A mi cur kernPagingCtx progHdr rawElf _ _ 0 _ pa bm _ _ _ _ hready
    (hpage.ready hs hva progHdr.filesz) (by dsimp only; omega) hi hva h0 (by omega) hpmm hpa hle
  rw [hload] at hload₁
  cases hload₁
  obtain ⟨lk₁', tk₁', lu₁', tu₁', hready₁, hgrown₁', hnext⟩ :=
    round_next hready hs.kernFree hs.taskFree hi hva (by omega) hpage.kernRecord hpmm hload hdone
  have hpage₁ := hnext (progHdr.vaddr + pageSize) (by omega) hva' (by omega) hpage'.kern hpage'.task hpage'.kernRecord
    hpage'.unmapped
  have hzeros : s₁.fileSize + zeros progHdr s₁.fileSize = progHdr.memsz - pageSize := by
    have hnone : s₁.fileSize = 0 := by
      rw [hdone.fileSize]
      dsimp only
      rw [hfull, if_neg (lt_irrefl _), Nat.sub_self]
    unfold zeros
    rw [hnone, if_pos hpos, hfull, Nat.zero_add]
  have htwo : progHdr.memsz ≤ 2 * pageSize := by
    by_contra hthree
    have hpage₃ := hpages (2 * pageSize) (not_le.1 hthree) (Nat.mul_mod_left _ _)
    rw [Nat.two_mul, ← Nat.add_assoc] at hpage₃
    have hfits₃ : progHdr.vaddr + pageSize + 2 * pageSize ≤ 2 ^ 32 := by
      have hlt := free_lt hs.kernFree hpage₃.kern
      simp only [pageSize] at hlt hva ⊢
      omega
    have hready₃ := hnext (progHdr.vaddr + pageSize + pageSize) (by omega) (by rw [Nat.add_mod_right, hva']) (by omega)
      hpage₃.kern hpage₃.task hpage₃.kernRecord hpage₃.unmapped
    have hle₃ := loadPage_fits hready₁ hi' hva' hfits₃ hpage₁.record hready₃.record hready₃.unmapped hload'
    omega
  have hend : progHdr.vaddr + pageSize + pageSize < 2 ^ 32 := by
    rcases Nat.lt_or_eq_of_le hfits with h | h
    · omega
    · have hnone := loadPage_last hready₁ hi' hva' (by omega) hpage₁.record hpage₁.unmapped hload'
      omega
  -- the second record
  have hpmm₁ : pmmAllocPage s₁.machine.bitmap = .ok (pa', bm') := by
    rw [hdone.bitmap]
    exact hpmm'
  obtain ⟨lk₂, tk₂, lu₂, tu₂, q, hb₂, hgrown₂, hq⟩ := round_record hready₁.both hi' hva' hend
    (grown_none hgrown₁' hpage'.taskRecord fun _ => le_rfl) hpmm₁ hload'
  obtain ⟨lu₃, tu₃, hr₃, hq₃⟩ := rounds_keep hb₂ (hgrown₂.rootOk Nat.one_ne_zero) hq hrest
  exact ⟨hfull, htwo, hend, hpa, himage.frame_ne_zero hmore hva' hr₃ hq₃⟩

theorem pagingPageCount_pos {size : ℕ} (hpos : 0 < size) (hlt : size + pageSize ≤ 2 ^ 32) : 0 < pagingPageCount size := by
  unfold pagingPageCount u32
  simp only [pageSize] at hlt ⊢
  omega

theorem pagingPageCount_one {size : ℕ} (hpos : 0 < size) (hone : size ≤ pageSize) : pagingPageCount size = 1 := by
  unfold pagingPageCount u32
  simp only [pageSize] at hone ⊢
  omega

/-- more than a page is two pages at least, unless the count wraps -/
theorem pagingPageCount_more {size n : ℕ} (hlt : size < 2 ^ 32) (hmore : pageSize < size) (hn : pagingPageCount size = n + 1) :
    ∃ k, n = k + 1 := by
  refine Nat.exists_eq_succ_of_ne_zero fun hzero => ?_
  unfold pagingPageCount u32 at hn
  simp only [pageSize] at hmore hn
  omega

/-- what an image needs -/
theorem imageOk_of_image {s' : Loading} (hs : Setting A mi cur kernPagingCtx m kern task lk tk lu tu)
    (hva : progHdr.vaddr % pageSize = 0) (hsize : progHdr.filesz ≤ progHdr.memsz)
    (hpages : PagesFree mi cur progHdr m lk tk lu tu)
    (hframes : allocFrames (pagingPageCount progHdr.memsz) m.bitmap = .ok frames)
    (hok : handleLoadableSegment A mi cur kernPagingCtx progHdr rawElf m kern task = .ok s')
    (himage : Image progHdr rawElf m s') : ImageOk progHdr frames := by
  rw [handleLoadableSegment_eq hsize] at hok
  rcases Nat.eq_zero_or_pos progHdr.memsz with hzero | hpos
  · exact Or.inl hzero
  right
  have hpage : FreePage mi cur m lk tk lu tu progHdr.vaddr := hpages 0 hpos rfl
  cases hcount : pagingPageCount progHdr.memsz with
  | zero =>
    -- the number of pages wraps, and nothing is loaded
    rw [hcount] at hok
    cases hok
    obtain ⟨frame, hframe⟩ := himage.frame hpos
    have halign : pagingAlignAddr (progHdr.vaddr + 0) = progHdr.vaddr := pagingAlignAddr_add hva (by decide)
    have hnone : descend (findDir (pagingAlignAddr (progHdr.vaddr + 0))) tu = none := by
      rw [halign]
      exact descend_eq_none hpage.taskRecord
    rw [taskFrame_none (hs.ready progHdr.filesz).both.task hnone] at hframe
    cases hframe
  | succ n =>
    rw [hcount] at hok hframes
    rw [List.range_succ_eq_map, List.foldlM_cons] at hok
    obtain ⟨s₁, hload, hok⟩ := bind_ok.1 hok
    obtain ⟨pa, bm, rest, hpmm, hrest, rfl⟩ := allocFrames_succ hframes
    obtain ⟨_, _, _, _, _, hloaded, _⟩ := loadPage_spec (hs.ready progHdr.filesz).both hload
    have h0 : progHdr.vaddr ≠ 0 := by
      have hne := hloaded.ne_zero
      unfold pageAt at hne
      rw [round_zero] at hne
      exact fun hz => hne (by rw [hz]; rfl)
    by_cases hone : progHdr.memsz ≤ pageSize
    · obtain rfl : n = 0 := Nat.succ.inj (hcount.symm.trans (pagingPageCount_one hpos hone))
      cases hok
      cases hrest
      obtain ⟨hend, hpa⟩ := needs_one hs hva hpos hpage hpmm hload himage
      refine ⟨h0, ?_, fun hmem => hpa (List.mem_singleton.1 hmem).symm, Or.inl hone⟩
      simp only [pageSize] at hend hva hone ⊢
      omega
    · obtain ⟨k, rfl⟩ := pagingPageCount_more progHdr.memsz_lt (not_le.1 hone) hcount
      rw [List.range_succ_eq_map, List.map_cons, List.foldlM_cons] at hok
      obtain ⟨s₂, hload', hok⟩ := bind_ok.1 hok
      obtain ⟨pa', bm', rest', hpmm', hrest', rfl⟩ := allocFrames_succ hrest
      obtain ⟨hfull, htwo, hend, hpa, hpa'⟩ := needs_two hs hva hsize h0 (not_le.1 hone) hpages hpmm hpmm' hload hload' hok himage
      have hk : k = 0 := by
        unfold pagingPageCount u32 at hcount
        simp only [pageSize] at hone htwo hcount
        omega
      subst hk
      cases hrest'
      refine ⟨h0, ?_, fun hmem => ?_, Or.inr ⟨hfull, htwo⟩⟩
      · simp only [pageSize] at hend hva htwo ⊢
        omega
      · rcases List.mem_cons.1 hmem with hz | hmem
        · exact hpa hz.symm
        · exact hpa' (List.mem_singleton.1 hmem).symm

/-- what is enough for an image -/
theorem image_of_imageOk (hs : Setting A mi cur kernPagingCtx m kern task lk tk lu tu) (hva : progHdr.vaddr % pageSize = 0)
    (hsize : progHdr.filesz ≤ progHdr.memsz) (hpages : PagesFree mi cur progHdr m lk tk lu tu)
    (hfile : progHdr.offset + progHdr.filesz ≤ 2 ^ 32) (hframes : allocFrames (pagingPageCount progHdr.memsz) m.bitmap = .ok frames)
    (hnd : frames.Nodup) (hcond : ImageOk progHdr frames) :
    ∃ s', handleLoadableSegment A mi cur kernPagingCtx progHdr rawElf m kern task = .ok s' ∧ Image progHdr rawElf m s' := by
  rcases Nat.eq_zero_or_pos progHdr.memsz with hzero | hpos
  · refine ⟨⟨m, kern, task, progHdr.filesz⟩, ?_, fun k hk => ?_, fun k hk _ => ?_, fun x _ => rfl⟩
    · rw [handleLoadableSegment_eq hsize, hzero]
      rfl
    · omega
    · omega
  obtain ⟨h0, hend, hframe, hfit⟩ := hcond.resolve_left hpos.ne'
  have hpage : FreePage mi cur m lk tk lu tu progHdr.vaddr := hpages 0 hpos rfl
  have hcount := pagingPageCount_pos hpos (show progHdr.memsz + pageSize ≤ 2 ^ 32 by omega)
  obtain ⟨n, hn⟩ := Nat.exists_eq_succ_of_ne_zero hcount.ne'
  rw [hn] at hframes
  obtain ⟨pa, bm, rest, hpmm, hrest, rfl⟩ := allocFrames_succ hframes
  have hpa : pa ≠ 0 := fun hz => hframe (hz ▸ List.mem_cons_self)
  by_cases hone : progHdr.memsz ≤ pageSize
  · exact segment_one hs hva hsize h0 hpos hone (by omega) hpage hfile hpmm hpa
  · obtain ⟨hfull, htwo⟩ := hfit.resolve_left hone
    obtain ⟨k, rfl⟩ := pagingPageCount_more progHdr.memsz_lt (not_le.1 hone) hn
    obtain ⟨pa', bm', rest', hpmm', _, rfl⟩ := allocFrames_succ hrest
    have hpa' : pa' ≠ 0 := fun hz => hframe (hz ▸ List.mem_cons_of_mem _ List.mem_cons_self)
    have hne : pa ≠ pa' := fun heq => (List.nodup_cons.1 hnd).1 (heq ▸ List.mem_cons_self)
    refine segment_two hs hva hfull h0 (not_le.1 hone) htwo ?_ hpage (hpages pageSize (not_le.1 hone) (Nat.mod_self _)) hfile
      hpmm hpmm' hpa hpa' hne
    simp only [pageSize] at hend hva hone ⊢
    omega

/-- **The image of a segment.** For a segment at the start of a page, in free pages, with its bytes in the file and frames that
differ, the call returns and the task sees the image, and nothing else is written, exactly when `ImageOk`. -/
theorem segment_image (hs : Setting A mi cur kernPagingCtx m kern task lk tk lu tu) (hva : progHdr.vaddr % pageSize = 0)
    (hsize : progHdr.filesz ≤ progHdr.memsz) (hpages : PagesFree mi cur progHdr m lk tk lu tu)
    (hfile : progHdr.offset + progHdr.filesz ≤ 2 ^ 32) (hframes : allocFrames (pagingPageCount progHdr.memsz) m.bitmap = .ok frames)
    (hnd : frames.Nodup) :
    (∃ s', handleLoadableSegment A mi cur kernPagingCtx progHdr rawElf m kern task = .ok s' ∧ Image progHdr rawElf m s') ↔
      ImageOk progHdr frames := by
  constructor
  · rintro ⟨s', hok, himage⟩
    exact imageOk_of_image hs hva hsize hpages hframes hok himage
  · intro hcond
    exact image_of_imageOk hs hva hsize hpages hfile hframes hnd hcond

end Segment

/-! ### Concrete segments -/

section Concrete

theorem setting_new : Setting .lowest .atOneMegabyte newCurrent context newMachine fresh.2 newTask.2 newKernelList newKernelTree
    newTaskList newTaskTree where
  both := both_new 0
  kernFree := newKernelList_ok
  taskFree := newTaskList_ok
  kernRoot := fun hnil => absurd (congrArg (fun t => (cells t).length) hnil) (by decide +kernel)
  taskRoot := fun hnil => absurd (congrArg (fun t => (cells t).length) hnil) (by decide +kernel)
  current := rfl
  tables := by decide
  kernTables := by decide
  answers := fun i live hlen => Allocator.lowest_answers i live (lt_of_lt_of_le hlen (by decide +kernel))

/-- the two pages from 0x400000 on -/
theorem freePage_new {k : ℕ} (hk : k < 2 * pageSize) (hal : k % pageSize = 0) :
    FreePage .atOneMegabyte newCurrent newMachine newKernelList newKernelTree newTaskList newTaskTree (0x400000 + k) := by
  have hcases : k = 0 ∨ k = 4096 := by
    simp only [pageSize] at hk hal
    omega
  rcases hcases with rfl | rfl
  · exact ⟨by decide +kernel, by decide +kernel, by decide +kernel, by decide +kernel, by decide +kernel, by decide +kernel⟩
  · exact ⟨by decide +kernel, by decide +kernel, by decide +kernel, by decide +kernel, by decide +kernel, by decide +kernel⟩

/-- the frames for two pages -/
def newFrames : List ℕ := returned [] (allocFrames 2 someUsed)

/-- a page of the file, and 904 zeros -/
def pageAndZeros : ProgHdr := ⟨1, 0, 0x400000, 4096, 5000, 6, userPage.virtualAddr_lt, userPage.physicalAddr_lt, by decide⟩

theorem segment_image_page_and_zeros :
    ∃ s', handleLoadableSegment .lowest .atOneMegabyte newCurrent context pageAndZeros (fun k => UInt8.ofNat k) newMachine fresh.2
        newTask.2 = .ok s' ∧ Image pageAndZeros (fun k => UInt8.ofNat k) newMachine s' := by
  have hpages : PagesFree .atOneMegabyte newCurrent pageAndZeros newMachine newKernelList newKernelTree newTaskList newTaskTree :=
    fun k hk hal => freePage_new (lt_trans hk (by decide)) hal
  have hframes : allocFrames (pagingPageCount pageAndZeros.memsz) newMachine.bitmap = .ok newFrames :=
    eq_returned [] (by decide +kernel)
  refine (segment_image setting_new (by decide) (by decide) hpages (by decide) hframes (by decide +kernel)).2 (Or.inr ?_)
  exact ⟨by decide, by decide, by decide +kernel, Or.inr ⟨rfl, by decide⟩⟩

/-- 4097 bytes of the file -/
def pageAndByte : ProgHdr := ⟨1, 0, 0x400000, 4097, 4097, 6, userPage.virtualAddr_lt, by decide, by decide⟩

/-- **A segment of two pages.** The first round copies the byte of the second page as well: the call does not return. -/
theorem two_page_segment :
    Setting .lowest .atOneMegabyte newCurrent context newMachine fresh.2 newTask.2 newKernelList newKernelTree newTaskList
      newTaskTree ∧
    pageAndByte.vaddr % pageSize = 0 ∧ pageAndByte.filesz ≤ pageAndByte.memsz ∧
    PagesFree .atOneMegabyte newCurrent pageAndByte newMachine newKernelList newKernelTree newTaskList newTaskTree ∧
    pageAndByte.offset + pageAndByte.filesz ≤ 2 ^ 32 ∧
    allocFrames (pagingPageCount pageAndByte.memsz) newMachine.bitmap = .ok newFrames ∧ newFrames.Nodup ∧
    ¬ ∃ s', handleLoadableSegment .lowest .atOneMegabyte newCurrent context pageAndByte (fun k => UInt8.ofNat k) newMachine fresh.2
        newTask.2 = .ok s' ∧ Image pageAndByte (fun k => UInt8.ofNat k) newMachine s' := by
  have hpages : PagesFree .atOneMegabyte newCurrent pageAndByte newMachine newKernelList newKernelTree newTaskList newTaskTree :=
    fun k hk hal => freePage_new (lt_trans hk (by decide)) hal
  have hframes : allocFrames (pagingPageCount pageAndByte.memsz) newMachine.bitmap = .ok newFrames :=
    eq_returned [] (by decide +kernel)
  refine ⟨setting_new, by decide, by decide, hpages, by decide, hframes, by decide +kernel, fun ⟨s', hok, _⟩ => ?_⟩
  have hsize : pageAndByte.filesz ≤ pageAndByte.memsz := by decide
  have hcount : pagingPageCount pageAndByte.memsz = 2 := by decide
  rw [handleLoadableSegment_eq hsize, hcount, List.range_succ_eq_map, List.foldlM_cons] at hok
  obtain ⟨s₁, hload, _⟩ := bind_ok.1 hok
  have hpage := hpages 0 (by decide) rfl
  have hnext := hpages pageSize (by decide) (Nat.mod_self _)
  have hle := loadPage_fits (setting_new.ready 4097) (by decide) (by decide) (by decide) hpage.kernRecord hnext.kernRecord
    hnext.unmapped hload
  revert hle
  decide

end Concrete

end Gubos.Elf
