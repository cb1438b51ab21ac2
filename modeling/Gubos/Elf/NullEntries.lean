/-
Program headers of type NULL (`elf/loader.c`).

`elf.h` calls such an entry ignored, and `elf_load` says that there is nothing to do for it; but it returns there, and so
ignores all entries after it as well.

The table without its NULL entries is that of a second file, whose segments have the same bytes. What `elf_load` reads of a
file are the program headers and the bytes that the pages are copied from (`SameBytes`).

- `loadTable_null`, `loadTable_append`: `elf_load` over the entries before the first NULL one, and over a table in two parts;
- `loadPage_takes`: loading a page takes a frame, and no frame is given back;
- `null_entries_iff`: `elf_load` panics on the table only as on the table without NULL entries, and when it returns it has the
  same effect if and only if no loadable entry after the first NULL one asks for a page;
- `load_after_null`: a NULL entry followed by a loadable one.
-/
import Gubos.Elf.Coverage
import Gubos.Elf.Reads

namespace Gubos.Elf

open Gubos.Core Gubos.Paging Gubos.Vmm Gubos.Pmm Gubos.PageFault

/-! ## Tables -/

/-- the program headers of a file -/
def progHdrs (header : Hdr) (rawElf : Mem) : List ProgHdr :=
  (List.range' 0 header.phnum).map fun i => progHdrAt rawElf (hdrOffsetAt header i)

def NotNull (progHdr : ProgHdr) : Bool := progHdr.type ≠ elfProgHdrTypeNull

/-- the two files have the same bytes where the segment is copied from -/
def SameBytes (rawElf rawElf' : Mem) (progHdr : ProgHdr) : Prop :=
  ∀ i < segmentPageCount progHdr, ∀ k < fileSizeAt progHdr i,
    rawElf (u32 (progHdr.offset + i * pageSize + k)) = rawElf' (u32 (progHdr.offset + i * pageSize + k))

/-- no loadable entry from the first NULL one on asks for a page -/
def NoneAfterNull (table : List ProgHdr) : Prop :=
  ∀ p ∈ table.dropWhile NotNull, p.type = elfProgHdrTypeLoad → segmentPageCount p = 0

section Code

variable (A : Allocator) (mi : KernelMeminfo) (cur : Current) (kernPagingCtx : PagingContext) (rawElf : Mem)

/-- the loop of `elf_load`, over a table -/
def loadTable : List ProgHdr → Machine × VmmContext × VmmContext → Except Fault (Machine × VmmContext × VmmContext)
  | [], r => .ok r
  | progHdr :: table, r =>
    if progHdr.type = elfProgHdrTypeNull then .ok r
    else if progHdr.type = elfProgHdrTypeLoad then do
      let s ← handleLoadableSegment A mi cur kernPagingCtx progHdr rawElf r.1 r.2.1 r.2.2
      loadTable table (s.machine, s.kernVmmCtx, s.vmmCtx)
    else .error (.panic (.unsupportedProgHdrType progHdr.type))

end Code

section Table

variable {A : Allocator} {mi : KernelMeminfo} {cur : Current} {kernPagingCtx : PagingContext} {header : Hdr}
  {rawElf rawElf' : Mem} {progHdr : ProgHdr} {table pre post : List ProgHdr} {r r' : Machine × VmmContext × VmmContext}

theorem loadHeaders_eq_table (n i : ℕ) (m : Machine) (kern task : VmmContext) :
    loadHeaders A mi cur kernPagingCtx header rawElf n i m kern task =
      loadTable A mi cur kernPagingCtx rawElf ((List.range' i n).map fun i => progHdrAt rawElf (hdrOffsetAt header i))
        (m, kern, task) := by
  induction n generalizing i m kern task with
  | zero => rfl
  | succ n ih =>
    rw [List.range'_succ, List.map_cons, loadTable, loadHeaders_succ]
    split_ifs with hnull hload
    · rfl
    · simp only [ih]
    · rfl

/-- `elf_load` is a loop over the table -/
theorem elfLoad_eq_table (m : Machine) (kern task : VmmContext) :
    elfLoad A mi cur kernPagingCtx header rawElf m kern task =
      loadTable A mi cur kernPagingCtx rawElf (progHdrs header rawElf) (m, kern, task) :=
  loadHeaders_eq_table header.phnum 0 m kern task

theorem loadTable_cons_null (hnull : progHdr.type = elfProgHdrTypeNull) :
    loadTable A mi cur kernPagingCtx rawElf (progHdr :: table) r = .ok r := by
  rw [loadTable, if_pos hnull]

theorem loadTable_cons_load (hload : progHdr.type = elfProgHdrTypeLoad) :
    loadTable A mi cur kernPagingCtx rawElf (progHdr :: table) r =
      handleLoadableSegment A mi cur kernPagingCtx progHdr rawElf r.1 r.2.1 r.2.2 >>= fun s =>
        loadTable A mi cur kernPagingCtx rawElf table (s.machine, s.kernVmmCtx, s.vmmCtx) := by
  have hnull : progHdr.type ≠ elfProgHdrTypeNull := by simp [hload, elfProgHdrTypeLoad, elfProgHdrTypeNull]
  rw [loadTable, if_neg hnull, if_pos hload]

/-- it ends at the first NULL entry -/
theorem loadTable_null (hload : ∀ p ∈ pre, p.type = elfProgHdrTypeLoad) (hnull : progHdr.type = elfProgHdrTypeNull) :
    loadTable A mi cur kernPagingCtx rawElf (pre ++ progHdr :: post) r = loadTable A mi cur kernPagingCtx rawElf pre r := by
  induction pre generalizing r with
  | nil => exact loadTable_cons_null hnull
  | cons p pre ih =>
    have hp := hload p List.mem_cons_self
    rw [List.cons_append, loadTable_cons_load hp, loadTable_cons_load hp]
    simp only [ih fun q hq => hload q (List.mem_cons_of_mem p hq)]

/-- a table in two parts, the first of loadable entries -/
theorem loadTable_append (hload : ∀ p ∈ pre, p.type = elfProgHdrTypeLoad) :
    loadTable A mi cur kernPagingCtx rawElf (pre ++ post) r =
      loadTable A mi cur kernPagingCtx rawElf pre r >>= loadTable A mi cur kernPagingCtx rawElf post := by
  induction pre generalizing r with
  | nil => rfl
  | cons p pre ih =>
    have hp := hload p List.mem_cons_self
    rw [List.cons_append, loadTable_cons_load hp, loadTable_cons_load hp, bind_assoc]
    simp only [ih fun q hq => hload q (List.mem_cons_of_mem p hq)]

/-! ## What is read of the file -/

theorem memcpy_congr {m : Machine} {destination num : ℕ} {source source' : ℕ → UInt8}
    (h : ∀ k < num, source k = source' k) :
    memcpy mi cur m destination source num = memcpy mi cur m destination source' num := by
  unfold memcpy
  rw [List.range_eq_range']
  refine foldlM_range_congr (I := fun _ _ => True) (fun k _ hk m _ => ?_) (fun _ _ _ _ _ => trivial) trivial
  rw [h k (by omega)]

/-- the segment is loaded alike from both files -/
theorem handle_congr (h : SameBytes rawElf rawElf' progHdr) (m : Machine) (kern task : VmmContext) :
    handleLoadableSegment A mi cur kernPagingCtx progHdr rawElf m kern task =
      handleLoadableSegment A mi cur kernPagingCtx progHdr rawElf' m kern task := by
  rw [handle_eq_rounds, handle_eq_rounds]
  refine foldlM_range_congr (I := fun i s => s.fileSize = fileSizeAt progHdr i) (fun i _ hi s hs => ?_)
    (fun i s s' hs hok => loadPage_fileSize hs hok) (fileSizeAt_zero progHdr).symm
  have hbytes := h i (by omega)
  rw [← hs] at hbytes
  rw [loadPage_eq, loadPage_eq]
  simp only [memcpy_congr hbytes]

theorem loadTable_congr (h : ∀ p ∈ table, SameBytes rawElf rawElf' p) :
    loadTable A mi cur kernPagingCtx rawElf table r = loadTable A mi cur kernPagingCtx rawElf' table r := by
  induction table generalizing r with
  | nil => rfl
  | cons p table ih =>
    rw [loadTable, loadTable, handle_congr (h p List.mem_cons_self)]
    simp only [ih fun q hq => h q (List.mem_cons_of_mem p hq)]

/-! ## Frames that are taken -/

/-- no frame is given back -/
def Kept (bm bm' : Bitmap) : Prop := ∀ q, used bm q = true → used bm' q = true

/-- a frame is taken, and none is given back -/
def Taken (bm bm' : Bitmap) : Prop := Kept bm bm' ∧ ∃ q, used bm q = false ∧ used bm' q = true

theorem Kept.refl (bm : Bitmap) : Kept bm bm := fun _ h => h

theorem Kept.trans {bm₁ bm₂ bm₃ : Bitmap} (h₁ : Kept bm₁ bm₂) (h₂ : Kept bm₂ bm₃) : Kept bm₁ bm₃ :=
  fun q h => h₂ q (h₁ q h)

theorem Taken.trans {bm₁ bm₂ bm₃ : Bitmap} (h₁ : Taken bm₁ bm₂) (h₂ : Kept bm₂ bm₃) : Taken bm₁ bm₃ := by
  obtain ⟨hkept, q, hfree, hused⟩ := h₁
  exact ⟨hkept.trans h₂, q, hfree, h₂ q hused⟩

theorem Taken.ne {bm bm' : Bitmap} (h : Taken bm bm') : bm ≠ bm' := by
  rintro rfl
  obtain ⟨_, q, hfree, hused⟩ := h
  rw [hfree] at hused
  cases hused

theorem alloc_taken {bm bm' : Bitmap} {a : ℕ} (hok : pmmAllocPage bm = .ok (a, bm')) : Taken bm bm' := by
  rcases allocPage_spec bm with ⟨q, _, _, hfree, _, hq, hset⟩ | ⟨_, herr⟩
  · rw [hq] at hok
    cases hok
    exact ⟨fun p hp => by simp [hset, hp], q, hfree, by simp [hset]⟩
  · rw [herr] at hok
    cases hok

theorem handler_kept {sp : Space} {pagingCtx : PagingContext} {bm bm' : Bitmap} {mem mem' : Tables} {addr errCode : ℕ}
    (hok : pageFaultHandler mi sp pagingCtx bm mem addr errCode = .ok (bm', mem')) : Kept bm bm' := by
  unfold pageFaultHandler at hok
  split_ifs at hok
  obtain ⟨a, _, hok⟩ := bind_ok.1 hok
  split_ifs at hok
  · obtain ⟨⟨pa, bm₁⟩, hpmm, hok⟩ := bind_ok.1 hok
    cases hpmm
    cases hok
    exact Kept.refl _
  · obtain ⟨⟨pa, bm₁⟩, hpmm, hok⟩ := bind_ok.1 hok
    cases hok
    exact (alloc_taken hpmm).1

section Stores

variable {m m' : Machine} {addr num : ℕ}

theorem store_kept {v : UInt8} (hok : store mi cur m addr v = .ok m') : Kept m.bitmap m'.bitmap := by
  obtain ⟨⟨m₁, physicalAddr⟩, haccess, hok⟩ := bind_ok.1 hok
  cases hok
  unfold access at haccess
  split at haccess
  · cases haccess
    exact Kept.refl _
  · obtain ⟨⟨bitmap, tables⟩, hhandler, haccess⟩ := bind_ok.1 haccess
    dsimp only at haccess
    split at haccess
    · cases haccess
      exact handler_kept hhandler
    · cases haccess

theorem memcpy_kept {source : ℕ → UInt8} (hok : memcpy mi cur m addr source num = .ok m') : Kept m.bitmap m'.bitmap :=
  foldlM_range_inv (P := fun _ m' => Kept m.bitmap m'.bitmap) (Kept.refl _)
    (fun _ _ _ _ hP hstore => hP.trans (store_kept hstore)) hok

theorem memset_kept {v : UInt8} (hok : memset mi cur m addr v num = .ok m') : Kept m.bitmap m'.bitmap :=
  foldlM_range_inv (P := fun _ m' => Kept m.bitmap m'.bitmap) (Kept.refl _)
    (fun _ _ _ _ hP hstore => hP.trans (store_kept hstore)) hok

theorem zeroRest_kept {fileSize fileSize' : ℕ} (hok : zeroRest mi cur progHdr m addr fileSize = .ok (m', fileSize')) :
    Kept m.bitmap m'.bitmap := by
  unfold zeroRest at hok
  split_ifs at hok
  · obtain ⟨m₁, hset, hok⟩ := bind_ok.1 hok
    cases hok
    exact memset_kept hset
  · cases hok
    exact Kept.refl _
  · cases hok
    exact Kept.refl _

end Stores

/-- **A page takes a frame.** -/
theorem loadPage_takes {s s' : Loading} {i : ℕ} (hok : loadPage A mi cur kernPagingCtx progHdr rawElf s i = .ok s') :
    Taken s.machine.bitmap s'.machine.bitmap := by
  rw [loadPage_eq] at hok
  obtain ⟨⟨pa, bitmap⟩, hpmm, hok⟩ := bind_ok.1 hok
  obtain ⟨⟨h₁, kern₁, r₁⟩, _, hok⟩ := bind_ok.1 hok
  obtain ⟨m₁, hcopy, hok⟩ := bind_ok.1 hok
  obtain ⟨⟨h₂, task₂, r₂⟩, _, hok⟩ := bind_ok.1 hok
  obtain ⟨⟨m₂, fileSize⟩, hzero, hok⟩ := bind_ok.1 hok
  obtain ⟨⟨h₃, kern₃⟩, _, hok⟩ := bind_ok.1 hok
  cases hok
  have hcopied : Kept bitmap m₁.bitmap := memcpy_kept hcopy
  have hzeroed : Kept m₁.bitmap m₂.bitmap := zeroRest_kept (m := { m₁ with heap := h₂ }) hzero
  exact (alloc_taken hpmm).trans (hcopied.trans hzeroed)

/-- a segment with no pages does nothing; any other takes a frame -/
theorem handle_cases {s : Loading} {m : Machine} {kern task : VmmContext}
    (hok : handleLoadableSegment A mi cur kernPagingCtx progHdr rawElf m kern task = .ok s) :
    (segmentPageCount progHdr = 0 ∧ s = ⟨m, kern, task, progHdr.filesz⟩) ∨
      (segmentPageCount progHdr ≠ 0 ∧ Taken m.bitmap s.machine.bitmap) := by
  rw [handle_eq_rounds] at hok
  cases hn : segmentPageCount progHdr with
  | zero =>
    rw [hn] at hok
    cases hok
    exact Or.inl ⟨rfl, rfl⟩
  | succ n =>
    rw [hn, List.range'_succ, List.foldlM_cons] at hok
    obtain ⟨s₁, hfirst, hok⟩ := bind_ok.1 hok
    refine Or.inr ⟨Nat.succ_ne_zero n, (loadPage_takes hfirst).trans ?_⟩
    have hrest : ∀ (l : List ℕ) (s₁ : Loading), l.foldlM (loadPage A mi cur kernPagingCtx progHdr rawElf) s₁ = .ok s →
        Kept s₁.machine.bitmap s.machine.bitmap := by
      intro l
      induction l with
      | nil =>
        intro s₁ hok
        cases hok
        exact Kept.refl _
      | cons j l ih =>
        intro s₁ hok
        rw [List.foldlM_cons] at hok
        obtain ⟨s₂, hj, hok⟩ := bind_ok.1 hok
        exact (loadPage_takes hj).1.trans (ih s₂ hok)
    exact hrest _ s₁ hok

/-- loadable entries change nothing if they ask for no page, and take a frame if one of them does -/
theorem loadTable_cases (hload : ∀ p ∈ table, p.type = elfProgHdrTypeLoad)
    (hok : loadTable A mi cur kernPagingCtx rawElf table r = .ok r') :
    ((∀ p ∈ table, segmentPageCount p = 0) ∧ r' = r) ∨
      ((∃ p ∈ table, segmentPageCount p ≠ 0) ∧ Taken r.1.bitmap r'.1.bitmap) := by
  induction table generalizing r with
  | nil =>
    cases hok
    exact Or.inl ⟨by simp, rfl⟩
  | cons p table ih =>
    rw [loadTable_cons_load (hload p List.mem_cons_self)] at hok
    obtain ⟨s, hseg, hok⟩ := bind_ok.1 hok
    have htail := ih (fun q hq => hload q (List.mem_cons_of_mem p hq)) hok
    rcases handle_cases hseg with ⟨hzero, rfl⟩ | ⟨hpages, htaken⟩
    · rcases htail with ⟨hall, rfl⟩ | ⟨⟨q, hq, hpages⟩, htaken⟩
      · exact Or.inl ⟨by simpa [hzero] using hall, rfl⟩
      · exact Or.inr ⟨⟨q, List.mem_cons_of_mem p hq, hpages⟩, htaken⟩
    · refine Or.inr ⟨⟨p, List.mem_cons_self, hpages⟩, ?_⟩
      rcases htail with ⟨_, rfl⟩ | ⟨_, htaken'⟩
      · exact htaken
      · exact htaken.trans htaken'.1

/-- entries that ask for no page are loaded, and nothing changes -/
theorem loadTable_no_pages (hload : ∀ p ∈ table, p.type = elfProgHdrTypeLoad) (hzero : ∀ p ∈ table, segmentPageCount p = 0) :
    loadTable A mi cur kernPagingCtx rawElf table r = .ok r := by
  induction table generalizing r with
  | nil => rfl
  | cons p table ih =>
    rw [loadTable_cons_load (hload p List.mem_cons_self), handle_eq_rounds, hzero p List.mem_cons_self]
    exact ih (fun q hq => hload q (List.mem_cons_of_mem p hq)) fun q hq => hzero q (List.mem_cons_of_mem p hq)

/-! ## Leaving out the NULL entries -/

theorem notNull_of_load (h : progHdr.type = elfProgHdrTypeLoad) : NotNull progHdr = true := by
  simp [NotNull, h, elfProgHdrTypeLoad, elfProgHdrTypeNull]

theorem not_notNull (h : progHdr.type = elfProgHdrTypeNull) : NotNull progHdr = false := by
  simp [NotNull, h]

/-- a table of NULL and loadable entries, cut at the first NULL one -/
theorem table_split (hkind : ∀ p ∈ table, p.type = elfProgHdrTypeNull ∨ p.type = elfProgHdrTypeLoad) :
    ((∀ p ∈ table, p.type = elfProgHdrTypeLoad) ∧ table.dropWhile NotNull = []) ∨
      ∃ pre p post, table = pre ++ p :: post ∧ (∀ q ∈ pre, q.type = elfProgHdrTypeLoad) ∧ p.type = elfProgHdrTypeNull ∧
        table.dropWhile NotNull = p :: post := by
  induction table with
  | nil => exact Or.inl ⟨by simp, rfl⟩
  | cons p table ih =>
    rcases hkind p List.mem_cons_self with hnull | hload
    · refine Or.inr ⟨[], p, table, rfl, by simp, hnull, ?_⟩
      rw [List.dropWhile_cons, if_neg (by simp [not_notNull hnull])]
    · rw [List.dropWhile_cons, if_pos (notNull_of_load hload)]
      rcases ih fun q hq => hkind q (List.mem_cons_of_mem p hq) with ⟨hall, hdrop⟩ | ⟨pre, q, post, rfl, hpre, hq, hdrop⟩
      · exact Or.inl ⟨by simpa [hload] using hall, hdrop⟩
      · exact Or.inr ⟨p :: pre, q, post, rfl, by simpa [hload] using hpre, hq, hdrop⟩

/-- **The NULL entries of a table.** -/
theorem loadTable_filter (hkind : ∀ p ∈ table, p.type = elfProgHdrTypeNull ∨ p.type = elfProgHdrTypeLoad) :
    (∀ e, loadTable A mi cur kernPagingCtx rawElf table r = .error e →
      loadTable A mi cur kernPagingCtx rawElf (table.filter NotNull) r = .error e) ∧
    ∀ r', loadTable A mi cur kernPagingCtx rawElf table r = .ok r' →
      (loadTable A mi cur kernPagingCtx rawElf (table.filter NotNull) r = .ok r' ↔ NoneAfterNull table) := by
  rcases table_split hkind with ⟨hall, hdrop⟩ | ⟨pre, p, post, rfl, hpre, hp, hdrop⟩
  · have hfilter : table.filter NotNull = table := List.filter_eq_self.2 fun p hp => notNull_of_load (hall p hp)
    rw [hfilter]
    exact ⟨fun e he => he, fun r' hr' => ⟨fun _ => by simp [NoneAfterNull, hdrop], fun _ => hr'⟩⟩
  · have hfilter : (pre ++ p :: post).filter NotNull = pre ++ post.filter NotNull := by
      rw [List.filter_append, List.filter_cons_of_neg (by simp [not_notNull hp]),
        List.filter_eq_self.2 fun q hq => notNull_of_load (hpre q hq)]
    have hload : ∀ q ∈ post.filter NotNull, q.type = elfProgHdrTypeLoad := by
      intro q hq
      obtain ⟨hmem, hnn⟩ := List.mem_filter.1 hq
      refine (hkind q (by simp [hmem])).resolve_left fun h => ?_
      rw [not_notNull h] at hnn
      cases hnn
    have hcond : NoneAfterNull (pre ++ p :: post) ↔ ∀ q ∈ post.filter NotNull, segmentPageCount q = 0 := by
      unfold NoneAfterNull
      rw [hdrop]
      constructor
      · intro h q hq
        exact h q (List.mem_cons_of_mem p (List.mem_of_mem_filter hq)) (hload q hq)
      · intro h q hq hql
        rcases List.mem_cons.1 hq with rfl | hq
        · rw [hp] at hql
          cases hql
        · exact h q (List.mem_filter.2 ⟨hq, notNull_of_load hql⟩)
    rw [loadTable_null hpre hp, hfilter, loadTable_append hpre, hcond]
    constructor
    · intro e he
      rw [he]
      rfl
    · intro r' hr'
      rw [hr']
      constructor
      · intro hsame
        rcases loadTable_cases hload hsame with ⟨hzero, _⟩ | ⟨_, htaken⟩
        · exact hzero
        · exact absurd rfl htaken.ne
      · intro hzero
        exact loadTable_no_pages hload hzero

/-- **When NULL entries are ignored.** For every table of NULL and loadable entries, and any file whose table is the same
without the NULL ones and whose segments have the same bytes: where `elf_load` panics, it panics alike on both; and where it
returns, it has the same effect on the two contexts and on memory if and only if no loadable entry after the first NULL one
asks for a page. -/
theorem null_entries_iff {header' : Hdr}
    (hkind : ∀ p ∈ progHdrs header rawElf, p.type = elfProgHdrTypeNull ∨ p.type = elfProgHdrTypeLoad)
    (htable : progHdrs header' rawElf' = (progHdrs header rawElf).filter NotNull)
    (hbytes : ∀ p ∈ progHdrs header' rawElf', SameBytes rawElf rawElf' p) (m : Machine) (kern task : VmmContext) :
    (∀ e, elfLoad A mi cur kernPagingCtx header rawElf m kern task = .error e →
      elfLoad A mi cur kernPagingCtx header' rawElf' m kern task = .error e) ∧
    ∀ r, elfLoad A mi cur kernPagingCtx header rawElf m kern task = .ok r →
      (elfLoad A mi cur kernPagingCtx header' rawElf' m kern task = .ok r ↔ NoneAfterNull (progHdrs header rawElf)) := by
  rw [elfLoad_eq_table, elfLoad_eq_table, ← loadTable_congr hbytes, htable]
  exact loadTable_filter hkind

end Table

/-! ### Concrete files -/

section Concrete

/-- a loadable entry with two bytes of the file at 96, a NULL entry, and a loadable entry that asks for no page -/
def nullBetween : Mem :=
  ofWords [1, 96, 0x400000, 0x400000, 2, 3, 6, 4096, 0, 0, 0, 0, 0, 0, 0, 0, 1, 0, 0x500000, 0x500000, 0, 0, 6, 4096, 0x0101]

/-- the same without the NULL entry -/
def nullLeftOut : Mem :=
  ofWords [1, 96, 0x400000, 0x400000, 2, 3, 6, 4096, 1, 0, 0x500000, 0x500000, 0, 0, 6, 4096, 0, 0, 0, 0, 0, 0, 0, 0, 0x0101]

instance (rawElf rawElf' : Mem) (progHdr : ProgHdr) : Decidable (SameBytes rawElf rawElf' progHdr) :=
  inferInstanceAs (Decidable (∀ i < segmentPageCount progHdr, ∀ k < fileSizeAt progHdr i, rawElf _ = rawElf' _))

/-- their two loadable entries -/
def firstEntry : ProgHdr :=
  ⟨1, 96, 0x400000, 2, 3, 6, alignedSegment.vaddr_lt, alignedSegment.filesz_lt, alignedSegment.memsz_lt⟩

def emptyEntry : ProgHdr := ⟨1, 0, 0x500000, 0, 0, 6, by decide, by decide, by decide⟩

theorem progHdrs_leftOut : progHdrs ⟨0, 32, 2⟩ nullLeftOut = [firstEntry, emptyEntry] := by decide +kernel

theorem null_entries_iff_between :
    ∃ r, elfLoad .top .atOneMegabyte newCurrent context ⟨0, 32, 3⟩ nullBetween newMachine fresh.2 newTask.2 = .ok r ∧
      elfLoad .top .atOneMegabyte newCurrent context ⟨0, 32, 2⟩ nullLeftOut newMachine fresh.2 newTask.2 = .ok r := by
  have hr := @eq_returned _ _
    (elfLoad .top .atOneMegabyte newCurrent context ⟨0, 32, 3⟩ nullBetween newMachine fresh.2 newTask.2)
    (newMachine, fresh.2, newTask.2) (by decide +kernel)
  have hbytes : ∀ p ∈ progHdrs ⟨0, 32, 2⟩ nullLeftOut, SameBytes nullBetween nullLeftOut p := by
    rw [progHdrs_leftOut]
    decide +kernel
  refine ⟨_, hr, ((null_entries_iff ?_ ?_ hbytes newMachine fresh.2 newTask.2).2 _ hr).2 ?_⟩
  · decide +kernel
  · rw [progHdrs_leftOut]
    decide +kernel
  · unfold NoneAfterNull
    decide +kernel

/-- a NULL entry, and a loadable one with two bytes of the file at 64 -/
def nullFirst : Mem :=
  ofWords [0, 0, 0, 0, 0, 0, 0, 0, 1, 64, 0x400000, 0x400000, 2, 3, 6, 4096, 0x0101]

/-- what is loaded of it when the table starts at the second entry -/
def secondLoaded : Machine × VmmContext × VmmContext :=
  returned (newMachine, fresh.2, newTask.2)
    (elfLoad .top .atOneMegabyte newCurrent context ⟨32, 32, 1⟩ nullFirst newMachine fresh.2 newTask.2)

/-- **A segment after a NULL entry is not loaded.** Of a table that is a NULL entry and a loadable one nothing is loaded, and
memory and contexts are as they were; of the same table without the NULL entry a page is loaded, in frame 8. -/
theorem load_after_null :
    progHdrs ⟨32, 32, 1⟩ nullFirst = (progHdrs ⟨0, 32, 2⟩ nullFirst).filter NotNull ∧
      elfLoad .top .atOneMegabyte newCurrent context ⟨0, 32, 2⟩ nullFirst newMachine fresh.2 newTask.2 =
        .ok (newMachine, fresh.2, newTask.2) ∧
      elfLoad .top .atOneMegabyte newCurrent context ⟨32, 32, 1⟩ nullFirst newMachine fresh.2 newTask.2 = .ok secondLoaded ∧
      used newMachine.bitmap 8 = false ∧ used secondLoaded.1.bitmap 8 = true := by
  refine ⟨by decide +kernel, rfl, ?_, by decide, by decide +kernel⟩
  exact eq_returned _ (by decide +kernel)

end Concrete

end Gubos.Elf
