/-
Stores through a page that the page fault handler maps (`memcpy` and `memset` in `elf/loader.c`).

- `Unmapped`: the page of an address has no entry in the current page tables. Mapping another page and unmapping keep it so;
- `store_backed`: a store to the page of an allocation goes to the allocation's frame, whether the page is mapped or not;
- `store_refused`: a store to a page without allocation is a panic;
- `memcpy_backed`, `memcpy_stops`: the bytes are written one after the other, up to the first page without allocation.
-/
import Gubos.Elf.Loader
import Gubos.Mm.PageUnmap

namespace Gubos.Elf

open Gubos.Core Gubos.Paging Gubos.Vmm Gubos.Pmm Gubos.PageFault

/-! ## Pages that are not mapped -/

/-- the table entry of the page is not present, and the directory entry, where it is, leads to that table -/
structure Unmapped (mi : KernelMeminfo) (tables : Tables) (ctx : PagingContext) (x : ℕ) : Prop where
  own : present (tables ctx.pageDirectory (pageDirectoryIndex x)) = true →
    vmmPhysicalToVirtual mi (frameOf (tables ctx.pageDirectory (pageDirectoryIndex x))) = ctx.table (pageDirectoryIndex x)
  entry : present (tables (ctx.table (pageDirectoryIndex x)) (pageTableIndex x)) = false

/-- a walk ends in the frame -/
def Maps (mi : KernelMeminfo) (tables : Tables) (ctx : PagingContext) (x frame : ℕ) : Prop :=
  ∃ tr, walk mi tables ctx.pageDirectory x = some tr ∧ tr.frame = frame

section Tables

variable {mi : KernelMeminfo} {tables : Tables} {ctx ctx' : PagingContext} {x y pa flags frame : ℕ}

/-- addresses of one page have the same entries -/
theorem indices_of_page (h : x / pageSize = y / pageSize) :
    pageDirectoryIndex x = pageDirectoryIndex y ∧ pageTableIndex x = pageTableIndex y := by
  simp only [pageDirectoryIndex_eq, pageTableIndex_eq, pageSize] at h ⊢
  omega

theorem page_of_indices (hd : pageDirectoryIndex x = pageDirectoryIndex y) (ht : pageTableIndex x = pageTableIndex y) :
    x / pageSize = y / pageSize := by
  simp only [pageDirectoryIndex_eq, pageTableIndex_eq, pageSize] at hd ht ⊢
  omega

theorem walk_of_page (h : x / pageSize = y / pageSize) :
    walk mi tables ctx.pageDirectory x = walk mi tables ctx.pageDirectory y := by
  obtain ⟨hd, ht⟩ := indices_of_page h
  unfold Paging.walk
  rw [hd, ht]

theorem Maps.of_page (hm : Maps mi tables ctx y frame) (h : x / pageSize = y / pageSize) : Maps mi tables ctx x frame := by
  unfold Maps
  rw [walk_of_page h]
  exact hm

theorem Unmapped.of_page (hu : Unmapped mi tables ctx y) (h : x / pageSize = y / pageSize) : Unmapped mi tables ctx x := by
  obtain ⟨hd, ht⟩ := indices_of_page h
  refine ⟨?_, ?_⟩
  · rw [hd]
    exact hu.own
  · rw [hd, ht]
    exact hu.entry

theorem Unmapped.walk_none (hu : Unmapped mi tables ctx x) : walk mi tables ctx.pageDirectory x = none := by
  unfold Paging.walk
  dsimp only
  by_cases hp : present (tables ctx.pageDirectory (pageDirectoryIndex x)) = true
  · rw [if_pos hp, hu.own hp, hu.entry, if_neg Bool.false_ne_true]
  · rw [if_neg hp]

/-- another page is mapped -/
theorem Unmapped.map (hu : Unmapped mi tables ctx x) (hp : Placed mi ctx) (hx : x < 2 ^ 32) (hy : y < 2 ^ 32)
    (hflags : flags < 4096) (hne : x / pageSize ≠ y / pageSize) :
    Unmapped mi (pagingMapVirtualToPhysical mi ctx tables y pa flags) ctx x := by
  have hidx := pageDirectoryIndex_lt hx
  refine ⟨?_, ?_⟩
  · rw [map_directory tables pa flags hp hy]
    by_cases hd : pageDirectoryIndex x = pageDirectoryIndex y
    · intro _
      rw [if_pos hd, frameOf_or (hp.table_aligned hidx) hflags]
      exact vmmPhysicalToVirtual_virtualToPhysical mi (hp.table_lt hidx)
    · rw [if_neg hd]
      exact hu.own
  · rw [map_table tables pa flags hp hy hidx, if_neg fun h => hne (page_of_indices h.1 h.2)]
    exact hu.entry

/-- a page is unmapped, in whatever context: the entries written are not present -/
theorem Unmapped.unmap (hu : Unmapped mi tables ctx x) (hp' : Placed mi ctx') (hy : y < 2 ^ 32) :
    Unmapped mi (pagingUnmapAddr mi ctx' tables y) ctx x := by
  have hgone : present (vmmVirtualToPhysical mi (ctx'.table (pageDirectoryIndex y))) = false :=
    present_of_aligned (hp'.table_aligned (pageDirectoryIndex_lt hy))
  have hentry : ∀ t i, pagingUnmapAddr mi ctx' tables y t i = tables t i ∨
      present (pagingUnmapAddr mi ctx' tables y t i) = false := by
    intro t i
    by_cases hdir : t = ctx'.pageDirectory ∧ i = pageDirectoryIndex y
    · right
      rw [hdir.1, hdir.2, unmapAddr_directory tables hp' hy, if_pos rfl, hgone]
    by_cases htab : t = ctx'.table (pageDirectoryIndex y) ∧ i = pageTableIndex y
    · right
      rw [htab.1, htab.2, unmapAddr_table]
      rfl
    · exact Or.inl (unmapAddr_of_ne tables (not_and_or.1 hdir) (not_and_or.1 htab))
  refine ⟨fun hpres => ?_, ?_⟩
  · rcases hentry ctx.pageDirectory (pageDirectoryIndex x) with hsame | hnot
    · rw [hsame] at hpres ⊢
      exact hu.own hpres
    · rw [hnot] at hpres
      cases hpres
  · rcases hentry (ctx.table (pageDirectoryIndex x)) (pageTableIndex x) with hsame | hnot
    · rw [hsame]
      exact hu.entry
    · exact hnot

end Tables

/-! ## One store -/

/-- an allocation that the handler maps to its frame -/
structure Backing (a : VmmAllocation) : Prop where
  count : a.pageCount ≠ 0
  frame : a.physicalAddr ≠ 0
  aligned : a.physicalAddr % pageSize = 0
  flags : a.flags < 4096
  present : a.flags.testBit 0 = true

/-- pages other than that of `va` that were not mapped still are not -/
def OthersKept (mi : KernelMeminfo) (ctx : PagingContext) (va : ℕ) (tables tables' : Tables) : Prop :=
  ∀ x < 2 ^ 32, x / pageSize ≠ va / pageSize → Unmapped mi tables ctx x → Unmapped mi tables' ctx x

section Stores

variable {mi : KernelMeminfo} {cur : Current} {m m' : Machine} {a : VmmAllocation} {va addr off num : ℕ} {v : UInt8}
  {f : ℕ → UInt8}

theorem OthersKept.refl (ctx : PagingContext) (tables : Tables) : OthersKept mi ctx va tables tables :=
  fun _ _ _ hu => hu

theorem OthersKept.trans {ctx : PagingContext} {tables₁ tables₂ tables₃ : Tables} (h₁ : OthersKept mi ctx va tables₁ tables₂)
    (h₂ : OthersKept mi ctx va tables₂ tables₃) : OthersKept mi ctx va tables₁ tables₃ :=
  fun x hx hne hu => h₂ x hx hne (h₁ x hx hne hu)

theorem othersKept_map {ctx : PagingContext} {tables : Tables} {pa flags : ℕ} (hp : Placed mi ctx) (hx : addr < 2 ^ 32)
    (hflags : flags < 4096) (hpage : addr / pageSize = va / pageSize) :
    OthersKept mi ctx va tables (pagingMapVirtualToPhysical mi ctx tables (pagingAlignAddr addr) pa flags) := by
  intro x hx' hne hu
  refine hu.map hp hx' (lt_of_le_of_lt (Nat.div_mul_le_self _ _) hx) hflags ?_
  rw [pagingAlignAddr_div, hpage]
  exact hne

/-- **A store to the page of an allocation** goes to its frame. -/
theorem store_backed (hp : Placed mi cur.pagingCtx) (ha : Backing a) (hx : addr < 2 ^ 32)
    (hfound : vmmFindAllocation m.heap cur.vmmContext (pagingAlignAddr addr) = .ok a)
    (hopen : Unmapped mi m.tables cur.pagingCtx addr ∨ Maps mi m.tables cur.pagingCtx addr a.physicalAddr) (v : UInt8) :
    ∃ tables, store mi cur m addr v =
        .ok { m with tables := tables, memory := store8 m.memory (a.physicalAddr + addr % pageSize) v } ∧
      Maps mi tables cur.pagingCtx addr a.physicalAddr ∧ OthersKept mi cur.pagingCtx addr m.tables tables := by
  rcases hopen with hu | ⟨tr, hwalk, hframe⟩
  · have hfault := @handler_of_found mi cur.pagingCtx m.bitmap a addr 2 m.tables ⟨m.heap, cur.vmmContext⟩ (by decide) hfound
      ha.count ha.frame
    have hwalk := walk_map_page m.tables hp hx ha.aligned ha.flags
    rw [if_pos ha.present] at hwalk
    refine ⟨_, ?_, ⟨_, hwalk, rfl⟩, othersKept_map hp hx ha.flags rfl⟩
    unfold store access
    rw [hu.walk_none, hfault]
    dsimp only [bind, Except.bind]
    rw [hwalk]
  · refine ⟨m.tables, ?_, ⟨tr, hwalk, hframe⟩, .refl _ _⟩
    unfold store access
    rw [hwalk]
    dsimp only [bind, Except.bind]
    rw [hframe]

/-- **A store to a page without allocation** is a panic. -/
theorem store_refused (hu : Unmapped mi m.tables cur.pagingCtx addr)
    (hfound : vmmFindAllocation m.heap cur.vmmContext (pagingAlignAddr addr) = .ok a) (hcount : a.pageCount = 0) :
    store mi cur m addr v ≠ .ok m' := by
  intro hok
  obtain ⟨⟨m₁, physicalAddr⟩, haccess, _⟩ := bind_ok.1 hok
  unfold access at haccess
  rw [hu.walk_none] at haccess
  obtain ⟨⟨bitmap, tables⟩, hfault, _⟩ := bind_ok.1 haccess
  obtain ⟨d, hd, hd0⟩ := @found_of_handler mi cur.pagingCtx m.bitmap addr 2 m.tables ⟨m.heap, cur.vmmContext⟩ _ hfault
  rw [hfound] at hd
  cases hd
  exact hd0 hcount

/-- a store that returns maps no other page -/
theorem store_keeps (hp : Placed mi cur.pagingCtx) (hx : addr < 2 ^ 32)
    (hfound : vmmFindAllocation m.heap cur.vmmContext (pagingAlignAddr addr) = .ok a) (hflags : a.flags < 4096)
    (hok : store mi cur m addr v = .ok m') : OthersKept mi cur.pagingCtx addr m.tables m'.tables := by
  obtain ⟨⟨m₁, physicalAddr⟩, haccess, hok⟩ := bind_ok.1 hok
  cases hok
  unfold access at haccess
  split at haccess
  · cases haccess
    exact .refl _ _
  · obtain ⟨⟨bitmap, tables⟩, hfault, haccess⟩ := bind_ok.1 haccess
    dsimp only at haccess
    split at haccess
    · cases haccess
      unfold pageFaultHandler at hfault
      rw [if_neg (by decide)] at hfault
      obtain ⟨d, hd, hfault⟩ := bind_ok.1 hfault
      rw [hfound] at hd
      cases hd
      dsimp only at hfault
      split_ifs at hfault
      · obtain ⟨⟨pa, bm⟩, _, hfault⟩ := bind_ok.1 hfault
        cases hfault
        exact othersKept_map hp hx hflags rfl
      · obtain ⟨⟨pa, bm⟩, _, hfault⟩ := bind_ok.1 hfault
        cases hfault
        exact othersKept_map hp hx hflags rfl
    · cases haccess

/-! ## Loops of stores -/

theorem memset_eq (m : Machine) (ptr : ℕ) (value : UInt8) (num : ℕ) :
    memset mi cur m ptr value num = memcpy mi cur m ptr (fun _ => value) num := rfl

/-- **The bytes of one page** are written to its frame. -/
theorem memcpy_backed (hp : Placed mi cur.pagingCtx) (ha : Backing a) (hva : va % pageSize = 0) (hfits : va + pageSize ≤ 2 ^ 32)
    (hle : off + num ≤ pageSize) (hfound : vmmFindAllocation m.heap cur.vmmContext va = .ok a)
    (hopen : Unmapped mi m.tables cur.pagingCtx va ∨ Maps mi m.tables cur.pagingCtx va a.physicalAddr) :
    ∃ tables, memcpy mi cur m (va + off) f num =
        .ok { m with tables := tables, memory := fill m.memory (a.physicalAddr + off) num f } ∧
      (Unmapped mi tables cur.pagingCtx va ∨ Maps mi tables cur.pagingCtx va a.physicalAddr) ∧
      OthersKept mi cur.pagingCtx va m.tables tables := by
  induction num with
  | zero =>
    refine ⟨m.tables, ?_, hopen, .refl _ _⟩
    rw [fill_zero]
    rfl
  | succ num ih =>
    obtain ⟨tables, hcopy, hopen, hkept⟩ := ih (by omega)
    simp only [pageSize] at hva hfits hle
    have haddr : u32 (va + off + num) = va + (off + num) := by
      rw [u32_of_lt (by omega), Nat.add_assoc]
    have hpage : (va + (off + num)) / pageSize = va / pageSize := by
      simp only [pageSize]
      omega
    have halign : pagingAlignAddr (va + (off + num)) = va := by
      unfold pagingAlignAddr
      simp only [pageSize]
      omega
    have hmod : (va + (off + num)) % pageSize = off + num := by
      simp only [pageSize]
      omega
    obtain ⟨tables', hstore, hmaps, hkept'⟩ := @store_backed mi cur
      { m with tables := tables, memory := fill m.memory (a.physicalAddr + off) num f } a (va + (off + num)) hp ha (by omega)
      (halign.symm ▸ hfound) (hopen.imp (fun hu => hu.of_page hpage) fun hm => hm.of_page hpage) (f num)
    have hothers : OthersKept mi cur.pagingCtx va tables tables' := fun x hx hne hu => hkept' x hx (hpage.symm ▸ hne) hu
    refine ⟨tables', ?_, Or.inr (hmaps.of_page hpage.symm), hkept.trans hothers⟩
    unfold memcpy at hcopy ⊢
    rw [List.range_succ, List.foldlM_append, hcopy]
    refine bind_ok.2 ⟨_, rfl, ?_⟩
    rw [List.foldlM_cons]
    refine bind_ok.2 ⟨_, ?_, rfl⟩
    have hnext := fill_succ m.memory (a.physicalAddr + off) num f
    rw [Nat.add_assoc] at hnext
    rw [hmod] at hstore
    rw [haddr, ← hnext]
    exact hstore

/-- a page without allocation: no byte is written -/
theorem memcpy_refused (hva : va % pageSize = 0) (hfits : va + pageSize ≤ 2 ^ 32) (hoff : off < pageSize)
    (hu : Unmapped mi m.tables cur.pagingCtx va) (hfound : vmmFindAllocation m.heap cur.vmmContext va = .ok a)
    (hcount : a.pageCount = 0) (hok : memcpy mi cur m (va + off) f num = .ok m') : num = 0 := by
  refine (foldlM_range_inv (P := fun n s => n = 0 ∧ s = m) ⟨rfl, rfl⟩ (fun i _ s s' hP hstore => ?_) hok).1
  obtain ⟨rfl, rfl⟩ := hP
  simp only [pageSize] at hva hfits hoff
  have haddr : u32 (va + off + 0) = va + off := u32_of_lt (by omega)
  have hpage : (va + off) / pageSize = va / pageSize := by
    simp only [pageSize]
    omega
  have halign : pagingAlignAddr (va + off) = va := by
    unfold pagingAlignAddr
    simp only [pageSize]
    omega
  rw [haddr] at hstore
  exact absurd hstore (store_refused (hu.of_page hpage) (halign.symm ▸ hfound) hcount)

/-- **The bytes do not go on to a page without allocation.** -/
theorem memcpy_stops {d : VmmAllocation} (hp : Placed mi cur.pagingCtx) (hva : va % pageSize = 0)
    (hfits : va + 2 * pageSize ≤ 2 ^ 32) (hfound : vmmFindAllocation m.heap cur.vmmContext va = .ok a) (hflags : a.flags < 4096)
    (hu : Unmapped mi m.tables cur.pagingCtx (va + pageSize))
    (hnone : vmmFindAllocation m.heap cur.vmmContext (va + pageSize) = .ok d) (hcount : d.pageCount = 0)
    (hoff : off ≤ pageSize) (hok : memcpy mi cur m (va + off) f num = .ok m') :
    off + num ≤ pageSize ∧ OthersKept mi cur.pagingCtx va m.tables m'.tables := by
  simp only [pageSize] at hva hfits hoff
  have hinv := foldlM_range_inv (P := fun n s => off + n ≤ pageSize ∧ s.heap = m.heap ∧
      OthersKept mi cur.pagingCtx va m.tables s.tables) ⟨hoff, rfl, .refl _ _⟩ (fun i _ s s' hP hstore => ?_) hok
  · exact ⟨hinv.1, hinv.2.2⟩
  obtain ⟨hle, hheap, hkept⟩ := hP
  simp only [pageSize] at hle
  have haddr : u32 (va + off + i) = va + (off + i) := by
    rw [u32_of_lt (by omega), Nat.add_assoc]
  rw [haddr] at hstore
  rcases Nat.lt_or_eq_of_le hle with hlt | hend
  · have hpage : (va + (off + i)) / pageSize = va / pageSize := by
      simp only [pageSize]
      omega
    have halign : pagingAlignAddr (va + (off + i)) = va := by
      unfold pagingAlignAddr
      simp only [pageSize]
      omega
    have hfound' : vmmFindAllocation s.heap cur.vmmContext (pagingAlignAddr (va + (off + i))) = .ok a := by
      rw [hheap, halign]
      exact hfound
    have hstep := store_keeps hp (by omega) hfound' hflags hstore
    have hothers : OthersKept mi cur.pagingCtx va s.tables s'.tables := fun x hx hne hu => hstep x hx (hpage.symm ▸ hne) hu
    exact ⟨by simp only [pageSize]; omega, (store_heap hstore).trans hheap, hkept.trans hothers⟩
  · -- the first byte of the next page
    have hnext : va + (off + i) = va + pageSize := by
      simp only [pageSize]
      omega
    have halign : pagingAlignAddr (va + pageSize) = va + pageSize := by
      unfold pagingAlignAddr
      simp only [pageSize]
      omega
    have hne : (va + pageSize) / pageSize ≠ va / pageSize := by
      simp only [pageSize]
      omega
    have hu' := hkept (va + pageSize) (by simp only [pageSize]; omega) hne hu
    rw [hnext] at hstore
    refine absurd hstore (store_refused hu' ?_ hcount)
    rw [hheap, halign]
    exact hnone

end Stores

end Gubos.Elf
