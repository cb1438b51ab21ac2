/-
The page fault handler (`interrupts/page_fault.c`).

The handler looks up the page of the fault in the current task's VMM context and maps it, with the flags of the allocation,
to the allocation's physical address: the address of its FIRST page, whichever page the fault is in. An allocation without a
physical address gets a page of the PMM.

- `track_inv`: in every run as in `Unmapping`, an allocation is found at its address, if it does not end at 2^32;
- `fault_backing`: so a fault maps page `k` of an allocation to the `k`-th page behind its physical address exactly when `k` is
  0, the allocation does not end at 2^32 (where lookups take its end to be 0) and its flags have `PAGE_FLAG_PRESENT`;
- `second_page_backed_by_first`: a fault in the second page of an allocation.

Premises: those of `Unmapping`; the tables are `Placed`; the flags are in the lower 12 bits.
-/
import Gubos.Mm.Pmm
import Gubos.Mm.Unmapping

namespace Gubos.PageFault

open Gubos.Core Gubos.Paging Gubos.Vmm Gubos.Pmm

/-! ## The code -/

/-- `PAGING_ERR_CODE_P`, `PAGING_ERR_CODE_US` -/
def pagingErrCodeP : ℕ := 1
def pagingErrCodeUs : ℕ := 4

/-- `page_fault_handler`, with the contexts of `CURRENT_TASK` -/
def pageFaultHandler (mi : KernelMeminfo) (s : Space) (pagingCtx : PagingContext) (bm : Bitmap) (mem : Tables)
    (addr errCode : ℕ) : Except Fault (Bitmap × Tables) :=
  if errCode &&& pagingErrCodeP ≠ 0 then
    if errCode &&& pagingErrCodeUs ≠ 0 then .error (.panic .misbehavingUserProcess)
    else .error (.panic .kernelProtectionFault)
  else do
    let alignedVaddr := pagingAlignAddr addr
    let alloc ← vmmFindAllocation s.heap s.ctx alignedVaddr
    if alloc.pageCount = 0 then .error (.panic .invalidVmmState)
    else do
      let (physicalAddr, bm) ← if alloc.physicalAddr ≠ 0 then .ok (alloc.physicalAddr, bm) else pmmAllocPage bm
      .ok (bm, pagingMapVirtualToPhysical mi pagingCtx mem alignedVaddr physicalAddr alloc.flags)

/-! ## Runs -/

/-- an address space with the records of its allocations -/
structure Tracked where
  used : Used
  records : List VmmAllocation

def areaOf (a : VmmAllocation) : Area := ⟨a.virtualAddr, a.pageCount⟩

def trackStep (A : Allocator) (mi : KernelMeminfo) (s : Tracked) : Call → Except Fault Tracked
  | .map virtualAddr physicalAddr pageCount flags => do
    let (heap, ctx, addr) ← vmmMapPages A mi s.used.space.heap s.used.space.ctx virtualAddr physicalAddr pageCount flags
    .ok ⟨⟨⟨heap, ctx⟩, ⟨addr, pageCount⟩ :: s.used.live⟩, ⟨addr, physicalAddr, pageCount, flags⟩ :: s.records⟩
  | .unmap virtualAddr pageCount => do
    let used ← useStep A mi s.used (.unmap virtualAddr pageCount)
    .ok ⟨used, s.records.filter fun a => areaOf a ≠ ⟨virtualAddr, pageCount⟩⟩

def entryRecord (e : AddrSpaceEntry) : VmmAllocation := ⟨e.virtualStart, e.physicalStart, e.pageCount, e.flags⟩

/-- a new address space and its records -/
def newlyTracked (es : List AddrSpaceEntry) (h : Heap) (ctx : VmmContext) : Tracked :=
  ⟨newlyUsed es h ctx, (mappedEntries es.reverse).map entryRecord⟩

/-- the handler returns, and a walk of the address then ends in `frame` -/
def Backs (mi : KernelMeminfo) (s : Space) (pagingCtx : PagingContext) (bm : Bitmap) (mem : Tables)
    (addr errCode frame : ℕ) : Prop :=
  ∃ bm' mem' tr, pageFaultHandler mi s pagingCtx bm mem addr errCode = .ok (bm', mem') ∧
    walk mi mem' pagingCtx.pageDirectory addr = some tr ∧ tr.frame = frame

/-! ## Records are found -/

/-- what is known of a record: it is an allocation that is found at its address, if it does not end at 2^32 -/
structure Known (s : Space) (live : List Area) (a : VmmAllocation) : Prop where
  live : areaOf a ∈ live
  aligned : a.physicalAddr % pageSize = 0
  found : a.virtualAddr + a.pageCount * pageSize < 2 ^ 32 → vmmFindAllocation s.heap s.ctx a.virtualAddr = .ok a

section Records

variable {A : Allocator} {mi : KernelMeminfo} {h h' : Heap} {ctx ctx' : VmmContext} {l : List (ℕ × Area)}
  {t t' : BinaryTree (ℕ × VmmAllocation)} {M M' : Set ℕ} {live : List Area} {records : List VmmAllocation} {s s' : Tracked}
  {a : VmmAllocation} {va pa n flags r x : ℕ}

/-- a record stays known while another one is added -/
theorem Known.kept {live' : List Area} {l' : List (ℕ × Area)} {b : VmmAllocation} (hk : Known ⟨h, ctx⟩ live a)
    (hi : Held ⟨⟨h, ctx⟩, live⟩ l t M) (hi' : Held ⟨⟨h', ctx'⟩, live'⟩ l' t' M') (hsub : live ⊆ live') (hgrown : Grown t b t')
    (hroot : RootOk t) : Known ⟨h', ctx'⟩ live' a := by
  refine ⟨hsub hk.live, hk.aligned, fun hend => ?_⟩
  obtain ⟨p, hp⟩ := descend_of_found hi.rep (hi.areas _ hk.live).nonempty.ne' (hk.found hend)
  rw [vmmFindAllocation_eq hi'.rep, hgrown.found_old hroot hp]
  rfl

/-- **Mapping.** -/
theorem map_known (hi : Held ⟨⟨h, ctx⟩, live⟩ l t M) (hknown : ∀ a ∈ records, Known ⟨h, ctx⟩ live a) (hn : 1 ≤ n)
    (hva : va % pageSize = 0) (hfit : FitOk mi l va n flags) (hroot : RootOk t)
    (hok : vmmMapPages A mi h ctx va pa n flags = .ok (h', ctx', r)) :
    ∀ a ∈ (⟨r, pa, n, flags⟩ : VmmAllocation) :: records, Known ⟨h', ctx'⟩ (⟨r, n⟩ :: live) a := by
  obtain ⟨l₁, c, l₂, m, t', M', rfl, hcut, _, hgrown, hi'⟩ := map_held hi hn hva hfit hroot hok
  have hpa : pa % pageSize = 0 := by
    unfold vmmMapPages at hok
    dsimp only at hok
    split_ifs at hok with h1 h2 h3
    exact (pagingIsAligned_iff pa).1 h2
  intro a ha
  rcases List.mem_cons.1 ha with rfl | ha
  · refine ⟨List.mem_cons_self, hpa, fun hend => ?_⟩
    -- the address was free, so that it was not found before
    have hnone : descend (findDir r) t = none := by
      refine hi.lookup_none fun b hb => ?_
      have h1 := hi'.apart_erase List.mem_cons_self (by rw [List.erase_cons_head]; exact hb)
      have hn0 : 0 < n * pageSize := Nat.mul_pos hn (by decide)
      dsimp only at h1
      omega
    have hlt : r < endOf ⟨r, pa, n, flags⟩ := by
      unfold endOf
      rw [u32_of_lt hend]
      exact Nat.lt_add_of_pos_right (Nat.mul_pos hn (by decide))
    obtain ⟨p, hp⟩ := hgrown.found_new hnone hlt
    rw [vmmFindAllocation_eq hi'.rep, hp]
    rfl
  · exact (hknown a ha).kept hi hi' (List.subset_cons_self _ _) hgrown hroot

/-- the invariant of a run -/
def TrackInv (s : Tracked) : Prop := (∃ l t M, Held s.used l t M) ∧ ∀ a ∈ s.records, Known s.used.space s.used.live a

/-- **One call.** -/
theorem track_inv {o : Call} (hi : TrackInv s) (hwhole : WholeOk s.used o) (hexact : Exact mi s.used.space o)
    (hok : trackStep A mi s o = .ok s') : TrackInv s' := by
  obtain ⟨hheld, hknown⟩ := hi
  cases o with
  | map va pa n flags =>
    obtain ⟨⟨h', ctx', r⟩, hmap, hok⟩ := bind_ok.1 hok
    cases hok
    refine ⟨step_held hheld hwhole hexact (bind_ok.2 ⟨(h', ctx', r), hmap, rfl⟩), ?_⟩
    obtain ⟨l, t, M, hheld⟩ := hheld
    obtain ⟨hfit, hroot⟩ := hexact l t ⟨hheld.rep.list, hheld.rep.tree⟩
    exact map_known hheld hknown hwhole.1 hwhole.2 hfit hroot hmap
  | unmap va n =>
    obtain ⟨u', hunmap, hok⟩ := bind_ok.1 hok
    cases hok
    refine ⟨step_held hheld hwhole hexact hunmap, fun a ha => ?_⟩
    obtain ⟨l, t, M, hheld⟩ := hheld
    obtain ⟨hmerge, hmove⟩ := hexact l t ⟨hheld.rep.list, hheld.rep.tree⟩
    have hsame := (unmap_held hheld hwhole hmerge hmove hunmap).2
    obtain ⟨s', _, hu'⟩ := bind_ok.1 hunmap
    cases hu'
    obtain ⟨ha, hne⟩ := List.mem_filter.1 ha
    have hk := hknown a ha
    have hother : areaOf a ∈ s.used.live.erase ⟨va, n⟩ := (List.mem_erase_of_ne (of_decide_eq_true hne)).2 hk.live
    refine ⟨hother, hk.aligned, fun hend => ?_⟩
    -- its address is not in the range
    have hout : ¬ (va ≤ a.virtualAddr ∧ a.virtualAddr < va + n * pageSize) := by
      have h1 := hheld.apart_erase hwhole hother
      have h2 : 0 < a.pageCount * pageSize := Nat.mul_pos (hheld.areas _ hk.live).nonempty (by decide)
      unfold areaOf at h1
      dsimp only at h1
      omega
    rw [(hsame a.virtualAddr (by omega)).2 hout]
    exact hk.found hend

theorem newContext_track {es : List AddrSpaceEntry} {h₀ : Heap} (h0 : 0 < mi.higherHalfBase)
    (hal : mi.higherHalfBase % pageSize = 0) (hes : AddrSpaceOk mi es) (hnew : vmmNewContext A mi es h₀ = .ok (h, ctx)) :
    TrackInv (newlyTracked es h ctx) := by
  have hind := newContext_ind (P := fun s l done => ∃ t M, RootOk t ∧ Held ⟨s, (mappedEntries done).map entryArea⟩ l t M ∧
      ∀ a ∈ (mappedEntries done).map entryRecord, Known s ((mappedEntries done).map entryArea) a)
    (fun s l _ ⟨_, _, _, hi, _⟩ => hi.free)
    (fun s l r hr hb => ⟨_, ∅, rootOk_leaf _, held_blank hr hb, fun a ha => absurd ha List.not_mem_nil⟩) ?_ h0 hal hes hnew
  · obtain ⟨l, t, M, _, hi, hknown⟩ := hind
    exact ⟨⟨l, t, M, hi⟩, hknown⟩
  intro h ctx h' ctx' r l e done hP _ hva hva0 hfit hmap
  obtain ⟨t, M, hroot, hi, hknown⟩ := hP
  by_cases hn : e.pageCount = 0
  · rw [hn] at hfit hmap ⊢
    obtain ⟨l₁, c, l₂, m, t', M', hl, hcut, haddr, hgrown, hi'⟩ := map_held_empty hi hva hfit hroot hmap
    rw [haddr hva0] at hcut
    rw [mappedEntries_empty hn]
    exact ⟨l₁, c, l₂, m, hl, hcut, t', M', hgrown.rootOk_kept hroot, hi',
      fun a ha => (hknown a ha).kept hi hi' (List.Subset.refl _) hgrown hroot⟩
  · have hn1 := Nat.pos_of_ne_zero hn
    obtain ⟨l₁, c, l₂, m, t', M', hl, hcut, haddr, hgrown, hi'⟩ := map_held hi hn1 hva hfit hroot hmap
    have hknown' := map_known hi hknown hn1 hva hfit hroot hmap
    rw [haddr hva0] at hcut hi' hknown'
    rw [mappedEntries_cons hn]
    exact ⟨l₁, c, l₂, m, hl, hcut, t', M', hgrown.rootOk_kept hroot, hi', hknown'⟩

end Records

/-! ## The fault -/

section Fault

variable {A : Allocator} {mi : KernelMeminfo} {pagingCtx : PagingContext} {bm : Bitmap} {s : Tracked} {a : VmmAllocation}
  {pa flags x errCode k : ℕ} (mem : Tables)

/-- the walk of a page that is mapped -/
theorem walk_map_page (hp : Placed mi pagingCtx) (hx : x < 2 ^ 32) (hpa : pa % pageSize = 0) (hflags : flags < 4096) :
    walk mi (pagingMapVirtualToPhysical mi pagingCtx mem (pagingAlignAddr x) pa flags) pagingCtx.pageDirectory x =
      if flags.testBit 0 then some ⟨pa, flags.testBit 1, flags.testBit 2⟩ else none := by
  have hd := pageDirectoryIndex_align x
  have ht : pageTableIndex (pagingAlignAddr x) = pageTableIndex x := by
    rw [pageTableIndex_eq, pageTableIndex_eq]
    unfold pagingAlignAddr pageSize
    omega
  have hal : pagingAlignAddr x < 2 ^ 32 := lt_of_le_of_lt (pagingAlignAddr_le x) hx
  have hidx := pageDirectoryIndex_lt hx
  have htable := hp.table_aligned hidx
  have hpage : pa / pageSize * pageSize = pa := Nat.div_mul_cancel (Nat.dvd_of_mod_eq_zero hpa)
  have hpde : pagingMapVirtualToPhysical mi pagingCtx mem (pagingAlignAddr x) pa flags pagingCtx.pageDirectory
      (pageDirectoryIndex x) = vmmVirtualToPhysical mi (pagingCtx.table (pageDirectoryIndex x)) ||| flags := by
    rw [map_directory mem pa flags hp hal, if_pos hd.symm]
  have hpte : pagingMapVirtualToPhysical mi pagingCtx mem (pagingAlignAddr x) pa flags
      (pagingCtx.table (pageDirectoryIndex x)) (pageTableIndex x) = pa ||| flags := by
    rw [map_table mem pa flags hp hal hidx, if_pos ⟨hd.symm, ht.symm⟩, hpage]
  unfold Paging.walk present writable userAccess
  dsimp only
  rw [hpde, frameOf_or htable hflags, vmmPhysicalToVirtual_virtualToPhysical mi (hp.table_lt hidx), hpte,
    frameOf_or hpa hflags]
  simp only [testBit_or_flags htable, testBit_or_flags hpa, Nat.reduceLT, Bool.and_self]
  by_cases h0 : flags.testBit 0 = true
  · rw [if_pos h0, if_pos h0]
  · rw [if_neg h0, if_neg h0]

/-- the handler, for an allocation with a physical address -/
theorem handler_of_found {sp : Space} (herr : errCode &&& pagingErrCodeP = 0)
    (hfound : vmmFindAllocation sp.heap sp.ctx (pagingAlignAddr x) = .ok a) (hcount : a.pageCount ≠ 0)
    (hpa : a.physicalAddr ≠ 0) :
    pageFaultHandler mi sp pagingCtx bm mem x errCode =
      .ok (bm, pagingMapVirtualToPhysical mi pagingCtx mem (pagingAlignAddr x) a.physicalAddr a.flags) := by
  unfold pageFaultHandler
  rw [if_neg (not_not.2 herr)]
  refine bind_ok.2 ⟨a, hfound, ?_⟩
  dsimp only
  rw [if_neg hcount, if_pos hpa]
  rfl

/-- the handler returns only for an allocation -/
theorem found_of_handler {sp : Space} {r : Bitmap × Tables} (hok : pageFaultHandler mi sp pagingCtx bm mem x errCode = .ok r) :
    ∃ d, vmmFindAllocation sp.heap sp.ctx (pagingAlignAddr x) = .ok d ∧ d.pageCount ≠ 0 := by
  unfold pageFaultHandler at hok
  split_ifs at hok
  obtain ⟨d, hfound, hok⟩ := bind_ok.1 hok
  refine ⟨d, hfound, fun hcount => ?_⟩
  dsimp only at hok
  rw [if_pos hcount] at hok
  cases hok

/-- **The page is backed by the physical address of the allocation found.** -/
theorem backs_iff {sp : Space} {frame : ℕ} (hp : Placed mi pagingCtx) (hx : x < 2 ^ 32) (herr : errCode &&& pagingErrCodeP = 0)
    (hfound : vmmFindAllocation sp.heap sp.ctx (pagingAlignAddr x) = .ok a) (hcount : a.pageCount ≠ 0)
    (hpa : a.physicalAddr ≠ 0) (hal : a.physicalAddr % pageSize = 0) (hflags : a.flags < 4096) :
    Backs mi sp pagingCtx bm mem x errCode frame ↔ a.flags.testBit 0 = true ∧ a.physicalAddr = frame := by
  have hwalk := walk_map_page mem hp hx hal hflags
  unfold Backs
  rw [handler_of_found mem herr hfound hcount hpa]
  refine ⟨fun hback => ?_, fun hcond => ?_⟩
  · obtain ⟨bm', mem', tr, hok, htr, hframe⟩ := hback
    cases hok
    rw [hwalk] at htr
    split_ifs at htr with hpresent
    cases htr
    exact ⟨hpresent, hframe⟩
  · rw [if_pos hcond.1] at hwalk
    exact ⟨_, _, _, rfl, hwalk, hcond.2⟩

/-- whatever page of the allocation is looked up, it is the record that is found, if any; then it does not end at 2^32 -/
theorem TrackInv.record_eq (hi : TrackInv s) (ha : a ∈ s.records) (hx : a.virtualAddr ≤ x)
    (hlt : x < a.virtualAddr + a.pageCount * pageSize) {d : VmmAllocation}
    (hfound : vmmFindAllocation s.used.space.heap s.used.space.ctx x = .ok d) (hd : d.pageCount ≠ 0) :
    d = a ∧ a.virtualAddr + a.pageCount * pageSize < 2 ^ 32 := by
  obtain ⟨⟨l, t, M, hheld⟩, hknown⟩ := hi
  have hk := hknown a ha
  obtain ⟨p, hp⟩ := descend_of_found hheld.rep hd hfound
  obtain ⟨hmem, hm, hlive, h1, h2⟩ := hheld.found hp
  -- two allocations with an address in common are one
  have hsame : (⟨d.virtualAddr, d.pageCount⟩ : Area) = areaOf a := by
    by_contra hne
    have := hheld.apart_erase hk.live ((List.mem_erase_of_ne hne).2 hlive)
    unfold areaOf at this
    dsimp only at this h1 h2
    omega
  have hva : d.virtualAddr = a.virtualAddr := congrArg Area.virtualAddr hsame
  have hcount : d.pageCount = a.pageCount := congrArg Area.pageCount hsame
  have hend : a.virtualAddr + a.pageCount * pageSize < 2 ^ 32 := by
    refine lt_of_le_of_ne (hheld.areas _ hk.live).fits fun he => ?_
    have hstop := (findDir_stop.1 (descend_some hp).2).2
    have hfits : endOf d = 0 := by
      unfold endOf u32
      rw [hva, hcount]
      rw [he]
      rfl
    dsimp only at hstop
    omega
  obtain ⟨q, hq⟩ := descend_of_found hheld.rep (hheld.areas _ hk.live).nonempty.ne' (hk.found hend)
  obtain ⟨hmem', hm', _⟩ := hheld.found hq
  exact ⟨congrArg Prod.snd (hheld.unique _ hmem _ hmem' hm hm' hva), hend⟩

/-- **Page faults.** In every run of map calls and unmaps of whole allocations that take none of the branches that go wrong,
from a new address space on, a fault in page `k` of an allocation is backed by the `k`-th page behind its physical address
exactly when `k` is 0, the allocation does not end at 2^32, and it is present. -/
theorem fault_backing {es : List AddrSpaceEntry} {h₀ h : Heap} {ctx : VmmContext} {ops : List Call}
    (h0 : 0 < mi.higherHalfBase) (hal : mi.higherHalfBase % pageSize = 0) (hes : AddrSpaceOk mi es)
    (hnew : vmmNewContext A mi es h₀ = .ok (h, ctx))
    (hrun : Runs (trackStep A mi) (fun s o => WholeOk s.used o ∧ Exact mi s.used.space o) (newlyTracked es h ctx) ops s)
    (hp : Placed mi pagingCtx) (ha : a ∈ s.records) (hpa : a.physicalAddr ≠ 0) (hflags : a.flags < 4096)
    (hk : k < a.pageCount) :
    (∀ x errCode, x / pageSize = a.virtualAddr / pageSize + k → errCode &&& pagingErrCodeP = 0 →
      Backs mi s.used.space pagingCtx bm mem x errCode (a.physicalAddr + k * pageSize)) ↔
    k = 0 ∧ a.virtualAddr + a.pageCount * pageSize < 2 ^ 32 ∧ a.flags.testBit 0 = true := by
  have hi : TrackInv s := hrun.inv (fun s o s' hi hC hok => track_inv hi hC.1 hC.2 hok) (newContext_track h0 hal hes hnew)
  obtain ⟨⟨l, t, M, hheld⟩, hknown⟩ := id hi
  have hrec := hknown a ha
  have harea := hheld.areas _ hrec.live
  have hcount : a.pageCount ≠ 0 := Nat.ne_of_gt (Nat.zero_lt_of_lt hk)
  have haligned : a.virtualAddr % pageSize = 0 := harea.aligned
  have hfits : a.virtualAddr + a.pageCount * pageSize ≤ 2 ^ 32 := harea.fits
  refine ⟨fun hback => ?_, fun hcond => ?_⟩
  · -- the first address of page `k`
    obtain ⟨x, hx⟩ : ∃ x, x = a.virtualAddr + k * pageSize := ⟨_, rfl⟩
    have hxal : pagingAlignAddr x = x := by
      unfold pagingAlignAddr
      simp only [pageSize] at haligned hx ⊢
      omega
    have hlt : x < a.virtualAddr + a.pageCount * pageSize := by
      simp only [pageSize] at hx ⊢
      omega
    have hpage : x / pageSize = a.virtualAddr / pageSize + k := by
      simp only [pageSize] at hx haligned ⊢
      omega
    obtain ⟨_, _, _, hok, _⟩ := hback x 0 hpage rfl
    obtain ⟨d, hfound, hd⟩ := found_of_handler mem hok
    obtain ⟨rfl, hend⟩ := hi.record_eq ha (by omega) (hxal.symm ▸ hlt) hfound hd
    have hbacks := (backs_iff mem hp (by omega) rfl hfound hd hpa hrec.aligned hflags).1 (hback x 0 hpage rfl)
    refine ⟨?_, hend, hbacks.1⟩
    have := hbacks.2
    simp only [pageSize] at this
    omega
  · obtain ⟨rfl, hend, hpresent⟩ := hcond
    intro x errCode hx herr
    have hxal : pagingAlignAddr x = a.virtualAddr := by
      unfold pagingAlignAddr
      simp only [pageSize] at haligned hx ⊢
      omega
    have hx32 : x < 2 ^ 32 := by
      simp only [pageSize] at hx hfits hk
      omega
    refine (backs_iff mem hp hx32 herr (hxal.symm ▸ hrec.found hend) hcount hpa hrec.aligned hflags).2 ⟨hpresent, ?_⟩
    rw [Nat.zero_mul, Nat.add_zero]

end Fault

/-! ### A concrete allocation -/

section Concrete

/-- an allocation of two pages -/
def twoPages : VmmAllocation := ⟨0x400000, 0x800000, 2, 7⟩

def twoPagesMapped : Tracked :=
  returned (newlyTracked entries fresh.1 fresh.2)
    (Runs.exec (trackStep .top .atOneMegabyte) (newlyTracked entries fresh.1 fresh.2) [.map 0x400000 0x800000 2 7])

theorem twoPages_run : Runs (trackStep .top .atOneMegabyte)
    (fun s o => WholeOk s.used o ∧ Exact .atOneMegabyte s.used.space o) (newlyTracked entries fresh.1 fresh.2)
    [.map 0x400000 0x800000 2 7] twoPagesMapped := by
  have hr : Runs (trackStep .top .atOneMegabyte) (fun s o => WholeOk s.used o ∧
      Shape s.used.space (listOf s.used.space) (treeOf s.used.space) ∧
      ExactAt .atOneMegabyte s.used.space (listOf s.used.space) (treeOf s.used.space) o) (newlyTracked entries fresh.1 fresh.2)
      [.map 0x400000 0x800000 2 7] twoPagesMapped := .of_exec (by decide +kernel) (eq_returned _ (by decide +kernel))
  exact hr.mono fun s o hC => ⟨hC.1, exact_of_checked hC.2.1 hC.2.2⟩

/-- a fault in the first page -/
theorem fault_backing_first_page :
    twoPages ∈ twoPagesMapped.records ∧
      Backs .atOneMegabyte twoPagesMapped.used.space context (fun _ => 0) blank 0x400123 4 0x800000 := by
  have ha : twoPages ∈ twoPagesMapped.records := by decide +kernel
  have hback := (@fault_backing .top .atOneMegabyte context (fun _ => 0) _ twoPages 0 blank entries _ _ _ _ (by decide)
    (by decide) entries_ok fresh_eq twoPages_run (by decide) ha (by decide) (by decide) (by decide)).2
    ⟨rfl, by decide, by decide⟩
  exact ⟨ha, hback 0x400123 4 (by decide) (by decide)⟩

/-- **The second page is backed by the frame of the first.** -/
theorem second_page_backed_by_first :
    twoPages ∈ twoPagesMapped.records ∧
      Backs .atOneMegabyte twoPagesMapped.used.space context (fun _ => 0) blank 0x400123 4 0x800000 ∧
      Backs .atOneMegabyte twoPagesMapped.used.space context (fun _ => 0) blank 0x401123 4 0x800000 ∧
      ¬ Backs .atOneMegabyte twoPagesMapped.used.space context (fun _ => 0) blank 0x401123 4 0x801000 := by
  have hbacks : ∀ x frame, x < 2 ^ 32 →
      vmmFindAllocation twoPagesMapped.used.space.heap twoPagesMapped.used.space.ctx (pagingAlignAddr x) = .ok twoPages →
      (Backs .atOneMegabyte twoPagesMapped.used.space context (fun _ => 0) blank x 4 frame ↔
        twoPages.flags.testBit 0 = true ∧ twoPages.physicalAddr = frame) := fun x frame hx hfound =>
    backs_iff blank (by decide) hx (by decide) hfound (by decide) (by decide) (by decide) (by decide)
  refine ⟨by decide +kernel, ?_, ?_, ?_⟩
  · rw [hbacks _ _ (by decide) (by decide +kernel)]
    decide
  · rw [hbacks _ _ (by decide) (by decide +kernel)]
    decide
  · rw [hbacks _ _ (by decide) (by decide +kernel)]
    decide

end Concrete

end Gubos.PageFault
