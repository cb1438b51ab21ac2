/-
Unmapping a page (`paging_unmap_addr` in `mm/paging.c`).

The call clears the table entry of its page and rewrites the directory entry without flags. The directory entry stands for
the 1024 pages of its 4 MB, so none of them is present afterwards.

- `unmapAddr_directory`, `unmapAddr_table`: the two entries that are written, and all others; `contents_unmapAddr`: the same
  in physical memory;
- `unmap_leaves_others`: the call leaves every other page as it was exactly when no other page that the processor's walk
  reaches through one of the two entries was mapped;
- `unmap_hides_neighbour`: unmapping a page unmaps the page after it.

The processor reads frames: a table is where the frame of its directory entry is. An entry is therefore also read by the
walk of a page that is not in its 4 MB, where a directory entry holds the frame of the directory itself (the last entry of
a cloned directory does) or the frame of the table of another entry (`ReadsWritten`).

Premise: the frame of the directory is not that of a table.
-/
import Gubos.Mm.Paging

namespace Gubos.Paging

open Gubos.Core

section Unmap

variable {mi : KernelMeminfo} {ctx : PagingContext} (mem : Tables) {va : ℕ}

theorem unmapAddr_directory (h : Placed mi ctx) (hva : va < 2 ^ 32) (d : ℕ) :
    pagingUnmapAddr mi ctx mem va ctx.pageDirectory d =
      if d = pageDirectoryIndex va then vmmVirtualToPhysical mi (ctx.table d) else mem ctx.pageDirectory d := by
  unfold pagingUnmapAddr
  rw [setEntry_of_ne _ (Or.inl (h.directory_ne (pageDirectoryIndex_lt hva)))]
  split_ifs with hd
  · rw [hd, setEntry_self]
  · rw [setEntry_of_ne _ (Or.inr hd)]

/-- an entry that is not one of the two -/
theorem unmapAddr_of_ne {t i : ℕ} (hdir : t ≠ ctx.pageDirectory ∨ i ≠ pageDirectoryIndex va)
    (htab : t ≠ ctx.table (pageDirectoryIndex va) ∨ i ≠ pageTableIndex va) :
    pagingUnmapAddr mi ctx mem va t i = mem t i := by
  unfold pagingUnmapAddr
  rw [setEntry_of_ne _ htab, setEntry_of_ne _ hdir]

theorem unmapAddr_table : pagingUnmapAddr mi ctx mem va (ctx.table (pageDirectoryIndex va)) (pageTableIndex va) = 0 :=
  setEntry_self _ _ _ _

/-- an aligned address alone is not a present entry -/
theorem present_of_aligned {a : ℕ} (ha : a % pageSize = 0) : present a = false := by
  have h : (a ||| 0).testBit 0 = Nat.testBit 0 0 := testBit_or_flags ha (by decide)
  rw [Nat.or_zero, Nat.zero_testBit] at h
  exact h

/-- the processor's walk of `va'` reads one of the two entries that unmapping `va` writes: the directory entry, in the same
4 MB or as the entry of a table, or the table entry -/
def ReadsWritten (mi : KernelMeminfo) (ctx : PagingContext) (frame : ℕ) (mem : Tables) (va va' : ℕ) : Prop :=
  pageDirectoryIndex va' = pageDirectoryIndex va ∨
  frameOf (mem ctx.pageDirectory (pageDirectoryIndex va')) = frame ∧ pageTableIndex va' = pageDirectoryIndex va ∨
  frameOf (mem ctx.pageDirectory (pageDirectoryIndex va')) = vmmVirtualToPhysical mi (ctx.table (pageDirectoryIndex va)) ∧
    pageTableIndex va' = pageTableIndex va

variable {frame : ℕ} (hframe : ∀ i < pageTableSize, frame ≠ vmmVirtualToPhysical mi (ctx.table i)) (others : ℕ → ℕ → ℕ)

include hframe

/-- physical memory after the call: an entry of the directory's frame and one of a table's frame are written -/
theorem contents_unmapAddr (h : Placed mi ctx) (hva : va < 2 ^ 32) (f i : ℕ) :
    contents mi ctx frame others (pagingUnmapAddr mi ctx mem va) f i =
      if f = frame ∧ i = pageDirectoryIndex va then vmmVirtualToPhysical mi (ctx.table (pageDirectoryIndex va))
      else if f = vmmVirtualToPhysical mi (ctx.table (pageDirectoryIndex va)) ∧ i = pageTableIndex va then 0
      else contents mi ctx frame others mem f i := by
  have hidx := pageDirectoryIndex_lt hva
  by_cases hf : f = frame
  · -- the directory: its frame is not that of a table
    subst hf
    rw [contents_directory, contents_directory, unmapAddr_directory mem h hva]
    simp only [true_and, if_neg fun he : _ ∧ _ => hframe _ hidx he.1]
    split_ifs with hi
    · rw [hi]
    · rfl
  rw [if_neg fun ⟨he, _⟩ => hf he]
  by_cases ht : ∃ j < pageTableSize, f = vmmVirtualToPhysical mi (ctx.table j)
  · obtain ⟨j, hj, rfl⟩ := ht
    rw [contents_table h hframe hj, contents_table h hframe hj]
    split_ifs with hw
    · rw [vmmVirtualToPhysical_inj mi (h.table_lt hj) (h.table_lt hidx) hw.1, hw.2, unmapAddr_table]
    · refine unmapAddr_of_ne mem (Or.inl (h.directory_ne hj).symm) ?_
      rw [← not_and_or]
      exact fun ⟨he, hi⟩ => hw ⟨congrArg _ he, hi⟩
  · rw [contents_other hf fun j hj he => ht ⟨j, hj, he⟩, contents_other hf fun j hj he => ht ⟨j, hj, he⟩,
      if_neg fun ⟨he, _⟩ => ht ⟨_, hidx, he⟩]

/-- a walk that reads one of the two entries finds nothing afterwards -/
theorem processorWalk_unmap_readsWritten (h : Placed mi ctx) (hva : va < 2 ^ 32) {va' : ℕ}
    (hw : ReadsWritten mi ctx frame mem va va') :
    processorWalk (contents mi ctx frame others (pagingUnmapAddr mi ctx mem va)) frame va' = none := by
  have hgone : present (vmmVirtualToPhysical mi (ctx.table (pageDirectoryIndex va))) = false :=
    present_of_aligned (h.table_aligned (pageDirectoryIndex_lt hva))
  unfold processorWalk
  dsimp only
  rw [contents_directory, unmapAddr_directory mem h hva]
  by_cases hd : pageDirectoryIndex va' = pageDirectoryIndex va
  · rw [if_pos hd, hd, hgone, if_neg (by decide)]
  · -- the directory entry of `va'` is as before; the entry it leads to is one of the two
    rw [if_neg hd]
    have hentry : present (contents mi ctx frame others (pagingUnmapAddr mi ctx mem va)
        (frameOf (mem ctx.pageDirectory (pageDirectoryIndex va'))) (pageTableIndex va')) = false := by
      rw [contents_unmapAddr mem hframe others h hva]
      rcases hw.resolve_left hd with hw | hw
      · rw [if_pos hw, hgone]
      · rw [if_neg fun he => hframe _ (pageDirectoryIndex_lt hva) (he.1.symm.trans hw.1), if_pos hw]
        rfl
    simp only [hentry, Bool.false_eq_true, if_false, ite_self]

/-- a walk that reads none of the two entries finds what it found before -/
theorem processorWalk_unmap_of_not (h : Placed mi ctx) (hva : va < 2 ^ 32) {va' : ℕ}
    (hw : ¬ ReadsWritten mi ctx frame mem va va') :
    processorWalk (contents mi ctx frame others (pagingUnmapAddr mi ctx mem va)) frame va' =
      processorWalk (contents mi ctx frame others mem) frame va' := by
  unfold ReadsWritten at hw
  rw [not_or, not_or] at hw
  obtain ⟨hd, hdir, htab⟩ := hw
  unfold processorWalk
  dsimp only
  rw [contents_directory, contents_directory, unmapAddr_directory mem h hva, if_neg hd,
    contents_unmapAddr mem hframe others h hva, if_neg hdir, if_neg htab]

/-- **Unmapping a page.** The page is not present afterwards; every other page has the translation it had before if and
only if no other page whose walk reads one of the two entries written was mapped. The processor reads the directory in
its frame and a table in the frame of its directory entry, and the other frames hold anything. -/
theorem unmap_leaves_others (h : Placed mi ctx) (hva : va < 2 ^ 32) :
    (processorWalk (contents mi ctx frame others (pagingUnmapAddr mi ctx mem va)) frame va = none ∧
      ∀ va' < 2 ^ 32, va' / pageSize ≠ va / pageSize →
        processorWalk (contents mi ctx frame others (pagingUnmapAddr mi ctx mem va)) frame va' =
          processorWalk (contents mi ctx frame others mem) frame va') ↔
      ∀ va' < 2 ^ 32, va' / pageSize ≠ va / pageSize → ReadsWritten mi ctx frame mem va va' →
        processorWalk (contents mi ctx frame others mem) frame va' = none := by
  constructor
  · intro ⟨_, hsame⟩ va' hva' hne hw
    rw [← hsame va' hva' hne]
    exact processorWalk_unmap_readsWritten mem hframe others h hva hw
  · intro hnone
    refine ⟨processorWalk_unmap_readsWritten mem hframe others h hva (Or.inl rfl), fun va' hva' hne => ?_⟩
    by_cases hw : ReadsWritten mi ctx frame mem va va'
    · rw [hnone va' hva' hne hw]
      exact processorWalk_unmap_readsWritten mem hframe others h hva hw
    · exact processorWalk_unmap_of_not mem hframe others h hva hw

end Unmap

/-! ## Two pages of one region, and of two -/

/-- kernel page 0x800000 at frame 0x3000 -/
def farPage : MapCall := ⟨0x800000, 0x3000, 3, by decide, by decide, kernelPage.flags_lt, kernelPage.flags_present⟩

def twoRegions : Tables := mapAll .atOneMegabyte context blank [userPage, farPage]

def twoPages : Tables := mapAll .atOneMegabyte context blank [userPage, kernelPage]

/-- the frame of the directory, and physical memory with nothing in the other frames -/
def contextFrame : ℕ := vmmVirtualToPhysical .atOneMegabyte context.pageDirectory

def inFrames (mem : Tables) : ℕ → ℕ → ℕ := contents .atOneMegabyte context contextFrame blank mem

theorem contextFrame_ne : ∀ i < pageTableSize, contextFrame ≠ vmmVirtualToPhysical .atOneMegabyte (context.table i) :=
  Placed.directory_frame_ne (show Placed .atOneMegabyte context by decide) (by decide)

/-- the only page of its 4 MB is unmapped, and the page in another 4 MB is still there -/
theorem unmap_leaves_others_far :
    processorWalk (inFrames (pagingUnmapAddr .atOneMegabyte context twoRegions 0x400000)) contextFrame 0x800000 =
      some ⟨0x3000, true, false⟩ := by
  have hpl : Placed .atOneMegabyte context := by decide
  have hz : Zeroed context blank := ⟨fun _ _ => rfl, fun _ _ _ _ => rfl⟩
  have hiff := unmap_leaves_others twoRegions contextFrame_ne blank hpl (show 0x400000 < 2 ^ 32 by decide)
  have hsame := (hiff.2 ?_).2 0x800000 (by decide) (by decide)
  · unfold inFrames
    rw [hsame]
    unfold twoRegions
    rw [processorWalk_mapAll hpl hz contextFrame_ne blank _ (by decide)]
    decide
  · intro va' hva' hne hw
    unfold twoRegions at hw ⊢
    rw [processorWalk_mapAll hpl hz contextFrame_ne blank _ hva', walk_mapAll hpl hz _ hva']
    cases hc : lastCall (forPage va') [userPage, farPage] with
    | none => rfl
    | some c =>
      -- the page is that of `farPage`, whose walk reads other entries
      exfalso
      obtain ⟨hpage, hmem⟩ := lastCall_some hc
      rcases List.mem_pair.1 hmem with rfl | rfl
      · exact hne (of_decide_eq_true hpage).symm
      · obtain ⟨hd, ht⟩ := forPage_iff.1 hpage
        unfold ReadsWritten at hw
        rw [hd, ht] at hw
        revert hw
        decide

/-- **Unmapping a page unmaps its neighbour.** The page after the one unmapped was mapped, and is not present any more. -/
theorem unmap_hides_neighbour :
    processorWalk (inFrames twoPages) contextFrame 0x401000 = some ⟨0x2000, true, false⟩ ∧
      processorWalk (inFrames (pagingUnmapAddr .atOneMegabyte context twoPages 0x400000)) contextFrame 0x401000 = none := by
  have hpl : Placed .atOneMegabyte context := by decide
  constructor
  · unfold inFrames twoPages
    rw [processorWalk_mapAll hpl ⟨fun _ _ => rfl, fun _ _ _ _ => rfl⟩ contextFrame_ne blank _ (by decide)]
    decide
  · -- both pages have the directory entry of one region
    exact processorWalk_unmap_readsWritten twoPages contextFrame_ne blank hpl (by decide) (Or.inl rfl)

end Gubos.Paging
