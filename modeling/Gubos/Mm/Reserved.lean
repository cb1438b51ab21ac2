/-
What `pmm_init` reserves (`mm/pmm.c`, `multiboot2.c`).

The pages of the kernel image, the heap, the framebuffer and the unavailable memory-map entries should be marked, and no
others. `pmm_mark_range_used` marks one page in each step of 4096 from the start of its range on, so a range that starts in
the middle of a page may end in a page that no step falls into. Its arguments are 32-bit, so the end of a range that reaches 4 GiB is
cut off, and two callers pass the last address instead of the end.

- `markRange_used`: the pages that the marker marks, whenever it returns;
- `marking_ends_iff`: it returns exactly if the last step below 4 GiB is not below the end; otherwise its 32-bit counter wraps and
  never reaches the end;
- `pmmInit_used`: on a well-formed multiboot2 structure exactly the pages of the calls for its regions are marked;
- `Region.steps_iff`: which these are. A region whose end fits in 32 bits misses its last page if it ends early in it
  (`EndsEarly`), and no other; one whose end is cut off misses its pages from the end that is left on (`Missed`). Only a region that
  starts at 4 GiB or above marks pages that are not its own (`Excess`);
- `reserved_iff`: the right pages are reserved exactly if what one region misses or marks too much is made up for by the others;
- `top_page_never_ends`: a region in the last page of the address space;
- `acpi_page_left_free`: an ACPI region from the middle of one page to the middle of the next.
-/
import Gubos.Mm.Pmm

namespace Gubos.Pmm

open Gubos.Core

/-! ## Regions -/

/-- a region of memory that is not available, and whether its call gets the last address for the end -/
structure Region where
  start : ℕ
  len : ℕ
  passesLast : Bool
deriving DecidableEq, Repr

/-- a byte of page `q` is in the region -/
def Region.Intersects (r : Region) (q : ℕ) : Prop :=
  0 < r.len ∧ r.start < q * pageSize + pageSize ∧ q * pageSize < r.start + r.len

/-- what the call leaves out at the end -/
def Region.short (r : Region) : ℕ := r.passesLast.toNat

/-- the arguments of the call, cut to 32 bits -/
def Region.startAddr (r : Region) : ℕ := u32 r.start
def Region.endAddr (r : Region) : ℕ := u32 (r.start + r.len + 2 ^ 32 - r.short)

/-- one of the steps of a call falls into page `q` -/
def Steps (startAddr endAddr q : ℕ) : Prop :=
  startAddr ≤ q * pageSize + startAddr % pageSize ∧ q * pageSize + startAddr % pageSize < endAddr

instance (r : Region) (q : ℕ) : Decidable (r.Intersects q) :=
  inferInstanceAs (Decidable (0 < r.len ∧ r.start < q * pageSize + pageSize ∧ q * pageSize < r.start + r.len))

instance (startAddr endAddr q : ℕ) : Decidable (Steps startAddr endAddr q) :=
  inferInstanceAs (Decidable (startAddr ≤ q * pageSize + startAddr % pageSize ∧
    q * pageSize + startAddr % pageSize < endAddr))

/-! ## The marker -/

section Marker

variable {bm bm' : Bitmap} {startAddr endAddr i fuel q : ℕ}

/-- a counter that is below the end whatever multiple of the page size is added never stops -/
theorem markRangeLoop_diverges (h : ∀ j < 2 ^ 32, j % pageSize = i % pageSize → j < endAddr) (hi : i < 2 ^ 32) :
    pmmMarkRangeLoop endAddr fuel i bm = .error .diverges := by
  induction fuel generalizing i bm with
  | zero => rfl
  | succ fuel ih =>
    unfold pmmMarkRangeLoop
    rw [if_pos (h i hi rfl)]
    have hmod : u32 (i + pageSize) % pageSize = i % pageSize := by
      unfold u32
      simp only [pageSize]
      omega
    refine ih (fun j hj hji => h j hj (hji.trans hmod)) (u32_lt _)

theorem markRangeLoop_used (hi : i < 2 ^ 32) (he : endAddr < 2 ^ 32) (hok : pmmMarkRangeLoop endAddr fuel i bm = .ok bm') :
    used bm' q = true ↔ used bm q = true ∨ Steps i endAddr q := by
  unfold Steps
  induction fuel generalizing i bm with
  | zero => cases hok
  | succ fuel ih =>
    unfold pmmMarkRangeLoop at hok
    split_ifs at hok with hlt
    · -- a counter that wraps is the largest of its kind, and never stops
      have hnowrap : i + pageSize < 2 ^ 32 := by
        by_contra hwrap
        rw [markRangeLoop_diverges (fun j hj hji => ?_) (u32_lt _)] at hok
        · cases hok
        · unfold u32 at hji
          simp only [pageSize] at hji hwrap
          omega
      rw [u32_of_lt hnowrap] at hok
      rw [ih hnowrap hok, markAddrUsed_used, Bool.or_eq_true, decide_eq_true_eq, or_assoc]
      refine or_congr_right ?_
      simp only [pageSize] at hlt ⊢
      omega
    · cases hok
      refine ⟨.inl, fun h => h.resolve_right ?_⟩
      rintro ⟨h1, h2⟩
      omega

/-- **The marker.** It marks one page in each step, if it returns. -/
theorem markRange_used (hs : startAddr < 2 ^ 32) (he : endAddr < 2 ^ 32)
    (hok : pmmMarkRangeUsed bm startAddr endAddr = .ok bm') : used bm' q = true ↔ used bm q = true ∨ Steps startAddr endAddr q :=
  markRangeLoop_used hs he hok

/-! ### When it returns -/

/-- the last counter value below 4 GiB that steps of a page from `i` reach -/
def lastStep (i : ℕ) : ℕ := 0xFFFFF000 + i % pageSize

/-- a counter that can still reach the end does not wrap before -/
theorem markRangeLoop_returns (hi : i < 2 ^ 32) (he : endAddr ≤ lastStep i) (hfuel : lastStep i - i < fuel * pageSize) :
    ∃ bm', pmmMarkRangeLoop endAddr fuel i bm = .ok bm' := by
  induction fuel generalizing i bm with
  | zero => omega
  | succ fuel ih =>
    unfold pmmMarkRangeLoop
    split_ifs with hlt
    · have hnowrap : i + pageSize < 2 ^ 32 := by
        unfold lastStep at he
        simp only [pageSize] at he ⊢
        omega
      have hlast : lastStep (i + pageSize) = lastStep i := by
        unfold lastStep
        rw [Nat.add_mod_right]
      rw [u32_of_lt hnowrap]
      apply ih hnowrap
      · rwa [hlast]
      · -- the step after the last one below the end is not past `lastStep i`
        rw [hlast]
        unfold lastStep at he hfuel ⊢
        simp only [Nat.succ_mul, pageSize] at he hfuel ⊢
        omega
    · exact ⟨bm, rfl⟩

theorem markRange_returns (hs : startAddr < 2 ^ 32) (he : endAddr ≤ lastStep startAddr) :
    ∃ bm', pmmMarkRangeUsed bm startAddr endAddr = .ok bm' := by
  have hfuel : lastStep startAddr - startAddr < (2 ^ 20 + 1) * pageSize := by
    unfold lastStep
    simp only [pageSize]
    omega
  exact markRangeLoop_returns hs he hfuel

theorem markRangeLoop_never (hs : startAddr < 2 ^ 32) (he : lastStep startAddr < endAddr) :
    pmmMarkRangeLoop endAddr fuel startAddr bm = .error .diverges := by
  refine markRangeLoop_diverges (fun j hj hmod => ?_) hs
  unfold lastStep at he
  simp only [pageSize] at he hmod
  omega

/-- every page that is marked starts below the end, and none is before the page of the start -/
def MarkedWithin (startAddr endAddr : ℕ) (bm bm' : Bitmap) : Prop :=
  ∀ q, used bm q = false → used bm' q = true → startAddr / pageSize ≤ q ∧ q * pageSize < endAddr

/-- **The marker ends**, with marks in its range only, if and only if the last step below 4 GiB is not below the end of the
range. Otherwise no number of rounds is enough. -/
theorem marking_ends_iff (hs : startAddr < 2 ^ 32) (he : endAddr < 2 ^ 32) :
    ((∃ bm', pmmMarkRangeUsed bm startAddr endAddr = .ok bm' ∧ MarkedWithin startAddr endAddr bm bm') ↔
      endAddr ≤ lastStep startAddr) ∧
    (lastStep startAddr < endAddr → ∀ rounds, pmmMarkRangeLoop endAddr rounds startAddr bm = .error .diverges) := by
  refine ⟨⟨?_, fun hle => ?_⟩, fun hlt rounds => markRangeLoop_never hs hlt⟩
  · rintro ⟨bm', hok, _⟩
    by_contra hlt
    have hnever := @markRangeLoop_never bm startAddr endAddr (2 ^ 20 + 1) hs (not_le.1 hlt)
    unfold pmmMarkRangeUsed at hok
    rw [hnever] at hok
    cases hok
  · obtain ⟨bm', hok⟩ := @markRange_returns bm _ _ hs hle
    refine ⟨bm', hok, fun q hfree hmarked => ?_⟩
    have hstep := ((markRange_used hs he hok).1 hmarked).resolve_left (by rw [hfree]; exact Bool.false_ne_true)
    unfold Steps at hstep
    simp only [pageSize] at hstep ⊢
    omega

/-- two pages up to the first bytes of the last one -/
theorem marking_ends_iff_below_top :
    0xFFFFF001 ≤ lastStep 0xFFFFE001 ∧
      ∃ bm', pmmMarkRangeUsed (fun _ => 0#8) 0xFFFFE001 0xFFFFF001 = .ok bm' ∧
        MarkedWithin 0xFFFFE001 0xFFFFF001 (fun _ => 0#8) bm' := by
  have hle : 0xFFFFF001 ≤ lastStep 0xFFFFE001 := by decide
  exact ⟨hle, (marking_ends_iff (by decide) (by decide)).1.2 hle⟩

/-- **A region in the last page** is marked for ever: the counter goes from 0xFFFFF000 to 0, which is below the end as well. -/
theorem top_page_never_ends :
    pmmMarkRangeUsed (fun _ => 0#8) 0xFFFFF000 0xFFFFFFFF = .error .diverges ∧
      ∀ rounds, pmmMarkRangeLoop 0xFFFFFFFF rounds 0xFFFFF000 (fun _ => 0#8) = .error .diverges :=
  ⟨markRangeLoop_never (by decide) (by decide), fun _ => markRangeLoop_never (by decide) (by decide)⟩

end Marker

/-! ## The multiboot2 structure -/

/-- the tags from address `a` on, up to the one that ends them: each has a header of 8 bytes, and the next follows at a
multiple of 8 -/
def TagsAt (mem : Mem) : ℕ → List ℕ → Prop
  | a, [] => tagType mem a = .end
  | a, t :: ts => t = a ∧ tagType mem a ≠ .end ∧ 8 ≤ tagSize mem a ∧ a + (tagSize mem a + 7) / 8 * 8 < 2 ^ 32 ∧
      TagsAt mem (a + (tagSize mem a + 7) / 8 * 8) ts

/-- `entry_size` of the memory map, and its i-th entry -/
def entrySize (mem : Mem) (mmap : ℕ) : ℕ := load32 mem (mmap + 8)
def entryAt (mem : Mem) (mmap i : ℕ) : ℕ := mmap + 16 + i * entrySize mem mmap

/-- a multiboot2 structure with one memory map, of `k` entries, and one framebuffer tag -/
structure WellFormed (mem : Mem) (info : ℕ) (ts : List ℕ) (mmap k framebuffer : ℕ) : Prop where
  tags : TagsAt mem (info + 8) ts
  mmap_mem : mmap ∈ ts
  framebuffer_mem : framebuffer ∈ ts
  mmap_only : ∀ t ∈ ts, tagType mem t = .mmap ↔ t = mmap
  framebuffer_only : ∀ t ∈ ts, tagType mem t = .framebuffer ↔ t = framebuffer
  entry_size : 24 ≤ entrySize mem mmap
  mmap_size : tagSize mem mmap = 16 + k * entrySize mem mmap

/-- the region of a memory-map entry: `addr` and `len` are 64-bit -/
def entryRegion (mem : Mem) (entry : ℕ) : Region := ⟨load64 mem entry, load64 mem (entry + 8), false⟩

/-- the framebuffer: `framebuffer_addr` is 64-bit, `framebuffer_width` and `framebuffer_height` are 32-bit -/
def framebufferRegion (mem : Mem) (framebuffer : ℕ) : Region :=
  ⟨load64 mem (framebuffer + 8), load32 mem (framebuffer + 20) * load32 mem (framebuffer + 24) * 2, true⟩

def kernelRegion (mi : KernelMeminfo) : Region := ⟨mi.physicalStart, mi.physicalEnd - mi.physicalStart, false⟩

def heapRegion : Region := ⟨kernelHeapPhysStart, kernelHeapSize, true⟩

/-- all that is unavailable -/
def regions (mi : KernelMeminfo) (mem : Mem) (mmap k framebuffer : ℕ) : List Region :=
  kernelRegion mi :: heapRegion :: framebufferRegion mem framebuffer ::
    (((List.range k).map (entryAt mem mmap)).filter fun e => unavailable (load32 mem (e + 16))).map (entryRegion mem)

section Structure

variable {mi : KernelMeminfo} {mem : Mem} {a t info mmap k framebuffer fuel j q : ℕ} {ts : List ℕ} {ty : TagType}
  {bm bm' : Bitmap}

/-- a tag is at or after the first, and ends below 4 GiB -/
theorem TagsAt.bounds (h : TagsAt mem a ts) (ht : t ∈ ts) : a ≤ t ∧ t + tagSize mem t < 2 ^ 32 := by
  induction ts generalizing a with
  | nil => cases ht
  | cons b ts ih =>
    obtain ⟨rfl, _, _, hlt, hrest⟩ := h
    rcases List.mem_cons.1 ht with rfl | ht
    · exact ⟨le_rfl, by omega⟩
    · obtain ⟨hle, hend⟩ := ih hrest ht
      exact ⟨by omega, hend⟩

/-- what the search for a tag returns -/
theorem findTag_spec (h : TagsAt mem a ts) (hok : findTag mem ty fuel a = .ok t) :
    (t ∈ ts ∧ tagType mem t = ty) ∨ (tagType mem t = .end ∧ ∀ t' ∈ ts, tagType mem t' ≠ ty) := by
  induction fuel generalizing a ts with
  | zero => cases hok
  | succ fuel ih =>
    unfold findTag at hok
    cases ts with
    | nil =>
      have hend : tagType mem a = .end := h
      rw [if_pos (.inl hend)] at hok
      cases hok
      exact .inr ⟨hend, fun t' ht' => absurd ht' List.not_mem_nil⟩
    | cons b ts =>
      obtain ⟨rfl, hne, _, hlt, hrest⟩ := h
      by_cases hty : tagType mem b = ty
      · rw [if_pos (.inr hty)] at hok
        cases hok
        exact .inl ⟨List.mem_cons_self, hty⟩
      · rw [if_neg (not_or.2 ⟨hne, hty⟩)] at hok
        have hnext : nextTag mem b = b + (tagSize mem b + 7) / 8 * 8 := by
          unfold nextTag
          rw [u32_of_lt (show tagSize mem b + 7 < 2 ^ 32 by omega), u32_of_lt hlt]
        rw [hnext] at hok
        rcases ih hrest hok with ⟨hmem, htt⟩ | ⟨hend, hall⟩
        · exact .inl ⟨List.mem_cons_of_mem _ hmem, htt⟩
        · refine .inr ⟨hend, fun t' ht' => ?_⟩
          rcases List.mem_cons.1 ht' with rfl | ht'
          · exact hty
          · exact hall t' ht'

/-- the search finds the memory map -/
theorem WellFormed.findTag_mmap (hw : WellFormed mem info ts mmap k framebuffer)
    (hok : findTag mem .mmap fuel (u32 (info + 8)) = .ok t) : t = mmap := by
  obtain ⟨hle, hlt⟩ := hw.tags.bounds hw.mmap_mem
  rw [u32_of_lt (show info + 8 < 2 ^ 32 by omega)] at hok
  rcases findTag_spec hw.tags hok with ⟨ht, hty⟩ | ⟨_, hall⟩
  · exact (hw.mmap_only t ht).1 hty
  · exact absurd ((hw.mmap_only mmap hw.mmap_mem).2 rfl) (hall mmap hw.mmap_mem)

/-- `multiboot_framebuffer_info` finds the framebuffer tag -/
theorem WellFormed.framebufferInfo (hw : WellFormed mem info ts mmap k framebuffer)
    (hok : multibootFramebufferInfo mem info = .ok t) : t = framebuffer := by
  obtain ⟨hle, hlt⟩ := hw.tags.bounds hw.framebuffer_mem
  obtain ⟨t', hfind, hok⟩ := bind_ok.1 hok
  rw [u32_of_lt (show info + 8 < 2 ^ 32 by omega)] at hfind
  rcases findTag_spec hw.tags hfind with ⟨ht, hty⟩ | ⟨_, hall⟩
  · rw [if_pos hty] at hok
    cases hok
    exact (hw.framebuffer_only _ ht).1 hty
  · exact absurd ((hw.framebuffer_only framebuffer hw.framebuffer_mem).2 rfl) (hall framebuffer hw.framebuffer_mem)

theorem entryRegion_endAddr (entry : ℕ) :
    (entryRegion mem entry).endAddr = u32 (load64 mem entry + load64 mem (entry + 8)) := by
  change u32 (load64 mem entry + load64 mem (entry + 8) + 2 ^ 32 - 0) = _
  unfold u32
  omega

/-- the size of the framebuffer is taken in 32 bits -/
theorem framebufferRegion_endAddr (tag : ℕ) : (framebufferRegion mem tag).endAddr =
    u32 (load64 mem (tag + 8) + u32 (load32 mem (tag + 20) * load32 mem (tag + 24) * 2) + (2 ^ 32 - 1)) := by
  change u32 (load64 mem (tag + 8) + load32 mem (tag + 20) * load32 mem (tag + 24) * 2 + 2 ^ 32 - 1) = _
  unfold u32
  omega

/-- an image that ends before it starts has no pages, and its call marks none -/
theorem kernelRegion_steps : Steps (kernelRegion mi).startAddr (kernelRegion mi).endAddr q ↔
    Steps mi.physicalStart mi.physicalEnd q := by
  have hs := mi.physicalStart_lt
  have he := mi.physicalEnd_lt
  have hstart : (kernelRegion mi).startAddr = mi.physicalStart := u32_of_lt hs
  have hend : (kernelRegion mi).endAddr = max mi.physicalStart mi.physicalEnd := by
    change u32 (mi.physicalStart + (mi.physicalEnd - mi.physicalStart) + 2 ^ 32 - 0) = _
    unfold u32
    omega
  rw [hstart, hend]
  unfold Steps
  omega

/-- the loop over the memory map, from entry `j` on -/
theorem markEntries_used (hsize : tagSize mem mmap = 16 + k * entrySize mem mmap) (hpos : 24 ≤ entrySize mem mmap)
    (hlt : mmap + tagSize mem mmap < 2 ^ 32) (hj : j ≤ k)
    (hok : markEntries mem mmap fuel (entryAt mem mmap j) bm = .ok bm') :
    used bm' q = true ↔ used bm q = true ∨ ∃ i, j ≤ i ∧ i < k ∧ unavailable (load32 mem (entryAt mem mmap i + 16)) = true ∧
      Steps (entryRegion mem (entryAt mem mmap i)).startAddr (entryRegion mem (entryAt mem mmap i)).endAddr q := by
  induction fuel generalizing j bm with
  | zero => cases hok
  | succ fuel ih =>
    unfold markEntries at hok
    rw [u32_of_lt hlt] at hok
    by_cases hjk : j = k
    · subst hjk
      have hstop : ¬ entryAt mem mmap j < mmap + tagSize mem mmap := by
        rw [hsize, entryAt]
        omega
      rw [if_neg hstop] at hok
      cases hok
      refine ⟨.inl, fun h => h.resolve_right ?_⟩
      rintro ⟨i, h1, h2, _⟩
      omega
    · have hsucc : (j + 1) * entrySize mem mmap ≤ k * entrySize mem mmap := Nat.mul_le_mul_right _ (by omega)
      have hnext : u32 (entryAt mem mmap j + load32 mem (mmap + 8)) = entryAt mem mmap (j + 1) := by
        have he : entryAt mem mmap j + load32 mem (mmap + 8) = entryAt mem mmap (j + 1) := by
          change entryAt mem mmap j + entrySize mem mmap = _
          unfold entryAt
          rw [Nat.succ_mul]
          omega
        rw [he]
        refine u32_of_lt ?_
        unfold entryAt
        omega
      have hgo : entryAt mem mmap j < mmap + tagSize mem mmap := by
        rw [Nat.succ_mul] at hsucc
        unfold entryAt
        omega
      rw [if_pos hgo, hnext] at hok
      obtain ⟨bm₁, hone, hok⟩ : ∃ bm₁, (used bm₁ q = true ↔ used bm q = true ∨
          (unavailable (load32 mem (entryAt mem mmap j + 16)) = true ∧
            Steps (entryRegion mem (entryAt mem mmap j)).startAddr (entryRegion mem (entryAt mem mmap j)).endAddr q)) ∧
          markEntries mem mmap fuel (entryAt mem mmap (j + 1)) bm₁ = .ok bm' := by
        dsimp only at hok
        split_ifs at hok with hun
        · obtain ⟨bm₁, hmark, hok⟩ := bind_ok.1 hok
          refine ⟨bm₁, ?_, hok⟩
          rw [markRange_used (u32_lt _) (u32_lt _) hmark, ← entryRegion_endAddr]
          exact or_congr_right ⟨fun h => ⟨hun, h⟩, fun h => h.2⟩
        · obtain ⟨bm₁, hmark, hok⟩ := bind_ok.1 hok
          cases hmark
          exact ⟨bm, ⟨.inl, fun h => h.resolve_right fun h => hun h.1⟩, hok⟩
      rw [ih (by omega) hok]
      rw [hone, or_assoc]
      refine or_congr_right ⟨?_, ?_⟩
      · rintro (h | ⟨i, h1, h2, h3⟩)
        · exact ⟨j, le_rfl, by omega, h⟩
        · exact ⟨i, by omega, h2, h3⟩
      · rintro ⟨i, h1, h2, h3⟩
        rcases Nat.eq_or_lt_of_le h1 with rfl | hlt
        · exact .inl h3
        · exact .inr ⟨i, hlt, h2, h3⟩

theorem mem_regions {r : Region} : r ∈ regions mi mem mmap k framebuffer ↔ r = kernelRegion mi ∨ r = heapRegion ∨
    r = framebufferRegion mem framebuffer ∨
      ∃ i < k, unavailable (load32 mem (entryAt mem mmap i + 16)) = true ∧ r = entryRegion mem (entryAt mem mmap i) := by
  simp only [regions, List.mem_cons, List.mem_map, List.mem_filter, List.mem_range]
  refine or_congr_right (or_congr_right (or_congr_right ⟨?_, ?_⟩))
  · rintro ⟨_, ⟨⟨i, hi, rfl⟩, hun⟩, rfl⟩
    exact ⟨i, hi, hun, rfl⟩
  · rintro ⟨i, hi, hun, rfl⟩
    exact ⟨_, ⟨⟨i, hi, rfl⟩, hun⟩, rfl⟩

/-- **What `pmm_init` marks.** The pages of the calls for the unavailable regions. -/
theorem pmmInit_used (hw : WellFormed mem info ts mmap k framebuffer) (hok : pmmInit mi mem info = .ok bm) :
    used bm q = true ↔ ∃ r ∈ regions mi mem mmap k framebuffer, Steps r.startAddr r.endAddr q := by
  unfold pmmInit at hok
  obtain ⟨bm₁, h₁, hok⟩ := bind_ok.1 hok
  obtain ⟨bm₂, h₂, hok⟩ := bind_ok.1 hok
  obtain ⟨tag, htag, hok⟩ := bind_ok.1 hok
  obtain rfl := hw.findTag_mmap htag
  split_ifs at hok
  obtain ⟨bm₃, h₃, hok⟩ := bind_ok.1 hok
  obtain ⟨fb, hfb, hok⟩ := bind_ok.1 hok
  obtain rfl := hw.framebufferInfo hfb
  split_ifs at hok
  have hlt := (hw.tags.bounds hw.mmap_mem).2
  have hfirst : u32 (tag + 16) = entryAt mem tag 0 := by
    unfold entryAt
    rw [Nat.zero_mul, Nat.add_zero]
    have := hw.mmap_size
    exact u32_of_lt (by omega)
  rw [hfirst] at h₃
  have hzero : used (fun _ => 0#8) q = false := by simp [used]
  have u₁ := markRange_used (q := q) mi.physicalStart_lt mi.physicalEnd_lt h₁
  have u₂ := markRange_used (q := q) (by decide) (by decide) h₂
  have u₃ := markEntries_used (q := q) hw.mmap_size hw.entry_size hlt (Nat.zero_le k) h₃
  have u₄ := markRange_used (q := q) (u32_lt _) (u32_lt _) hok
  rw [← kernelRegion_steps] at u₁
  rw [← framebufferRegion_endAddr] at u₄
  rw [u₄, u₃, u₂, u₁, hzero]
  simp only [Bool.false_eq_true, false_or]
  constructor
  · rintro (((h | h) | ⟨i, _, hi, hun, h⟩) | h)
    · exact ⟨kernelRegion mi, mem_regions.2 (.inl rfl), h⟩
    · exact ⟨heapRegion, mem_regions.2 (.inr (.inl rfl)), h⟩
    · exact ⟨_, mem_regions.2 (.inr (.inr (.inr ⟨i, hi, hun, rfl⟩))), h⟩
    · exact ⟨_, mem_regions.2 (.inr (.inr (.inl rfl))), h⟩
  · rintro ⟨r, hr, h⟩
    rcases mem_regions.1 hr with rfl | rfl | rfl | ⟨i, hi, hun, rfl⟩
    · exact .inl (.inl (.inl h))
    · exact .inl (.inl (.inr h))
    · exact .inr h
    · exact .inl (.inr ⟨i, Nat.zero_le i, hi, hun, h⟩)

end Structure

/-! ## What is missed, and what is marked too much -/

/-- the end of the region does not fit in 32 bits -/
def Region.Cut (r : Region) : Prop := 2 ^ 32 + r.short ≤ r.start + r.len

/-- the region has so few bytes in its last page that the step of its call there is not below the end passed -/
def Region.EndsEarly (r : Region) : Prop := (r.start + r.len - 1) % pageSize < r.start % pageSize + r.short

instance (r : Region) : Decidable r.Cut := inferInstanceAs (Decidable (2 ^ 32 + r.short ≤ r.start + r.len))

instance (r : Region) : Decidable r.EndsEarly :=
  inferInstanceAs (Decidable ((r.start + r.len - 1) % pageSize < r.start % pageSize + r.short))

/-- the pages of the region that its call misses: the last one if the region ends early in it; if its end is cut off, those
from the end that is left on -/
def Region.Missed (r : Region) (q : ℕ) : Prop :=
  r.Intersects q ∧
    if r.Cut then u32 (r.start + r.len - r.short) ≤ q * pageSize + r.start % pageSize
    else q = (r.start + r.len - 1) / pageSize ∧ r.EndsEarly

/-- the pages below 4 GiB that the call of a region marks though it starts at 4 GiB or above: those from its start to its
end in 32 bits. (An empty framebuffer at address 0 has its last address at the top.) -/
def Region.Excess (r : Region) (q : ℕ) : Prop :=
  (2 ^ 32 ≤ r.start ∨ r.start + r.len < r.short) ∧ u32 r.start ≤ q * pageSize + r.start % pageSize ∧
    q * pageSize + r.start % pageSize < u32 (r.start + r.len + 2 ^ 32 - r.short)

/-- what the call for a region misses, another region has and does not miss, or marks in excess; what it marks in excess
is in another region -/
def Compensated (rs : List Region) : Prop :=
  ∀ r ∈ rs, ∀ q < 2 ^ 20, (r.Missed q → ∃ r' ∈ rs, r'.Intersects q ∧ ¬ r'.Missed q ∨ r'.Excess q) ∧
    (r.Excess q → ∃ r' ∈ rs, r'.Intersects q)

section Reserved

variable {mi : KernelMeminfo} {mem : Mem} {info mmap k framebuffer q : ℕ} {ts : List ℕ} {bm : Bitmap} {r : Region}

theorem Region.short_le (r : Region) : r.short ≤ 1 := Bool.toNat_le _

/-- the steps of a call start where its region starts in its page -/
theorem Region.steps_iff_bounds : Steps r.startAddr r.endAddr q ↔
    u32 r.start ≤ q * pageSize + r.start % pageSize ∧
      q * pageSize + r.start % pageSize < u32 (r.start + r.len + 2 ^ 32 - r.short) := by
  have hoffset : r.startAddr % pageSize = r.start % pageSize := by
    unfold Region.startAddr u32 pageSize
    omega
  unfold Steps
  rw [hoffset]
  rfl

/-- a region that starts at 4 GiB or above has no page below, and all that its call marks is in excess -/
theorem Region.steps_iff_high (hhigh : 2 ^ 32 ≤ r.start ∨ r.start + r.len < r.short) (hq : q < 2 ^ 20) :
    ¬ r.Intersects q ∧ (Steps r.startAddr r.endAddr q ↔ r.Excess q) := by
  have hshort := r.short_le
  refine ⟨fun hi => ?_, ?_⟩
  · unfold Region.Intersects pageSize at hi
    omega
  · rw [Region.steps_iff_bounds]
    exact ⟨fun h => ⟨hhigh, h⟩, fun h => h.2⟩

/-- **A region whose end fits** is marked but for its last page, if it ends early there. -/
theorem Region.steps_iff_fits (hlow : r.start < 2 ^ 32) (hlen : r.short ≤ r.start + r.len) (hfits : ¬ r.Cut) :
    Steps r.startAddr r.endAddr q ↔
      r.Intersects q ∧ ¬ (q = (r.start + r.len - 1) / pageSize ∧ r.EndsEarly) := by
  have hshort := r.short_le
  have hend : u32 (r.start + r.len + 2 ^ 32 - r.short) = r.start + r.len - r.short := by
    unfold Region.Cut at hfits
    unfold u32
    omega
  rw [Region.steps_iff_bounds, hend, u32_of_lt hlow]
  unfold Region.Intersects Region.EndsEarly pageSize
  omega

/-- **A region whose end is cut off** is marked up to the end that is left. -/
theorem Region.steps_iff_cut (hlow : r.start < 2 ^ 32) (hcut : r.Cut) (hq : q < 2 ^ 20) :
    Steps r.startAddr r.endAddr q ↔
      r.Intersects q ∧ ¬ u32 (r.start + r.len - r.short) ≤ q * pageSize + r.start % pageSize := by
  have hshort := r.short_le
  unfold Region.Cut at hcut
  have hend : u32 (r.start + r.len + 2 ^ 32 - r.short) = u32 (r.start + r.len - r.short) := by
    unfold u32
    omega
  rw [Region.steps_iff_bounds, hend, u32_of_lt hlow]
  unfold Region.Intersects pageSize
  have hlt := u32_lt (r.start + r.len - r.short)
  omega

/-- **What a call marks.** The pages of its region that it does not miss, and those in excess. -/
theorem Region.steps_iff (hq : q < 2 ^ 20) :
    Steps r.startAddr r.endAddr q ↔ r.Intersects q ∧ ¬ r.Missed q ∨ r.Excess q := by
  by_cases hhigh : 2 ^ 32 ≤ r.start ∨ r.start + r.len < r.short
  · obtain ⟨hnone, hsteps⟩ := Region.steps_iff_high hhigh hq
    rw [hsteps, or_iff_right fun h => hnone h.1]
  · have hno : ¬ r.Excess q := fun he => hhigh he.1
    obtain ⟨hlow, hlen⟩ := not_or.1 hhigh
    rw [or_iff_left hno]
    have hpages : ∀ P : Prop, r.Intersects q ∧ ¬ (r.Intersects q ∧ P) ↔ r.Intersects q ∧ ¬ P := fun P => by tauto
    unfold Region.Missed
    rw [hpages]
    split_ifs with hcut
    · exact Region.steps_iff_cut (not_le.1 hlow) hcut hq
    · exact Region.steps_iff_fits (not_le.1 hlow) (not_lt.1 hlen) hcut

/-- **Everything unavailable is reserved, and nothing else**, exactly if what the call for one region misses or marks too
much is made up for by the others. -/
theorem reserved_iff (hw : WellFormed mem info ts mmap k framebuffer) (hok : pmmInit mi mem info = .ok bm) :
    (∀ q < 2 ^ 20, used bm q = true ↔ ∃ r ∈ regions mi mem mmap k framebuffer, r.Intersects q) ↔
      Compensated (regions mi mem mmap k framebuffer) := by
  have hused : ∀ q < 2 ^ 20, used bm q = true ↔
      ∃ r ∈ regions mi mem mmap k framebuffer, r.Intersects q ∧ ¬ r.Missed q ∨ r.Excess q := by
    intro q hq
    rw [pmmInit_used hw hok]
    exact exists_congr fun r => and_congr_right fun _ => Region.steps_iff hq
  constructor
  · intro h r hr q hq
    have hsame := (hused q hq).symm.trans (h q hq)
    exact ⟨fun hm => hsame.2 ⟨r, hr, hm.1⟩, fun he => hsame.1 ⟨r, hr, .inr he⟩⟩
  · intro h q hq
    rw [hused q hq]
    constructor
    · rintro ⟨r, hr, ⟨hi, _⟩ | he⟩
      · exact ⟨r, hr, hi⟩
      · exact (h r hr q hq).2 he
    · rintro ⟨r, hr, hi⟩
      by_cases hm : r.Missed q
      · exact (h r hr q hq).1 hm
      · exact ⟨r, hr, .inl ⟨hi, hm⟩⟩

/-- **Regions that are marked right**: below 4 GiB, and not ending early. -/
theorem Region.exact (hlow : r.start < 2 ^ 32) (hlen : r.short ≤ r.start + r.len) (hfits : ¬ r.Cut)
    (hend : ¬ r.EndsEarly) : ¬ r.Missed q ∧ ¬ r.Excess q := by
  constructor
  · rintro ⟨_, hm⟩
    rw [if_neg hfits] at hm
    exact hend hm.2
  · rintro ⟨hhigh, _⟩
    omega

end Reserved

/-! ### Concrete memory maps -/

instance decTagsAt (mem : Mem) (a : ℕ) (ts : List ℕ) : Decidable (TagsAt mem a ts) :=
  match ts with
  | [] => inferInstanceAs (Decidable (tagType mem a = .end))
  | t :: ts =>
    haveI := decTagsAt mem (a + (tagSize mem a + 7) / 8 * 8) ts
    inferInstanceAs (Decidable (t = a ∧ tagType mem a ≠ .end ∧ 8 ≤ tagSize mem a ∧
      a + (tagSize mem a + 7) / 8 * 8 < 2 ^ 32 ∧ TagsAt mem (a + (tagSize mem a + 7) / 8 * 8) ts))

theorem reserved_iff_oneFree :
    WellFormed oneFree 0 [8, 48] 8 1 48 ∧ ∃ bm, pmmInit .atOneMegabyte oneFree 0 = .ok bm ∧
      ∀ q < 2 ^ 20, used bm q = true ↔ ∃ r ∈ regions .atOneMegabyte oneFree 8 1 48, r.Intersects q := by
  have hw : WellFormed oneFree 0 [8, 48] 8 1 48 :=
    ⟨by decide, by decide, by decide, by decide, by decide, by decide, by decide⟩
  obtain ⟨bm, hok, _⟩ := pmmInit_oneFree
  refine ⟨hw, bm, hok, (reserved_iff hw hok).2 fun r hr q _ => ?_⟩
  -- all regions start at a page and end below 4 GiB
  have hexact : ∀ r ∈ regions .atOneMegabyte oneFree 8 1 48, r.start < 2 ^ 32 ∧ r.short ≤ r.start + r.len ∧ ¬ r.Cut ∧
      ¬ r.EndsEarly := by decide
  obtain ⟨h1, h2, h3, h4⟩ := hexact r hr
  obtain ⟨hm, he⟩ := @Region.exact q r h1 h2 h3 h4
  exact ⟨fun h => absurd h hm, fun h => absurd h he⟩

/-- a memory map whose one entry is an ACPI region from the middle of page 1 to the middle of page 2 -/
def acpiMap : Mem :=
  ofWords [88, 0,
    6, 40, 24, 0, 0x1800, 0, 0xC00, 0, 3, 0,
    8, 32, 0xB8000, 0, 160, 80, 25, 0,
    0, 8]

/-- **An ACPI page is left free.** The marker steps from 0x1800 to 0x2800, past the end of the region at 0x2400: page 2 can be
allocated. -/
theorem acpi_page_left_free :
    WellFormed acpiMap 0 [8, 48] 8 1 48 ∧ ∃ bm, pmmInit .atOneMegabyte acpiMap 0 = .ok bm ∧
      ⟨0x1800, 0xC00, false⟩ ∈ regions .atOneMegabyte acpiMap 8 1 48 ∧ (⟨0x1800, 0xC00, false⟩ : Region).Intersects 2 ∧
      used bm 2 = false := by
  have hw : WellFormed acpiMap 0 [8, 48] 8 1 48 :=
    ⟨by decide, by decide, by decide, by decide, by decide, by decide, by decide⟩
  have hok := eq_returned (x := pmmInit .atOneMegabyte acpiMap 0) (fun _ => 0#8) (by decide +kernel)
  refine ⟨hw, _, hok, by decide, by decide, ?_⟩
  rw [← Bool.not_eq_true, pmmInit_used hw hok]
  decide

end Gubos.Pmm
