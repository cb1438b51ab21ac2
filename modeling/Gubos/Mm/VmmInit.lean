/-
The address space of the kernel (`vmm_init` and `vmm_new_context` in `mm/vmm.c`, `linker.ld`).

`vmm_init` fills `ADDR_SPACE` with the four sections of the kernel image, the kernel heap and the framebuffer, and makes the first
context of it. The sections are where the linker script puts them: page by page behind one another, from 3 GB + 1 MB on, with
the end of `.bss` at a multiple of 4 MB. A section may be empty, and so may be its entry. Their physical addresses are
`ADDR(.text)` and so on in the script, which are virtual addresses; so these are what is recorded. The address of the framebuffer
has 64 bits in the tag and is cut to 32.

- `Filling.offered`: while the entries are mapped, the first page of the next one is in a free block, also if it is empty;
- `mapAddrSpace_returns`, `newContext_returns`: `vmm_new_context` returns, if the heap answers its requests;
- `vmm_init_maps`: so does `vmm_init`, for every image and every multiboot information whose first framebuffer tag has a
  page-aligned address. Every address of an entry is then looked up to that entry, and exactly the pages of no entry are free.

Premise: the image ends below the kernel heap (`bss_end`).
-/
import Gubos.Multiboot
import Gubos.Mm.Conservation
import Gubos.Mm.OrderedTree
import Gubos.Mm.PageFault
import Gubos.Mm.Totality

namespace Gubos.Vmm

open Gubos.Core Gubos.Paging Gubos.Pmm Gubos.PageFault

/-! ## The code -/

/-- a section of the kernel image in `kernel_meminfo_t` -/
structure ImageSection where
  virtualStart : ℕ
  physicalStart : ℕ
  virtualEnd : ℕ

/-- a section as the linker script lays it out: from page to page, and recorded at the address where it is linked; it may be
empty, as `.data` is in an image without such data -/
structure ImageSection.Linked (s : ImageSection) : Prop where
  start_le : s.virtualStart ≤ s.virtualEnd
  start_aligned : s.virtualStart % pageSize = 0
  end_aligned : s.virtualEnd % pageSize = 0
  physical : s.physicalStart = s.virtualStart

/-- `kernel_meminfo_t` with its sections, and what the linker script says of them -/
structure KernelImage extends KernelMeminfo where
  text : ImageSection
  rodata : ImageSection
  data : ImageSection
  bss : ImageSection
  higherHalfBase_eq : higherHalfBase = 0xC0000000
  text_linked : text.Linked
  rodata_linked : rodata.Linked
  data_linked : data.Linked
  bss_linked : bss.Linked
  text_start : 0xC0100000 ≤ text.virtualStart
  text_end : text.virtualEnd = rodata.virtualStart
  rodata_end : rodata.virtualEnd = data.virtualStart
  data_end : data.virtualEnd = bss.virtualStart
  bss_end : bss.virtualEnd ≤ kernelHeapVirtStart

/-- the entry of a section -/
def ImageSection.entry (s : ImageSection) (flags : ℕ) : AddrSpaceEntry :=
  ⟨s.virtualStart, s.physicalStart, pagingPageCount (u32 (s.virtualEnd + 2 ^ 32 - s.virtualStart)), flags⟩

/-- the entries of the kernel heap and of the framebuffer -/
def heapEntry : AddrSpaceEntry :=
  ⟨kernelHeapVirtStart, kernelHeapPhysStart, pagingPageCount kernelHeapSize, pageFlagPresent ||| pageFlagWrite⟩
def framebufferEntry (img : KernelImage) (framebufferAddr : ℕ) : AddrSpaceEntry :=
  ⟨img.higherHalfBase, framebufferAddr, 1, pageFlagPresent ||| pageFlagWrite⟩

/-- `ADDR_SPACE`, as `vmm_init` fills it -/
def addrSpace (img : KernelImage) (framebufferAddr : ℕ) : List AddrSpaceEntry :=
  [img.text.entry pageFlagPresent,
   img.rodata.entry pageFlagPresent,
   img.data.entry (pageFlagPresent ||| pageFlagWrite),
   img.bss.entry (pageFlagPresent ||| pageFlagWrite),
   heapEntry,
   framebufferEntry img framebufferAddr]

/-- `framebuffer_addr` of a framebuffer tag, in 32 bits -/
def framebufferAddr (mem : Mem) (tag : ℕ) : ℕ := load32 mem (tag + 8)

/-- `vmm_init` -/
def vmmInit (A : Allocator) (img : KernelImage) (mem : Mem) (multibootInfo : ℕ) (h : Heap) : Except Fault (Heap × VmmContext) := do
  let framebufferInfo ← multibootFramebufferInfo mem multibootInfo
  if framebufferInfo = 0 then .error .nullDereference
  else vmmNewContext A img.toKernelMeminfo (addrSpace img (framebufferAddr mem framebufferInfo)) h

/-! ## The entries -/

/-- the pages of a section are all of it -/
theorem ImageSection.Linked.pages {s : ImageSection} (hs : s.Linked) (hend : s.virtualEnd ≤ kernelHeapVirtStart) (flags : ℕ) :
    s.virtualStart + (s.entry flags).pageCount * pageSize = s.virtualEnd := by
  have h1 := hs.start_le
  have h2 := hs.start_aligned
  have h3 := hs.end_aligned
  unfold kernelHeapVirtStart at hend
  have hsize : u32 (s.virtualEnd + 2 ^ 32 - s.virtualStart) = s.virtualEnd - s.virtualStart := by
    unfold u32
    omega
  have hcount : (s.entry flags).pageCount = u32 (s.virtualEnd - s.virtualStart + pageSize - 1) / pageSize := by
    rw [← hsize]
    rfl
  rw [hcount]
  simp only [pageSize] at h2 h3 ⊢
  rw [u32_of_lt (by omega)]
  omega

/-- an entry between two addresses: page-aligned, and mapped to an aligned address -/
structure EntryIn (e : AddrSpaceEntry) (lo hi : ℕ) : Prop where
  aligned : e.virtualStart % pageSize = 0
  physical : e.physicalStart % pageSize = 0
  lower : lo ≤ e.virtualStart
  upper : e.virtualStart + e.pageCount * pageSize ≤ hi

/-- an entry that is after another one -/
theorem EntryIn.apart {e f : AddrSpaceEntry} {lo hi lo' hi' : ℕ} (he : EntryIn e lo hi) (hf : EntryIn f lo' hi') (h : hi ≤ lo') :
    e.virtualStart + e.pageCount * pageSize ≤ f.virtualStart ∨
      f.virtualStart + max 1 f.pageCount * pageSize ≤ e.virtualStart :=
  Or.inl ((he.upper.trans h).trans hf.lower)

theorem ImageSection.Linked.entryIn {s : ImageSection} (hs : s.Linked) (hend : s.virtualEnd ≤ kernelHeapVirtStart) (flags : ℕ) :
    EntryIn (s.entry flags) s.virtualStart s.virtualEnd := by
  refine ⟨hs.start_aligned, ?_, le_rfl, (hs.pages hend flags).le⟩
  have hphys : (s.entry flags).physicalStart = s.virtualStart := hs.physical
  rw [hphys]
  exact hs.start_aligned

/-- the entries, each in a range of its own -/
structure InLine (img : KernelImage) (fb : ℕ) : Prop where
  framebuffer : EntryIn (framebufferEntry img fb) 0xC0000000 0xC0001000
  text : EntryIn (img.text.entry pageFlagPresent) img.text.virtualStart img.rodata.virtualStart
  rodata : EntryIn (img.rodata.entry pageFlagPresent) img.rodata.virtualStart img.data.virtualStart
  data : EntryIn (img.data.entry (pageFlagPresent ||| pageFlagWrite)) img.data.virtualStart img.bss.virtualStart
  bss : EntryIn (img.bss.entry (pageFlagPresent ||| pageFlagWrite)) img.bss.virtualStart 0xE0000000
  heap : EntryIn heapEntry 0xE0000000 0xE3000000
  order : 0xC0100000 ≤ img.text.virtualStart ∧ img.text.virtualStart ≤ img.rodata.virtualStart ∧
    img.rodata.virtualStart ≤ img.data.virtualStart ∧ img.data.virtualStart ≤ img.bss.virtualStart ∧
    img.bss.virtualStart ≤ 0xE0000000

theorem inLine (img : KernelImage) {fb : ℕ} (hfb : fb % pageSize = 0) : InLine img fb := by
  have h1 := img.text_linked.start_le
  have h2 := img.rodata_linked.start_le
  have h3 := img.data_linked.start_le
  have h4 := img.bss_linked.start_le
  have h5 := img.text_end
  have h6 := img.rodata_end
  have h7 := img.data_end
  have h8 : img.bss.virtualEnd ≤ 0xE0000000 := img.bss_end
  have h9 := img.text_start
  have hheap : kernelHeapVirtStart = 0xE0000000 := rfl
  have hbase : (framebufferEntry img fb).virtualStart = 0xC0000000 := img.higherHalfBase_eq
  refine ⟨⟨?_, hfb, ?_, ?_⟩, ?_, ?_, ?_, ?_, ?_, by omega, by omega, by omega, by omega, by omega⟩
  · rw [hbase]
    decide
  · exact hbase.ge
  · rw [hbase]
    change 0xC0000000 + 1 * 4096 ≤ 0xC0001000
    decide
  · rw [← h5]
    exact img.text_linked.entryIn (by omega) _
  · rw [← h6]
    exact img.rodata_linked.entryIn (by omega) _
  · rw [← h7]
    exact img.data_linked.entryIn (by omega) _
  · have hin := img.bss_linked.entryIn (by omega) (pageFlagPresent ||| pageFlagWrite)
    exact { hin with upper := hin.upper.trans h8 }
  · exact ⟨by decide, by decide, le_rfl, by decide⟩

/-- every entry is in the kernel half and ends at the end of the kernel heap or before -/
theorem InLine.entryIn {img : KernelImage} {fb : ℕ} (h : InLine img fb) :
    ∀ e ∈ addrSpace img fb, EntryIn e 0xC0000000 0xE3000000 := by
  obtain ⟨hfb, htext, hrodata, hdata, hbss, hheap, h1, h2, h3, h4, h5⟩ := h
  simp only [addrSpace, List.forall_mem_cons, List.not_mem_nil, IsEmpty.forall_iff, implies_true, and_true]
  have hwiden : ∀ {e : AddrSpaceEntry} {lo hi : ℕ}, EntryIn e lo hi → 0xC0000000 ≤ lo → hi ≤ 0xE3000000 →
      EntryIn e 0xC0000000 0xE3000000 := fun he hlo hhi =>
    { he with lower := hlo.trans he.lower, upper := he.upper.trans hhi }
  exact ⟨hwiden htext (by omega) (by omega), hwiden hrodata (by omega) (by omega), hwiden hdata (by omega) (by omega),
    hwiden hbss (by omega) (by omega), hwiden hheap (by omega) le_rfl, hwiden hfb le_rfl (by omega)⟩

/-- **The entries of `ADDR_SPACE`** are page-aligned, in the kernel half, and disjoint. -/
theorem addrSpace_ok (img : KernelImage) {fb : ℕ} (hfb : fb % pageSize = 0) :
    AddrSpaceOk img.toKernelMeminfo (addrSpace img fb) := by
  have hline := inLine img hfb
  have hin := hline.entryIn
  refine ⟨fun e he => (hin e he).aligned, fun e he => ?_, fun e he => ?_, ?_⟩
  · rw [img.higherHalfBase_eq]
    exact (hin e he).lower
  · obtain ⟨_, _, hlow, hup⟩ := hin e he
    have hmax : max 1 e.pageCount ≤ e.pageCount + 1 := max_le (Nat.le_add_left _ _) (Nat.le_add_right _ _)
    calc e.virtualStart + max 1 e.pageCount * pageSize
        ≤ e.virtualStart + (e.pageCount + 1) * pageSize := Nat.add_le_add_left (Nat.mul_le_mul_right _ hmax) _
      _ = e.virtualStart + e.pageCount * pageSize + pageSize := by rw [Nat.add_mul, Nat.one_mul, Nat.add_assoc]
      _ ≤ 0xE3000000 + pageSize := Nat.add_le_add_right hup _
      _ ≤ 2 ^ 32 := by decide
  · obtain ⟨hf, ht, hr, hd, hb, hh, h1, h2, h3, h4, h5⟩ := hline
    -- the framebuffer is one page in front of the others
    have hlast : ∀ {e : AddrSpaceEntry} {lo hi : ℕ}, EntryIn e lo hi → 0xC0001000 ≤ lo →
        e.virtualStart + e.pageCount * pageSize ≤ (framebufferEntry img fb).virtualStart ∨
          (framebufferEntry img fb).virtualStart + max 1 (framebufferEntry img fb).pageCount * pageSize ≤ e.virtualStart :=
      fun he hlo => Or.inr ((hf.upper.trans hlo).trans he.lower)
    simp only [addrSpace, List.pairwise_cons, List.forall_mem_cons, List.not_mem_nil, IsEmpty.forall_iff, implies_true,
      and_true, List.Pairwise.nil]
    exact ⟨⟨ht.apart hr le_rfl, ht.apart hd h3, ht.apart hb (h3.trans h4), ht.apart hh (by omega), hlast ht (by omega)⟩,
      ⟨hr.apart hd le_rfl, hr.apart hb h4, hr.apart hh (by omega), hlast hr (by omega)⟩,
      ⟨hd.apart hb le_rfl, hd.apart hh h5, hlast hd (by omega)⟩, ⟨hb.apart hh le_rfl, hlast hb (by omega)⟩, hlast hh (by omega)⟩

/-! ## A new context returns -/

section Returns

variable {A : Allocator} {mi : KernelMeminfo} {h h₀ : Heap} {ctx : VmmContext} {l : List (ℕ × Area)}
  {t : BinaryTree (ℕ × VmmAllocation)} {e : AddrSpaceEntry} {es : List AddrSpaceEntry} {c : ℕ × Area} {N : ℕ}

/-- the first page of an entry to come is in a block -/
theorem Filling.offered (hfill : Filling mi l (e :: es)) (hf : FreeOk l) (hes : AddrSpaceOk mi (e :: es)) :
    ∃ c ∈ l, isAddrInRange e.virtualStart c.2 = true := by
  have hal := hes.aligned e List.mem_cons_self
  have hpage : e.virtualStart / pageSize * pageSize = e.virtualStart := Nat.div_mul_cancel (Nat.dvd_of_mod_eq_zero hal)
  have hn : 0 < max 1 e.pageCount * pageSize := Nat.mul_pos (lt_of_lt_of_le Nat.zero_lt_one (le_max_left _ _)) (by decide)
  have hfree := hfill.free e List.mem_cons_self (e.virtualStart / pageSize) hpage.ge (by omega)
  obtain ⟨c, hc, hin⟩ := exists_block hf hfree
  rw [hpage] at hin
  exact ⟨c, hc, inRange_iff_bounds.2 hin⟩

theorem Grown.ne_nil {a : VmmAllocation} {t' : BinaryTree (ℕ × VmmAllocation)} (hg : Grown t a t') : t' ≠ .nil := by
  rintro rfl
  obtain ⟨d, hd, _⟩ := hg.has
  cases hd

/-- the loop over `ADDR_SPACE` -/
theorem mapAddrSpace_returns (hi : Inv ⟨h, ctx⟩ l t) (ht : t ≠ .nil) (hfill : Filling mi l es) (hes : AddrSpaceOk mi es)
    (hpa : ∀ e ∈ es, e.physicalStart % pageSize = 0) (h0 : 0 < mi.higherHalfBase) (hA : A.Answers N)
    (hlen : h.arena.live.length + 2 * es.length ≤ N) : ∃ r, mapAddrSpace A mi es h ctx = .ok r := by
  induction es generalizing h ctx l t with
  | nil => exact ⟨_, rfl⟩
  | cons e es ih =>
    have hva := hes.aligned e List.mem_cons_self
    have hlow := hes.lower e List.mem_cons_self
    have hva0 : e.virtualStart ≠ 0 := by omega
    have hup : e.virtualStart < 2 ^ 32 := by
      have := hes.upper e List.mem_cons_self
      simp only [pageSize] at this
      omega
    have hcontained : ∀ c ∈ l, isAddrInRange e.virtualStart c.2 = true →
        e.virtualStart + e.pageCount * pageSize ≤ c.2.virtualAddr + c.2.pageCount * pageSize := by
      intro c hc hin
      obtain ⟨hge, hlt⟩ := inRange_iff_bounds.1 hin
      exact hfill.contained hi.free hes hc hge hlt
    -- a block with the first page serves the request
    have hserves : ∀ c ∈ l, isAddrInRange e.virtualStart c.2 = true → Serves c.2 e.virtualStart e.pageCount := by
      intro c hc hin
      refine ⟨hin, Or.inr ?_⟩
      have h1 := hcontained c hc hin
      have h2 := (inRange_iff_bounds.1 hin).1
      simp only [pageSize] at h1 ⊢
      omega
    have hcounts : ∀ c ∈ l, c.2.pageCount < 2 ^ 32 := by
      intro c hc
      have hfits := (hi.free.area c hc).fits
      simp only [pageSize] at hfits
      omega
    obtain ⟨b, hb, hbin⟩ := hfill.offered hi.free hes
    have hroom : e.pageCount ≤ b.2.pageCount := by
      have h1 := hcontained b hb hbin
      have h2 := (inRange_iff_bounds.1 hbin).1
      simp only [pageSize] at h1
      omega
    rw [List.length_cons] at hlen
    obtain ⟨h₁, ctx₁, hmap, hsize, _⟩ := @mapPages_returns A mi h ctx l t e.virtualStart e.physicalStart e.flags e.pageCount N
      hi.rep ht ⟨b, hb, (suits_iff hva0).2 ⟨hbin, hroom⟩⟩
      (fun c hc hsuit => ⟨hserves c hc ((suits_iff hva0).1 hsuit).1, hcounts c hc⟩) hA (by omega) hva0 hup hva
      (hpa e List.mem_cons_self)
    obtain ⟨l₁, c, l₂, m, t', rfl, hcut, _, hgrown, hi'⟩ := map_inv hi hva (hfill.fitOk hi.free hes h0) hmap
    obtain ⟨r, hr⟩ := ih hi' hgrown.ne_nil (hfill.cut hi.free hes hcut) hes.tail (fun f hf => hpa f (List.mem_cons_of_mem _ hf)) (by omega)
    exact ⟨r, bind_ok.2 ⟨(h₁, ctx₁, e.virtualStart), hmap, hr⟩⟩

/-- a context without entries: one node and two free blocks -/
theorem blankContext_returns (hA : A.Answers N) (hlen : h₀.arena.live.length + 3 ≤ N) :
    ∃ h ctx, vmmNewContext A mi [] h₀ = .ok (h, ctx) ∧ h.arena.live.length ≤ h₀.arena.live.length + 3 := by
  obtain ⟨⟨h₁, r⟩, hnode⟩ : ∃ r, h₀.newNode A ⟨⟨0, 0, 0, 0⟩, 0, 0, 0⟩ = .ok r := by
    have hanswer : (h₀.arena.alloc A).1 ≠ 0 := hA _ _ (by omega)
    unfold Heap.newNode
    dsimp only
    rw [if_neg hanswer]
    exact ⟨_, rfl⟩
  have hempty : createEmptyCtx A h₀ = .ok (h₁, ⟨r, 0⟩) := bind_ok.2 ⟨(h₁, r), hnode, rfl⟩
  have hsize₁ : h₁.arena.live.length = h₀.arena.live.length + 1 := by
    rw [(newNode_ok hnode).2.2.1, List.length_cons]
  obtain ⟨q, hr₁⟩ := createEmptyCtx_rep hempty
  obtain ⟨h₂, ctx₂, huser⟩ := @addFreeBlocks_returns A mi h₁ ⟨r, 0⟩ [] 0 (mi.higherHalfBase / pageSize) hr₁.freeList
    (hA _ _ (by omega))
  have hsize₂ := addFreeBlocks_size huser
  obtain ⟨p, hr₂⟩ := addFreeBlocks_first hr₁ huser
  obtain ⟨h₃, ctx₃, hkernel⟩ := @addFreeBlocks_returns A mi h₂ ctx₂ _ mi.higherHalfBase
    (2 ^ 32 / pageSize - mi.higherHalfBase / pageSize) hr₂.freeList (hA _ _ (by omega))
  have hsize₃ := addFreeBlocks_size hkernel
  refine ⟨h₃, ctx₃, bind_ok.2 ⟨_, hempty, bind_ok.2 ⟨_, huser, bind_ok.2 ⟨_, hkernel, rfl⟩⟩⟩, by omega⟩

theorem newContext_append (hok : vmmNewContext A mi [] h₀ = .ok (h, ctx)) :
    vmmNewContext A mi es h₀ = mapAddrSpace A mi es h ctx := by
  obtain ⟨⟨h₁, ctx₁⟩, hempty, hok⟩ := bind_ok.1 hok
  obtain ⟨⟨h₂, ctx₂⟩, huser, hok⟩ := bind_ok.1 hok
  obtain ⟨⟨h₃, ctx₃⟩, hkernel, hok⟩ := bind_ok.1 hok
  cases hok
  simp only [vmmNewContext, hempty, huser, hkernel, ok_bind]

/-- after it, the entries can be mapped one after the other -/
theorem blankContext_filling (h0 : 0 < mi.higherHalfBase) (hal : mi.higherHalfBase % pageSize = 0)
    (hok : vmmNewContext A mi [] h₀ = .ok (h, ctx)) :
    ∃ l t, Inv ⟨h, ctx⟩ l t ∧ t ≠ .nil ∧ (([] : List AddrSpaceEntry) = [] → ∀ es, AddrSpaceOk mi es → Filling mi l es) := by
  have hnone : AddrSpaceOk mi [] := ⟨by simp, by simp, by simp, List.Pairwise.nil⟩
  refine newContext_ind
    (P := fun s l done => ∃ t, Inv s l t ∧ t ≠ .nil ∧ (done = [] → ∀ es, AddrSpaceOk mi es → Filling mi l es))
    (fun s l _ ⟨_, hi, _⟩ => hi.free) (fun s l r hr hb => ⟨_, inv_blank hr hb, by simp, fun _ => hb.fill⟩) ?_ h0 hal hnone hok
  rintro h ctx h' ctx' r l e done ⟨t, hi, _⟩ _ hva hva0 hfit hmap
  obtain ⟨l₁, c, l₂, m, t', hl, hcut, haddr, hgrown, hi'⟩ := map_inv hi hva hfit hmap
  rw [haddr hva0] at hcut
  exact ⟨l₁, c, l₂, m, hl, hcut, t', hi', hgrown.ne_nil, fun hdone => by cases hdone⟩

/-- **A new context returns** if the heap has three blocks, and two for each entry. -/
theorem newContext_returns (h0 : 0 < mi.higherHalfBase) (hal : mi.higherHalfBase % pageSize = 0) (hes : AddrSpaceOk mi es)
    (hpa : ∀ e ∈ es, e.physicalStart % pageSize = 0) (hA : A.Answers N)
    (hlen : h₀.arena.live.length + 3 + 2 * es.length ≤ N) : ∃ r, vmmNewContext A mi es h₀ = .ok r := by
  obtain ⟨h, ctx, hblank, hsize⟩ := @blankContext_returns A mi h₀ N hA (by omega)
  obtain ⟨l, t, hi, ht, hfill⟩ := blankContext_filling h0 hal hblank
  rw [newContext_append hblank]
  exact mapAddrSpace_returns hi ht (hfill rfl es hes) hes hpa h0 hA (by omega)

end Returns

/-! ## What is mapped -/

section Mapped

variable {A : Allocator} {mi : KernelMeminfo} {h h₀ : Heap} {ctx : VmmContext} {l : List (ℕ × Area)}
  {t : BinaryTree (ℕ × VmmAllocation)} {es done : List AddrSpaceEntry}

/-- the page is one of the entry -/
def InEntry (e : AddrSpaceEntry) (p : ℕ) : Prop := e.virtualStart / pageSize ≤ p ∧ p < e.virtualStart / pageSize + e.pageCount

/-- the tree has the records of the entries, in order, and no others but the empty root; the record of an empty entry may be lost -/
structure Recorded (s : Space) (l : List (ℕ × Area)) (done : List AddrSpaceEntry) (t : BinaryTree (ℕ × VmmAllocation)) :
    Prop where
  inv : Inv s l t
  root : RootOk t
  ordered : Ordered t
  has : ∀ e ∈ done, e.pageCount ≠ 0 → ∃ c ∈ cells t, c.2 = entryRecord e
  only : ∀ c ∈ cells t, c.2 = ⟨0, 0, 0, 0⟩ ∨ ∃ e ∈ done, c.2 = entryRecord e

/-- the records of a tree stay, but for an empty root -/
theorem Grown.kept {a : VmmAllocation} {t' : BinaryTree (ℕ × VmmAllocation)} {c : ℕ × VmmAllocation} (hg : Grown t a t')
    (hc : c ∈ cells t) (hcount : c.2.pageCount ≠ 0) : c ∈ cells t' := by
  cases hg with
  | root ht hempty =>
    subst ht
    rcases List.mem_cons.1 hc with rfl | hc
    · exact absurd hempty hcount
    · exact List.mem_cons_of_mem _ hc
  | leaf _ _ => exact (cells_insertLeaf _ _ _).mem_iff.2 (List.mem_cons_of_mem _ hc)

theorem newContext_recorded (h0 : 0 < mi.higherHalfBase) (hal : mi.higherHalfBase % pageSize = 0) (hes : AddrSpaceOk mi es)
    (hok : vmmNewContext A mi es h₀ = .ok (h, ctx)) : ∃ l t, Recorded ⟨h, ctx⟩ l es.reverse t := by
  refine newContext_ind (P := fun s l done => ∃ t, Recorded s l done t) (fun s l _ ⟨t, hi⟩ => hi.inv.free)
    (fun s l r hr hb => ⟨_, inv_blank hr hb, rootOk_leaf _, spread_leaf _, fun e he => absurd he List.not_mem_nil,
      fun c hc => Or.inl (by rw [List.mem_singleton.1 hc])⟩) ?_ h0 hal hes hok
  rintro h ctx h' ctx' r l e done ⟨t, hrec⟩ hdone hva hva0 hfit hmap
  obtain ⟨l₁, c, l₂, m, t', rfl, hcut, haddr, hgrown, hi'⟩ := map_inv hrec.inv hva hfit hmap
  obtain rfl := haddr hva0
  have hapart : ∀ d ∈ cells t, d.2.upper ≤ e.virtualStart ∨
      e.virtualStart < d.2.virtualAddr ∧ (entryRecord e).upper ≤ d.2.virtualAddr := by
    intro d hd
    rcases hrec.only d hd with hzero | ⟨f, hf, hfd⟩
    · left
      rw [hzero]
      exact Nat.zero_le _
    · rw [hfd]
      refine (hdone f hf).imp_right fun hle => ⟨?_, (Nat.add_le_add_left (pages_le e) _).trans hle⟩
      have hpos : 0 < max 1 e.pageCount * pageSize := Nat.mul_pos (lt_of_lt_of_le Nat.zero_lt_one (le_max_left _ _)) (by decide)
      exact (Nat.lt_add_of_pos_right hpos).trans_le hle
  refine ⟨l₁, c, l₂, m, rfl, hcut, t', hi', hgrown.rootOk_kept hrec.root, ?_, ?_, ?_⟩
  · exact hrec.ordered.grown hgrown (fun c tl tr ht hc => by subst ht; exact hrec.root hc) hapart
  · intro f hf hcount
    rcases List.mem_cons.1 hf with rfl | hf
    · exact hgrown.has
    · obtain ⟨d, hd, hdf⟩ := hrec.has f hf hcount
      refine ⟨d, hgrown.kept hd ?_, hdf⟩
      rw [hdf]
      exact hcount
  · intro d hd
    rcases hgrown.mem d hd with heq | hd
    · exact Or.inr ⟨e, List.mem_cons_self, heq⟩
    · exact (hrec.only d hd).imp_right fun ⟨f, hf, hfd⟩ => ⟨f, List.mem_cons_of_mem _ hf, hfd⟩

/-- a page is free exactly if no entry has it -/
theorem Recorded.free_iff {s : Space} (hrec : Recorded s l done t) {p : ℕ} (hp : p < 2 ^ 20) :
    Free l p ↔ ∀ e ∈ done, ¬ InEntry e p := by
  have hpages := hrec.inv.pages p
  rw [Tiling.hit_of_mem (Nat.zero_le p) (by simpa using hp)] at hpages
  unfold Free
  constructor
  · intro hfree e he hin
    obtain ⟨c, hc, hce⟩ := hrec.has e he (by unfold InEntry at hin; omega)
    have hhit : Tiling.hit (allocSpan c.2) p = 1 := by
      rw [hce]
      exact Tiling.hit_of_mem hin.1 hin.2
    have hle : Tiling.hit (allocSpan c.2) p ≤ allocCover t p := Tiling.hit_le_cover (List.mem_map_of_mem hc)
    omega
  · intro hnone
    by_contra hfree
    obtain ⟨b, hb, h1, h2⟩ := Tiling.exists_of_cover (l := (cells t).map fun c => allocSpan c.2) (x := p)
      (by rw [allocCover] at hpages; omega)
    obtain ⟨c, hc, rfl⟩ := List.mem_map.1 hb
    rcases hrec.only c hc with hzero | ⟨e, he, hce⟩
    · rw [hzero] at h1 h2
      exact absurd (lt_of_le_of_lt h1 h2) (lt_irrefl _)
    · rw [hce] at h1 h2
      exact hnone e he ⟨h1, h2⟩

/-- every address of an entry is looked up to the record of the entry -/
theorem Recorded.lookup {s : Space} (hrec : Recorded s l done t) {e : AddrSpaceEntry} {x : ℕ} (he : e ∈ done)
    (h1 : e.virtualStart ≤ x) (h2 : x < e.virtualStart + e.pageCount * pageSize)
    (hend : e.virtualStart + e.pageCount * pageSize < 2 ^ 32) :
    vmmFindAllocation s.heap s.ctx x = .ok (entryRecord e) := by
  have hcount : e.pageCount ≠ 0 := by
    intro h0
    rw [h0] at h2
    omega
  obtain ⟨c, hc, hce⟩ := hrec.has e he hcount
  have hfind := @Ordered.find t c x hrec.ordered hc (by rw [hce]; exact ⟨h1, h2⟩) (by rw [hce]; exact hend)
  rw [vmmFindAllocation_eq hrec.inv.rep, hfind, found, hce]

/-- the loop returns only if every entry is mapped to a page-aligned address -/
theorem mapAddrSpace_aligned {r : Heap × VmmContext} (hok : mapAddrSpace A mi es h ctx = .ok r) :
    ∀ e ∈ es, e.physicalStart % pageSize = 0 := by
  induction es generalizing h ctx with
  | nil => simp
  | cons e es ih =>
    obtain ⟨⟨h₁, ctx₁, addr⟩, hmap, hok⟩ := bind_ok.1 hok
    intro f hf
    rcases List.mem_cons.1 hf with rfl | hf
    · unfold vmmMapPages at hmap
      dsimp only at hmap
      split_ifs at hmap with h1 h2 h3
      exact (pagingIsAligned_iff _).1 h2
    · exact ih hok f hf

end Mapped

/-! ## `vmm_init` -/

section Init

variable {A : Allocator} {N : ℕ} {h h₀ : Heap} {ctx : VmmContext} {mem : Mem} {info : ℕ} {ts : List ℕ}

theorem base_ok (img : KernelImage) : 0 < img.higherHalfBase ∧ img.higherHalfBase % pageSize = 0 := by
  rw [img.higherHalfBase_eq]
  decide

/-- what a call that returned went through -/
theorem vmmInit_recorded {img : KernelImage} (hok : vmmInit A img mem info h₀ = .ok (h, ctx)) :
    ∃ tag l t, multibootFramebufferInfo mem info = .ok tag ∧ framebufferAddr mem tag % pageSize = 0 ∧
      Recorded ⟨h, ctx⟩ l (addrSpace img (framebufferAddr mem tag)).reverse t := by
  obtain ⟨tag, htag, hok⟩ := bind_ok.1 hok
  split_ifs at hok
  have hfb : framebufferAddr mem tag % pageSize = 0 := by
    obtain ⟨_, _, hrest⟩ := bind_ok.1 hok
    obtain ⟨_, _, hrest⟩ := bind_ok.1 hrest
    obtain ⟨_, _, hmap⟩ := bind_ok.1 hrest
    exact mapAddrSpace_aligned hmap (framebufferEntry img (framebufferAddr mem tag)) (by simp [addrSpace])
  obtain ⟨l, t, hrec⟩ := newContext_recorded (base_ok img).1 (base_ok img).2 (addrSpace_ok img hfb) hok
  exact ⟨tag, l, t, htag, hfb, hrec⟩

/-- a call with a framebuffer tag whose address is page-aligned -/
theorem vmmInit_returns (img : KernelImage) {tag : ℕ} (hA : A.Answers N) (hlen : h₀.arena.live.length + 15 ≤ N)
    (htag : multibootFramebufferInfo mem info = .ok tag) (htag0 : tag ≠ 0) (hfb : framebufferAddr mem tag % pageSize = 0) :
    ∃ r, vmmInit A img mem info h₀ = .ok r := by
  obtain ⟨r, hr⟩ := newContext_returns (base_ok img).1 (base_ok img).2 (addrSpace_ok img hfb)
    (fun e he => ((inLine img hfb).entryIn e he).physical) hA hlen
  refine ⟨r, bind_ok.2 ⟨tag, htag, ?_⟩⟩
  rw [if_neg htag0]
  exact hr

/-- an address of an entry is looked up to the entry -/
theorem Recorded.lookup_entry {img : KernelImage} {fb x : ℕ} {s : Space} {l : List (ℕ × Area)}
    {t : BinaryTree (ℕ × VmmAllocation)} {e : AddrSpaceEntry} (hrec : Recorded s l (addrSpace img fb).reverse t)
    (hfb : fb % pageSize = 0) (he : e ∈ addrSpace img fb) (h1 : e.virtualStart ≤ x)
    (h2 : x < e.virtualStart + e.pageCount * pageSize) : vmmFindAllocation s.heap s.ctx x = .ok (entryRecord e) := by
  have hup := ((inLine img hfb).entryIn e he).upper
  exact hrec.lookup (List.mem_reverse.2 he) h1 h2 (by omega)

/-- the first framebuffer tag of a multiboot information -/
def firstFramebuffer (mem : Mem) (ts : List ℕ) : Option ℕ := ts.find? fun t => decide (tagType mem t = .framebuffer)

/-- a section with the flags of its entry -/
def KernelImage.sections (img : KernelImage) : List (ImageSection × ℕ) :=
  [(img.text, pageFlagPresent), (img.rodata, pageFlagPresent), (img.data, pageFlagPresent ||| pageFlagWrite),
    (img.bss, pageFlagPresent ||| pageFlagWrite)]

theorem KernelImage.section_ok (img : KernelImage) {s : ImageSection × ℕ} (hs : s ∈ img.sections) :
    s.1.Linked ∧ 0xC0100000 ≤ s.1.virtualStart ∧ s.1.virtualEnd ≤ kernelHeapVirtStart ∧ s.2.testBit 0 = true ∧ s.2 < 4096 := by
  have h1 := img.text_linked.start_le
  have h2 := img.rodata_linked.start_le
  have h3 := img.data_linked.start_le
  have h4 := img.bss_linked.start_le
  have h5 := img.text_end
  have h6 := img.rodata_end
  have h7 := img.data_end
  have h8 := img.bss_end
  have h9 := img.text_start
  simp only [KernelImage.sections, List.mem_cons, List.not_mem_nil, or_false] at hs
  have hread : pageFlagPresent.testBit 0 = true ∧ pageFlagPresent < 4096 := by decide
  have hwrite : (pageFlagPresent ||| pageFlagWrite).testBit 0 = true ∧ pageFlagPresent ||| pageFlagWrite < 4096 := by decide
  rcases hs with rfl | rfl | rfl | rfl
  · refine ⟨img.text_linked, ?_, ?_, hread⟩ <;> dsimp only <;> omega
  · refine ⟨img.rodata_linked, ?_, ?_, hread⟩ <;> dsimp only <;> omega
  · refine ⟨img.data_linked, ?_, ?_, hwrite⟩ <;> dsimp only <;> omega
  · refine ⟨img.bss_linked, ?_, ?_, hwrite⟩ <;> dsimp only <;> omega

/-- **Faults in the kernel image.** For every kernel image, after `vmm_init`: a page of a section that is not present when it is
touched gets the frame whose number is the link address of the section, whatever page of the section it is, and never the
frame where the boot code has loaded it. -/
theorem section_fault_misplaced {img : KernelImage} {pagingCtx : PagingContext} {bm : Bitmap} (tables : Tables)
    {s : ImageSection × ℕ} {x errCode : ℕ} (hok : vmmInit A img mem info h₀ = .ok (h, ctx))
    (hp : Placed img.toKernelMeminfo pagingCtx) (hs : s ∈ img.sections) (h1 : s.1.virtualStart ≤ x) (h2 : x < s.1.virtualEnd)
    (herr : errCode &&& pagingErrCodeP = 0) :
    Backs img.toKernelMeminfo ⟨h, ctx⟩ pagingCtx bm tables x errCode s.1.virtualStart ∧
      ¬ Backs img.toKernelMeminfo ⟨h, ctx⟩ pagingCtx bm tables x errCode
        (vmmVirtualToPhysical img.toKernelMeminfo (pagingAlignAddr x)) := by
  obtain ⟨tag, l, t, _, hfb, hrec⟩ := vmmInit_recorded hok
  obtain ⟨hlinked, hlow, hhigh, hpresent, hflags⟩ := img.section_ok hs
  have hsum := hlinked.pages hhigh s.2
  have hcount : (s.1.entry s.2).pageCount ≠ 0 := by
    intro h0
    rw [h0] at hsum
    omega
  have hheap : kernelHeapVirtStart = 0xE0000000 := rfl
  have hal := hlinked.start_aligned
  have hmem : s.1.entry s.2 ∈ addrSpace img (framebufferAddr mem tag) := by
    simp only [KernelImage.sections, List.mem_cons, List.not_mem_nil, or_false] at hs
    rcases hs with rfl | rfl | rfl | rfl <;> simp [addrSpace]
  have halign : s.1.virtualStart ≤ pagingAlignAddr x ∧ pagingAlignAddr x ≤ x := by
    unfold pagingAlignAddr
    simp only [pageSize] at hal ⊢
    omega
  have hfound := hrec.lookup_entry hfb hmem halign.1 (lt_of_le_of_lt halign.2 (hsum ▸ h2))
  have hphys : (entryRecord (s.1.entry s.2)).physicalAddr = s.1.virtualStart := hlinked.physical
  have hbacks : ∀ frame, Backs img.toKernelMeminfo ⟨h, ctx⟩ pagingCtx bm tables x errCode frame ↔
      s.2.testBit 0 = true ∧ s.1.virtualStart = frame := by
    intro frame
    rw [← hphys]
    exact backs_iff tables hp (by omega) herr hfound hcount (by rw [hphys]; omega)
      (by rw [hphys]; exact hal) hflags
  refine ⟨(hbacks _).2 ⟨hpresent, rfl⟩, fun hback => ?_⟩
  -- the image is loaded below 1 GB
  have hload := ((hbacks _).1 hback).2
  unfold vmmVirtualToPhysical u32 at hload
  rw [img.higherHalfBase_eq] at hload
  omega

end Init

/-- where the image ends -/
theorem small_physicalEnd : 0x400000 < 2 ^ 32 := by decide
theorem small_virtualEnd : 0xC0400000 < 2 ^ 32 := by decide

/-- the sections of a small image; there is no data -/
def smallText : ImageSection := ⟨0xC0105000, 0xC0105000, 0xC010A000⟩
def smallRodata : ImageSection := ⟨0xC010A000, 0xC010A000, 0xC010C000⟩
def smallData : ImageSection := ⟨0xC010C000, 0xC010C000, 0xC010C000⟩
def smallBss : ImageSection := ⟨0xC010C000, 0xC010C000, 0xC0400000⟩

theorem smallText_linked : smallText.Linked := ⟨by decide, by decide, by decide, rfl⟩
theorem smallRodata_linked : smallRodata.Linked := ⟨by decide, by decide, by decide, rfl⟩
theorem smallData_linked : smallData.Linked := ⟨by decide, by decide, by decide, rfl⟩
theorem smallBss_linked : smallBss.Linked := ⟨by decide, by decide, by decide, rfl⟩
theorem smallText_start : 0xC0100000 ≤ smallText.virtualStart := by decide
theorem smallBss_end : smallBss.virtualEnd ≤ kernelHeapVirtStart := by decide

def smallImage : KernelImage where
  physicalStart := 0x100000
  physicalEnd := 0x400000
  virtualStart := 0xC0100000
  virtualEnd := 0xC0400000
  higherHalfBase := 0xC0000000
  physicalStart_lt := KernelMeminfo.atOneMegabyte.physicalStart_lt
  physicalEnd_lt := small_physicalEnd
  virtualStart_lt := KernelMeminfo.atOneMegabyte.virtualStart_lt
  virtualEnd_lt := small_virtualEnd
  higherHalfBase_lt := KernelMeminfo.atOneMegabyte.higherHalfBase_lt
  text := smallText
  rodata := smallRodata
  data := smallData
  bss := smallBss
  higherHalfBase_eq := rfl
  text_linked := smallText_linked
  rodata_linked := smallRodata_linked
  data_linked := smallData_linked
  bss_linked := smallBss_linked
  text_start := smallText_start
  text_end := rfl
  rodata_end := rfl
  data_end := rfl
  bss_end := smallBss_end

/-- a fault in the third page of the text is backed by a frame above 3 GB -/
theorem section_fault_misplaced_small :
    ∃ h ctx, vmmInit .lowest smallImage Multiboot.twoModules 0 emptyHeap = .ok (h, ctx) ∧
      Backs smallImage.toKernelMeminfo ⟨h, ctx⟩ Paging.context someUsed blank 0xC0107123 0 0xC0105000 := by
  obtain ⟨⟨h, ctx⟩, hok⟩ := @vmmInit_returns .lowest _ emptyHeap Multiboot.twoModules 0 smallImage 56
    Allocator.lowest_answers (by decide) (by decide) (by decide) (by decide)
  exact ⟨h, ctx, hok, (section_fault_misplaced blank hok (by decide) List.mem_cons_self (by decide) (by decide) rfl).1⟩

end Gubos.Vmm
