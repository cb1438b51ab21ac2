/-
Which bytes of the image `elf_load` reads (`elf/elf.c`, `elf/loader.c`).

`elf_parse_header` looks at the length of the image once: it has to hold the ELF header. The fields that `elf_load` follows
(the place and the number of the program headers, and the place and the sizes of the segments) are never compared with the
length. The loader is modelled a second time, with a check before every read of the image: of a field of a program header
when the code reads it, and of every byte that `memcpy` copies.

- `elfLoadChecked_guarded`: the checked loader does what `elf_load` does unless a read is out of bounds, and what is enough for
  that;
- `reads_within`: if the program headers up to the first of type NULL, and the bytes their pages are copied from, are inside
  the image, no read is out of bounds; when `elf_load` returns, that is also needed;
- `table_outside`: an accepted image of 52 bytes whose program header is at 4096.
-/
import Gubos.Core.Checked
import Gubos.Elf.Loader

namespace Gubos.Elf

open Gubos.Core Gubos.Paging Gubos.Vmm Gubos.Pmm Gubos.PageFault

/-! ## The ELF header -/

/-- `ELF_PARSE_ERR_TRUNCATED` to `ELF_PARSE_ERR_INV_VERSION`, which are 1 to 8 -/
inductive ElfParseErr where
  | truncated
  | invIdent
  | invType
  | invClass
  | invData
  | invOsabi
  | invMachine
  | invVersion
deriving DecidableEq, Repr

/-- `sizeof(elf32_hdr_t)` -/
def elfHdrSize : ℕ := 52

/-- the fields of the copied header that `elf_load` reads -/
def hdrOf (elf : Mem) : Hdr := ⟨load32 elf 28, load16 elf 42, load16 elf 44⟩

/-- `elf_parse_header`: the header, or what is wrong with it -/
def elfParseHeader (elf : Mem) (len : ℕ) : Except ElfParseErr Hdr :=
  if len < elfHdrSize then .error .truncated
  else if elf 0 ≠ 0x7F ∨ elf 1 ≠ 0x45 ∨ elf 2 ≠ 0x4C ∨ elf 3 ≠ 0x46 then .error .invIdent
  else if elf 4 ≠ 1 then .error .invClass
  else if elf 5 ≠ 1 then .error .invData
  else if elf 7 ≠ 0 then .error .invOsabi
  else if load16 elf 16 ≠ 2 then .error .invType
  else if load16 elf 18 ≠ 3 then .error .invMachine
  -- the machine is compared twice, and the version not at all
  else if load16 elf 18 ≠ 3 then .error .invMachine
  else .ok (hdrOf elf)

/-! ## The loader, with its reads checked -/

section Code

variable (A : Allocator) (mi : KernelMeminfo) (cur : Current)

/-- `memcpy` from the image: byte `source k` of the image is read, and then stored -/
def memcpyChecked (rawElf : Mem) (len : ℕ) (m : Machine) (destination : ℕ) (source : ℕ → ℕ) (num : ℕ) :
    Except (Checked Fault) Machine :=
  (List.range' 0 num).foldlM (fun m k => do
    check len (source k) 1
    unchecked (store mi cur m (u32 (destination + k)) (rawElf (source k)))) m

/-- a round of the loop after the file was copied -/
def finishPage (kernPagingCtx : PagingContext) (progHdr : ProgHdr) (m : Machine) (kernVmmCtx vmmCtx : VmmContext)
    (virtualAddr physicalAddr fileSize : ℕ) : Except Fault Loading := do
  let alignedVaddr := pagingAlignAddr virtualAddr
  let (heap, vmmCtx, _) ← vmmMapPages A mi m.heap vmmCtx alignedVaddr physicalAddr 1 (segmentFlags progHdr)
  let (m, fileSize) ← zeroRest mi cur progHdr { m with heap := heap } virtualAddr fileSize
  let (heap, kernVmmCtx) ← vmmUnmapPages A mi m.heap kernVmmCtx alignedVaddr 1
  .ok ⟨{ m with heap := heap, tables := pagingUnmapAddr mi kernPagingCtx m.tables alignedVaddr }, kernVmmCtx, vmmCtx, fileSize⟩

/-- a round of the loop, for the program header at `hdrOffset` -/
def loadPageChecked (kernPagingCtx : PagingContext) (rawElf : Mem) (len hdrOffset : ℕ) (s : Loading) (i : ℕ) :
    Except (Checked Fault) Loading := do
  let progHdr := progHdrAt rawElf hdrOffset
  -- prog_hdr->vaddr
  check len (hdrOffset + 8) 4
  let virtualAddr := u32 (progHdr.vaddr + i * pageSize)
  let (physicalAddr, bitmap) ← unchecked (pmmAllocPage s.machine.bitmap)
  -- prog_hdr->flags
  check len (hdrOffset + 24) 4
  let (heap, kernVmmCtx, _) ← unchecked (vmmMapPages A mi s.machine.heap s.kernVmmCtx (pagingAlignAddr virtualAddr)
    physicalAddr 1 (segmentFlags progHdr))
  -- prog_hdr->offset
  check len (hdrOffset + 4) 4
  let m ← memcpyChecked mi cur rawElf len { s.machine with heap := heap, bitmap := bitmap } virtualAddr
    (fun k => u32 (progHdr.offset + i * pageSize + k)) s.fileSize
  unchecked (finishPage A mi cur kernPagingCtx progHdr m kernVmmCtx s.vmmCtx virtualAddr physicalAddr s.fileSize)

/-- the pages of a segment -/
def segmentPageCount (progHdr : ProgHdr) : ℕ :=
  pagingPageCount (if progHdr.memsz < progHdr.filesz then progHdr.filesz else progHdr.memsz)

/-- `handle_loadable_segment` -/
def handleLoadableSegmentChecked (kernPagingCtx : PagingContext) (rawElf : Mem) (len hdrOffset : ℕ) (m : Machine)
    (kernVmmCtx vmmCtx : VmmContext) : Except (Checked Fault) Loading := do
  -- prog_hdr->filesz and prog_hdr->memsz
  check len (hdrOffset + 16) 4
  check len (hdrOffset + 20) 4
  let progHdr := progHdrAt rawElf hdrOffset
  (List.range' 0 (segmentPageCount progHdr)).foldlM (loadPageChecked A mi cur kernPagingCtx rawElf len hdrOffset)
    ⟨m, kernVmmCtx, vmmCtx, progHdr.filesz⟩

/-- the offset of a program header -/
def hdrOffsetAt (header : Hdr) (i : ℕ) : ℕ := u32 (header.phoff + i * header.phentsize)

/-- the loop of `elf_load` -/
def loadHeadersChecked (kernPagingCtx : PagingContext) (header : Hdr) (rawElf : Mem) (len : ℕ) :
    ℕ → ℕ → Machine → VmmContext → VmmContext → Except (Checked Fault) (Machine × VmmContext × VmmContext)
  | 0, _, m, kernVmmCtx, vmmCtx => .ok (m, kernVmmCtx, vmmCtx)
  | n + 1, i, m, kernVmmCtx, vmmCtx => do
    -- prog_hdr->type
    check len (hdrOffsetAt header i) 4
    let progHdr := progHdrAt rawElf (hdrOffsetAt header i)
    if progHdr.type = elfProgHdrTypeNull then .ok (m, kernVmmCtx, vmmCtx)
    else if progHdr.type = elfProgHdrTypeLoad then do
      let s ← handleLoadableSegmentChecked A mi cur kernPagingCtx rawElf len (hdrOffsetAt header i) m kernVmmCtx vmmCtx
      loadHeadersChecked kernPagingCtx header rawElf len n (i + 1) s.machine s.kernVmmCtx s.vmmCtx
    else .error (.fault (.panic (.unsupportedProgHdrType progHdr.type)))

/-- `elf_load`, on an image of `len` bytes -/
def elfLoadChecked (kernPagingCtx : PagingContext) (header : Hdr) (rawElf : Mem) (len : ℕ) (m : Machine)
    (kernVmmCtx vmmCtx : VmmContext) : Except (Checked Fault) (Machine × VmmContext × VmmContext) :=
  loadHeadersChecked A mi cur kernPagingCtx header rawElf len header.phnum 0 m kernVmmCtx vmmCtx

end Code

/-! ## What has to be inside the image -/

/-- what is left of the file size in round `i`: whole pages are taken off, and the rest stays -/
def fileSizeAt (progHdr : ProgHdr) (i : ℕ) : ℕ := progHdr.filesz - min i (progHdr.filesz / pageSize) * pageSize

/-- the fields of the program header that a round reads, and the bytes it copies -/
def PageWithin (rawElf : Mem) (len hdrOffset i : ℕ) : Prop :=
  hdrOffset + 28 ≤ len ∧ ∀ k < fileSizeAt (progHdrAt rawElf hdrOffset) i,
    u32 ((progHdrAt rawElf hdrOffset).offset + i * pageSize + k) < len

/-- a loadable segment -/
def SegmentWithin (rawElf : Mem) (len hdrOffset : ℕ) : Prop :=
  hdrOffset + 24 ≤ len ∧ ∀ i < segmentPageCount (progHdrAt rawElf hdrOffset), PageWithin rawElf len hdrOffset i

/-- a program header: its type, and its segment if it is loadable -/
def EntryWithin (rawElf : Mem) (len hdrOffset : ℕ) : Prop :=
  hdrOffset + 4 ≤ len ∧
    ((progHdrAt rawElf hdrOffset).type = elfProgHdrTypeLoad → SegmentWithin rawElf len hdrOffset)

/-- every program header that the loop gets to, that is, after loadable ones only -/
def TableWithin (header : Hdr) (rawElf : Mem) (len : ℕ) : Prop :=
  ∀ i < header.phnum, (∀ j < i, (progHdrAt rawElf (hdrOffsetAt header j)).type = elfProgHdrTypeLoad) →
    EntryWithin rawElf len (hdrOffsetAt header i)

section Guarded

variable {A : Allocator} {mi : KernelMeminfo} {cur : Current} {kernPagingCtx : PagingContext} {header : Hdr}
  {rawElf : Mem} {len hdrOffset : ℕ} {progHdr : ProgHdr} {s s' : Loading} {i : ℕ}

/-! ## One page -/

theorem fileSizeAt_zero (progHdr : ProgHdr) : fileSizeAt progHdr 0 = progHdr.filesz := by
  unfold fileSizeAt
  simp

theorem fileSizeAt_succ (progHdr : ProgHdr) (i : ℕ) :
    fileSizeAt progHdr (i + 1) =
      if fileSizeAt progHdr i < pageSize then fileSizeAt progHdr i else fileSizeAt progHdr i - pageSize := by
  unfold fileSizeAt pageSize
  split_ifs with h <;> omega

/-- a round is an allocation, a mapping, a copy, and the rest -/
theorem loadPage_eq (s : Loading) (i : ℕ) :
    loadPage A mi cur kernPagingCtx progHdr rawElf s i = (do
      let virtualAddr := u32 (progHdr.vaddr + i * pageSize)
      let (physicalAddr, bitmap) ← pmmAllocPage s.machine.bitmap
      let (heap, kernVmmCtx, _) ← vmmMapPages A mi s.machine.heap s.kernVmmCtx (pagingAlignAddr virtualAddr)
        physicalAddr 1 (segmentFlags progHdr)
      let m ← memcpy mi cur { s.machine with heap := heap, bitmap := bitmap } virtualAddr
        (fun k => rawElf (u32 (progHdr.offset + i * pageSize + k))) s.fileSize
      finishPage A mi cur kernPagingCtx progHdr m kernVmmCtx s.vmmCtx virtualAddr physicalAddr s.fileSize) := rfl

theorem zeroRest_fileSize {m m' : Machine} {virtualAddr fileSize fileSize' : ℕ}
    (hok : zeroRest mi cur progHdr m virtualAddr fileSize = .ok (m', fileSize')) :
    fileSize' = if fileSize < pageSize then fileSize else fileSize - pageSize := by
  unfold zeroRest at hok
  split_ifs at hok ⊢
  · obtain ⟨_, _, hok⟩ := bind_ok.1 hok
    cases hok
    rfl
  · cases hok
    rfl
  · cases hok
    rfl

/-- the file size is what the number of the round says -/
theorem loadPage_fileSize (hs : s.fileSize = fileSizeAt progHdr i)
    (hok : loadPage A mi cur kernPagingCtx progHdr rawElf s i = .ok s') : s'.fileSize = fileSizeAt progHdr (i + 1) := by
  rw [loadPage_eq] at hok
  obtain ⟨⟨pa, bitmap⟩, _, hok⟩ := bind_ok.1 hok
  obtain ⟨⟨h₁, kern₁, r₁⟩, _, hok⟩ := bind_ok.1 hok
  obtain ⟨m₁, _, hok⟩ := bind_ok.1 hok
  obtain ⟨⟨h₂, task₂, r₂⟩, _, hok⟩ := bind_ok.1 hok
  obtain ⟨⟨m₂, fileSize⟩, hzero, hok⟩ := bind_ok.1 hok
  obtain ⟨⟨h₃, kern₃⟩, _, hok⟩ := bind_ok.1 hok
  cases hok
  rw [fileSizeAt_succ, ← hs]
  exact zeroRest_fileSize hzero

theorem memcpyChecked_guarded (m : Machine) (destination : ℕ) (source : ℕ → ℕ) (num : ℕ) :
    Guarded (∀ k < num, source k < len) (memcpyChecked mi cur rawElf len m destination source num)
      (memcpy mi cur m destination (fun k => rawElf (source k)) num) := by
  unfold memcpyChecked memcpy
  rw [List.range_eq_range']
  have hround : ∀ k (m : Machine), True → Guarded (source k < len)
      (check len (source k) 1 >>= fun _ => unchecked (store mi cur m (u32 (destination + k)) (rawElf (source k))))
      (store mi cur m (u32 (destination + k)) (rawElf (source k))) := by
    intro k m _
    exact (guarded_check (guarded_unchecked _)).congr (by simp)
  exact (guarded_foldlM hround (fun _ _ _ _ _ => trivial) num 0 m trivial).congr (by simp)

theorem loadPageChecked_guarded (hs : s.fileSize = fileSizeAt (progHdrAt rawElf hdrOffset) i) :
    Guarded (PageWithin rawElf len hdrOffset i) (loadPageChecked A mi cur kernPagingCtx rawElf len hdrOffset s i)
      (loadPage A mi cur kernPagingCtx (progHdrAt rawElf hdrOffset) rawElf s i) := by
  rw [loadPage_eq]
  unfold loadPageChecked
  refine (guarded_check (guarded_bind (guarded_unchecked _) fun ⟨pa, bitmap⟩ _ =>
    guarded_check (guarded_bind (guarded_unchecked _) fun ⟨heap, kern, r⟩ _ =>
      guarded_check (guarded_bind (memcpyChecked_guarded _ _ _ _) fun m _ => guarded_unchecked _)))).congr ?_
  unfold PageWithin
  rw [hs]
  constructor
  · rintro ⟨_, _, h28, _, _, hbytes, _⟩
    exact ⟨h28, hbytes⟩
  · rintro ⟨h28, hbytes⟩
    exact ⟨by omega, trivial, h28, trivial, by omega, hbytes, trivial⟩

/-! ## Segments and the table -/

theorem handle_eq_rounds (m : Machine) (kern task : VmmContext) :
    handleLoadableSegment A mi cur kernPagingCtx progHdr rawElf m kern task =
      (List.range' 0 (segmentPageCount progHdr)).foldlM (loadPage A mi cur kernPagingCtx progHdr rawElf)
        ⟨m, kern, task, progHdr.filesz⟩ := by
  rw [← List.range_eq_range']
  rfl

theorem handleChecked_guarded (m : Machine) (kern task : VmmContext) :
    Guarded (SegmentWithin rawElf len hdrOffset)
      (handleLoadableSegmentChecked A mi cur kernPagingCtx rawElf len hdrOffset m kern task)
      (handleLoadableSegment A mi cur kernPagingCtx (progHdrAt rawElf hdrOffset) rawElf m kern task) := by
  rw [handle_eq_rounds]
  unfold handleLoadableSegmentChecked
  refine (guarded_check (guarded_check (guarded_foldlM
    (I := fun i s => s.fileSize = fileSizeAt (progHdrAt rawElf hdrOffset) i)
    (fun i s hs => loadPageChecked_guarded hs) (fun i s s' hs hok => loadPage_fileSize hs hok) _ 0 _
    (fileSizeAt_zero _).symm))).congr ?_
  unfold SegmentWithin
  constructor
  · rintro ⟨_, h24, hpages⟩
    exact ⟨h24, fun i hi => hpages i (Nat.zero_le i) (by simpa using hi)⟩
  · rintro ⟨h24, hpages⟩
    exact ⟨by omega, h24, fun i _ hi => hpages i (by simpa using hi)⟩

/-- `n` program headers from header `i` on: those that the loop gets to are inside the image -/
def HeadersWithin (header : Hdr) (rawElf : Mem) (len n i : ℕ) : Prop :=
  ∀ j, i ≤ j → j < i + n → (∀ l, i ≤ l → l < j → (progHdrAt rawElf (hdrOffsetAt header l)).type = elfProgHdrTypeLoad) →
    EntryWithin rawElf len (hdrOffsetAt header j)

theorem headersWithin_succ (n i : ℕ) :
    HeadersWithin header rawElf len (n + 1) i ↔
      EntryWithin rawElf len (hdrOffsetAt header i) ∧
        ((progHdrAt rawElf (hdrOffsetAt header i)).type = elfProgHdrTypeLoad → HeadersWithin header rawElf len n (i + 1)) := by
  constructor
  · intro h
    refine ⟨h i le_rfl (by omega) fun l h1 h2 => absurd h2 (by omega), fun hload j h1 h2 hbefore => ?_⟩
    refine h j (by omega) (by omega) fun l hl1 hl2 => ?_
    rcases Nat.eq_or_lt_of_le hl1 with rfl | hlt
    · exact hload
    · exact hbefore l hlt hl2
  · rintro ⟨hentry, hrest⟩ j h1 h2 hbefore
    rcases Nat.eq_or_lt_of_le h1 with rfl | hlt
    · exact hentry
    · exact hrest (hbefore i le_rfl hlt) j hlt (by omega) fun l hl1 hl2 => hbefore l (by omega) hl2

/-- a round of the loop of `elf_load` -/
theorem loadHeaders_succ (n i : ℕ) (m : Machine) (kern task : VmmContext) :
    loadHeaders A mi cur kernPagingCtx header rawElf (n + 1) i m kern task =
      if (progHdrAt rawElf (hdrOffsetAt header i)).type = elfProgHdrTypeNull then .ok (m, kern, task)
      else if (progHdrAt rawElf (hdrOffsetAt header i)).type = elfProgHdrTypeLoad then do
        let s ← handleLoadableSegment A mi cur kernPagingCtx (progHdrAt rawElf (hdrOffsetAt header i)) rawElf m kern task
        loadHeaders A mi cur kernPagingCtx header rawElf n (i + 1) s.machine s.kernVmmCtx s.vmmCtx
      else .error (.panic (.unsupportedProgHdrType (progHdrAt rawElf (hdrOffsetAt header i)).type)) := rfl

theorem loadHeadersChecked_guarded (n i : ℕ) (m : Machine) (kern task : VmmContext) :
    Guarded (HeadersWithin header rawElf len n i)
      (loadHeadersChecked A mi cur kernPagingCtx header rawElf len n i m kern task)
      (loadHeaders A mi cur kernPagingCtx header rawElf n i m kern task) := by
  induction n generalizing i m kern task with
  | zero => exact ⟨fun _ => rfl, fun _ => inBounds_ok, fun _ _ j h1 h2 => absurd h2 (by omega)⟩
  | succ n ih =>
    rw [loadHeaders_succ, headersWithin_succ]
    unfold loadHeadersChecked EntryWithin
    dsimp only
    split_ifs with hnull hload
    · refine (guarded_check (guarded_unchecked (.ok (m, kern, task)))).congr ?_
      simp [hnull, elfProgHdrTypeNull, elfProgHdrTypeLoad]
    · refine (guarded_check (guarded_bind (handleChecked_guarded m kern task) fun s _ => ih (i + 1) _ _ _)).congr ?_
      simp only [hload, forall_const, and_assoc]
    · refine (guarded_check (guarded_unchecked (.error _))).congr ?_
      simp [hload]

/-- **The checked loader.** It does what `elf_load` does, unless a read is out of bounds. -/
theorem elfLoadChecked_guarded (m : Machine) (kern task : VmmContext) :
    Guarded (TableWithin header rawElf len) (elfLoadChecked A mi cur kernPagingCtx header rawElf len m kern task)
      (elfLoad A mi cur kernPagingCtx header rawElf m kern task) := by
  refine (loadHeadersChecked_guarded header.phnum 0 m kern task).congr ?_
  unfold HeadersWithin TableWithin
  simp only [Nat.zero_le, forall_const, Nat.zero_add]

/-- **When no read is outside the image.** For every image that `elf_parse_header` accepts: if every program header that the
loop gets to is inside the image, with the bytes its pages are copied from, then every byte that `elf_load` reads is inside
the image, or it panics before; and when `elf_load` returns, every byte it read was inside if and only if they are. -/
theorem reads_within (m : Machine) (kern task : VmmContext) :
    elfParseHeader rawElf len = .ok header →
      (TableWithin header rawElf len → InBounds (elfLoadChecked A mi cur kernPagingCtx header rawElf len m kern task)) ∧
      ((∃ r, elfLoad A mi cur kernPagingCtx header rawElf m kern task = .ok r) →
        (InBounds (elfLoadChecked A mi cur kernPagingCtx header rawElf len m kern task) ↔ TableWithin header rawElf len)) := by
  intro _
  have hg := @elfLoadChecked_guarded A mi cur kernPagingCtx header rawElf len m kern task
  refine ⟨hg.enough, fun ⟨r, hr⟩ => ⟨fun hb => hg.needed r ?_, hg.enough⟩⟩
  rw [hg.sim hb, hr]
  rfl

end Guarded

/-! ### Concrete images -/

section Concrete

instance (rawElf : Mem) (len hdrOffset i : ℕ) : Decidable (PageWithin rawElf len hdrOffset i) :=
  inferInstanceAs (Decidable (_ ∧ ∀ k < fileSizeAt _ i, u32 (_ + k) < len))

instance (rawElf : Mem) (len hdrOffset : ℕ) : Decidable (SegmentWithin rawElf len hdrOffset) :=
  inferInstanceAs (Decidable (_ ∧ ∀ i < segmentPageCount _, PageWithin rawElf len hdrOffset i))

instance (rawElf : Mem) (len hdrOffset : ℕ) : Decidable (EntryWithin rawElf len hdrOffset) :=
  inferInstanceAs (Decidable (_ ∧ (_ → SegmentWithin rawElf len hdrOffset)))

instance (header : Hdr) (rawElf : Mem) (len : ℕ) : Decidable (TableWithin header rawElf len) :=
  inferInstanceAs (Decidable (∀ i < header.phnum, (∀ j < i, _ = elfProgHdrTypeLoad) → EntryWithin rawElf len _))

/-- an ELF header, with one program header at `phoff`; at 52 there is one for a segment of two bytes, at 84 -/
def imageAt (phoff : ℕ) : Mem :=
  ofWords [0x464C457F, 0x00010101, 0, 0, 0x00030002, 1, 0x400000, phoff, 0, 0, 0x00200034, 1, 0,
    1, 84, 0x400000, 0x400000, 2, 3, 6, 4096, 0x0101]

theorem reads_within_image :
    elfParseHeader (imageAt 52) 86 = .ok ⟨52, 32, 1⟩ ∧
      InBounds (elfLoadChecked .top .atOneMegabyte newCurrent context ⟨52, 32, 1⟩ (imageAt 52) 86 newMachine fresh.2
        newTask.2) ∧
      ¬ InBounds (elfLoadChecked .top .atOneMegabyte newCurrent context ⟨52, 32, 1⟩ (imageAt 52) 85 newMachine fresh.2
        newTask.2) := by
  have h86 : elfParseHeader (imageAt 52) 86 = .ok ⟨52, 32, 1⟩ := by decide
  have h85 : elfParseHeader (imageAt 52) 85 = .ok ⟨52, 32, 1⟩ := by decide
  have hreturns : ∃ r, elfLoad .top .atOneMegabyte newCurrent context ⟨52, 32, 1⟩ (imageAt 52) newMachine fresh.2 newTask.2 =
      .ok r := ⟨_, eq_returned (newMachine, fresh.2, newTask.2) (by decide +kernel)⟩
  refine ⟨h86, ?_, fun hb => ?_⟩
  · exact (reads_within newMachine fresh.2 newTask.2 h86).1 (by decide +kernel)
  · have hin := ((reads_within newMachine fresh.2 newTask.2 h85).2 hreturns).1 hb
    exact absurd hin (by decide +kernel)

/-- **A table outside the image.** An image of 52 bytes, the ELF header alone, is accepted; its one program header is at 4096,
and `elf_load` reads there and returns. -/
theorem table_outside :
    elfParseHeader (imageAt 4096) 52 = .ok ⟨4096, 32, 1⟩ ∧
      elfLoadChecked .top .atOneMegabyte newCurrent context ⟨4096, 32, 1⟩ (imageAt 4096) 52 newMachine fresh.2 newTask.2 =
        .error (.outOfBounds 4096) ∧
      elfLoad .top .atOneMegabyte newCurrent context ⟨4096, 32, 1⟩ (imageAt 4096) newMachine fresh.2 newTask.2 =
        .ok (newMachine, fresh.2, newTask.2) ∧
      ¬ InBounds (elfLoadChecked .top .atOneMegabyte newCurrent context ⟨4096, 32, 1⟩ (imageAt 4096) 52 newMachine fresh.2
        newTask.2) :=
  ⟨by decide, rfl, rfl, fun hb => hb 4096 rfl⟩

end Concrete

end Gubos.Elf
