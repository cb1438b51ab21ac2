/-
The physical page allocator (`mm/pmm.c`).

`MEM_BITMAP` has `MEM_BITMAP_SIZE` = 2^20 BYTES; one bit stands for one 4 KB page, so 2^20 bits cover the 4 GiB of physical
memory and the other 7 * 2^20 bits stand for no page. `pmm_alloc_page` scans all bytes for the first clear bit, and
multiplies its number by the page size in 32 bits. `pmm_free_page` shifts by the page number, which the i386 takes modulo 32,
instead of by the number of the bit in its byte.

`pmm_init` marks what the multiboot2 memory map calls unavailable. The multiboot2 structure is read from memory, tag by tag.
Every loop is given as many rounds as there are distinct states it can be in, so a loop that is cut off never ends.

- `allocPage_spec`: `pmm_alloc_page` takes the first clear bit of the whole bitmap, or panics when there is none;
- `freePage_used`: `pmm_free_page` clears the bit of its page or none, and no other;
- `never_twice`: in every run after `pmm_init` whose allocations find a clear bit among the first 2^20, the next allocation
  is sound if and only if it finds one there too;
- `page_zero_twice`: with all pages but one reserved, the second allocation returns page 0, which is reserved.
-/
import Gubos.Core.Run
import Gubos.Core.Bytes
import Gubos.Layout
import Gubos.Panic

namespace Gubos.Pmm

open Gubos.Core

/-! ## The bitmap -/

/-- `MEM_BITMAP`, byte by byte -/
abbrev Bitmap := ℕ → BitVec 8

/-- `MEM_BITMAP_SIZE`, in bytes -/
def memBitmapSize : ℕ := 2 ^ 20

/-- `BITMAP_ENTRY_MASK` -/
def bitmapEntryMask : BitVec 8 := 0xFF#8

def setByte (bm : Bitmap) (i : ℕ) (b : BitVec 8) : Bitmap := Function.update bm i b

/-- `pmm_mark_addr_used` -/
def pmmMarkAddrUsed (bm : Bitmap) (addr : ℕ) : Bitmap :=
  let bitmapBit := addr / pageSize
  let bitmapIndex := bitmapBit / 8
  setByte bm bitmapIndex (bm bitmapIndex ||| 1#8 <<< (bitmapBit % 8))

/-- `pmm_mark_addr_free`: the mask is a 32-bit `int`, and the i386 takes the shift count modulo 32 -/
def pmmMarkAddrFree (bm : Bitmap) (addr : ℕ) : Bitmap :=
  let bitmapBit := addr / pageSize
  let bitmapIndex := bitmapBit / 8
  setByte bm bitmapIndex (bm bitmapIndex &&& (~~~(1#32 <<< (bitmapBit % 32))).setWidth 8)

/-- the loop of `pmm_mark_range_used`, with a 32-bit counter -/
def pmmMarkRangeLoop (endAddr : ℕ) : ℕ → ℕ → Bitmap → Except Fault Bitmap
  | 0, _, _ => .error .diverges
  | fuel + 1, i, bm =>
    if i < endAddr then pmmMarkRangeLoop endAddr fuel (u32 (i + pageSize)) (pmmMarkAddrUsed bm i) else .ok bm

/-- `pmm_mark_range_used`. After 2^20 rounds the counter is back at its start. -/
def pmmMarkRangeUsed (bm : Bitmap) (startAddr endAddr : ℕ) : Except Fault Bitmap :=
  pmmMarkRangeLoop endAddr (2 ^ 20 + 1) startAddr bm

/-- the scan of `pmm_alloc_page` for a byte with a clear bit: `n` bytes from byte `i` on -/
def scan (bm : Bitmap) : ℕ → ℕ → Option ℕ
  | 0, _ => none
  | n + 1, i => if bm i ≠ bitmapEntryMask then some i else scan bm n (i + 1)

/-- the inner loop of `pmm_alloc_page`; an 8-bit entry is zero after eight shifts -/
def allocBit : ℕ → BitVec 8 → ℕ
  | 0, _ => 0
  | n + 1, entry => if entry.getLsbD 0 then allocBit n (entry >>> 1) + 1 else 0

/-- `pmm_alloc_page`: the address of the page, as a 32-bit value, and the new bitmap -/
def pmmAllocPage (bm : Bitmap) : Except Fault (ℕ × Bitmap) :=
  match scan bm memBitmapSize 0 with
  | some i =>
    let bit := allocBit 8 (bm i)
    .ok (u32 ((i * 8 + bit) * pageSize), setByte bm i (bm i ||| 1#8 <<< bit))
  | none => .error (.panic .outOfPages)

/-- `pmm_free_page` -/
def pmmFreePage (bm : Bitmap) (addr : ℕ) : Bitmap := pmmMarkAddrFree bm addr

/-! ## The multiboot2 memory map -/

inductive TagType where
  | «end»
  | mmap
  | framebuffer
  | other
deriving DecidableEq, Repr

/-- `tag->type` -/
def tagType (mem : Mem) (tag : ℕ) : TagType :=
  match load32 mem tag with
  | 0 => .end
  | 6 => .mmap
  | 8 => .framebuffer
  | _ => .other

/-- `tag->size` -/
def tagSize (mem : Mem) (tag : ℕ) : ℕ := load32 mem (tag + 4)

/-- the next tag: sizes are rounded up to 8 bytes -/
def nextTag (mem : Mem) (tag : ℕ) : ℕ := u32 (tag + u32 (tagSize mem tag + 7) / 8 * 8)

/-- the first tag from `tag` on that is of type `ty` or ends the list -/
def findTag (mem : Mem) (ty : TagType) : ℕ → ℕ → Except Fault ℕ
  | 0, _ => .error .diverges
  | fuel + 1, tag =>
    if tagType mem tag = .end ∨ tagType mem tag = ty then .ok tag else findTag mem ty fuel (nextTag mem tag)

/-- `multiboot_framebuffer_info`: the framebuffer tag, or NULL -/
def multibootFramebufferInfo (mem : Mem) (multibootInfo : ℕ) : Except Fault ℕ := do
  let tag ← findTag mem .framebuffer (2 ^ 32) (u32 (multibootInfo + 8))
  .ok (if tagType mem tag = .framebuffer then tag else 0)

/-- is the memory-map entry of a type that `pmm_init` marks: `RESERVED`, `ACPI_RECLAIMABLE`, `NVS`, `BADRAM` -/
def unavailable (ty : ℕ) : Bool := ty = 2 || ty = 3 || ty = 4 || ty = 5

/-- the loop over the memory-map entries; `addr` and `len` are 64-bit, and cut to 32 bits in the call -/
def markEntries (mem : Mem) (tag : ℕ) : ℕ → ℕ → Bitmap → Except Fault Bitmap
  | 0, _, _ => .error .diverges
  | fuel + 1, mmap, bm =>
    if mmap < u32 (tag + tagSize mem tag) then do
      let bm ← if unavailable (load32 mem (mmap + 16)) then
          pmmMarkRangeUsed bm (u32 (load64 mem mmap)) (u32 (load64 mem mmap + load64 mem (mmap + 8)))
        else .ok bm
      markEntries mem tag fuel (u32 (mmap + load32 mem (tag + 8))) bm
    else .ok bm

/-- `pmm_init`, on memory `mem` with the multiboot2 information at `addr`, for a bitmap that starts zeroed -/
def pmmInit (mi : KernelMeminfo) (mem : Mem) (addr : ℕ) : Except Fault Bitmap := do
  let bm ← pmmMarkRangeUsed (fun _ => 0#8) mi.physicalStart mi.physicalEnd
  let bm ← pmmMarkRangeUsed bm kernelHeapPhysStart (kernelHeapPhysStart + kernelHeapSize - 1)
  let tag ← findTag mem .mmap (2 ^ 32) (u32 (addr + 8))
  if tagType mem tag = .end then .error (.panic .noMemoryMap)
  else
    let bm ← markEntries mem tag (2 ^ 32) (u32 (tag + 16)) bm
    let info ← multibootFramebufferInfo mem addr
    if info = 0 then .error .nullDereference
    else
      let size := u32 (load32 mem (info + 20) * load32 mem (info + 24) * 2)
      pmmMarkRangeUsed bm (u32 (load64 mem (info + 8))) (u32 (load64 mem (info + 8) + size + (2 ^ 32 - 1)))

/-! ## Single bits -/

/-- the bit of page `q` -/
def used (bm : Bitmap) (q : ℕ) : Bool := (bm (q / 8)).getLsbD (q % 8)

theorem getLsbD_one_shiftLeft {w : ℕ} (hw : 0 < w) (k j : ℕ) (hj : j < w) :
    ((1#w) <<< k).getLsbD j = decide (j = k) := by
  rw [BitVec.getLsbD_shiftLeft, BitVec.getLsbD_one]
  by_cases h : j = k
  · subst h
    simp [hj, hw]
  · by_cases hlt : j < k
    · simp [hlt, h]
    · simp [hj, h, hlt, hw]; omega

/-- setting bit `q` sets that bit and no other -/
theorem used_set (bm : Bitmap) (i k q : ℕ) (hk : k < 8) :
    used (setByte bm i (bm i ||| 1#8 <<< k)) q = (used bm q || decide (q = i * 8 + k)) := by
  unfold used setByte
  by_cases hi : q / 8 = i
  · subst hi
    rw [Function.update_self, BitVec.getLsbD_or, getLsbD_one_shiftLeft (by decide) k _ (by omega)]
    congr 1
    exact decide_eq_decide.2 (by omega)
  · rw [Function.update_of_ne hi]
    have : q ≠ i * 8 + k := by omega
    simp [this]

theorem markAddrUsed_used (bm : Bitmap) (addr q : ℕ) :
    used (pmmMarkAddrUsed bm addr) q = (used bm q || decide (q = addr / pageSize)) := by
  unfold pmmMarkAddrUsed
  simp only
  rw [used_set bm _ _ q (by omega)]
  congr 1
  exact decide_eq_decide.2 (by omega)

/-- **What freeing does.** `pmm_free_page` clears the bit of its page when the page number is below 8 modulo 32, and
otherwise nothing. -/
theorem freePage_used (bm : Bitmap) (addr q : ℕ) :
    used (pmmFreePage bm addr) q = (used bm q && !decide (q = addr / pageSize ∧ addr / pageSize % 32 < 8)) := by
  unfold pmmFreePage pmmMarkAddrFree used setByte
  simp only
  set p := addr / pageSize
  by_cases hi : q / 8 = p / 8
  · rw [hi, Function.update_self, BitVec.getLsbD_and, BitVec.getLsbD_setWidth, BitVec.getLsbD_not,
      getLsbD_one_shiftLeft (by decide) _ _ (by omega)]
    have h8 : q % 8 < 8 := by omega
    have h32 : q % 8 < 32 := by omega
    simp only [h8, h32, decide_true, Bool.true_and]
    congr 2
    exact decide_eq_decide.2 (by omega)
  · rw [Function.update_of_ne hi]
    have : ¬ (q = p ∧ p % 32 < 8) := fun h => hi (by rw [h.1])
    simp [this]

/-! ## Allocation -/

theorem allocBit_below (n : ℕ) (entry : BitVec 8) : ∀ j < allocBit n entry, entry.getLsbD j = true := by
  induction n generalizing entry with
  | zero => simp [allocBit]
  | succ n ih =>
    intro j hj
    unfold allocBit at hj
    split_ifs at hj with h0
    · cases j with
      | zero => exact h0
      | succ j =>
        have := ih (entry >>> 1) j (by omega)
        rw [BitVec.getLsbD_ushiftRight, Nat.add_comm] at this
        exact this
    · omega

theorem allocBit_clear (n : ℕ) (entry : BitVec 8) (h : allocBit n entry < n) :
    entry.getLsbD (allocBit n entry) = false := by
  induction n generalizing entry with
  | zero => omega
  | succ n ih =>
    unfold allocBit at h ⊢
    split_ifs at h ⊢ with h0
    · have := ih (entry >>> 1) (by omega)
      rw [BitVec.getLsbD_ushiftRight, Nat.add_comm] at this
      exact this
    · simpa using h0

/-- a byte that is not full has a clear bit, and the inner loop finds the first -/
theorem allocBit_lt (entry : BitVec 8) (h : entry ≠ bitmapEntryMask) : allocBit 8 entry < 8 := by
  rcases Nat.lt_or_ge (allocBit 8 entry) 8 with hlt | hge
  · exact hlt
  · refine absurd (BitVec.eq_of_getLsbD_eq fun j hj => ?_) h
    rw [allocBit_below 8 entry j (by omega)]
    unfold bitmapEntryMask
    interval_cases j <;> decide

theorem scan_some {bm : Bitmap} {n i r : ℕ} (h : scan bm n i = some r) :
    i ≤ r ∧ r < i + n ∧ bm r ≠ bitmapEntryMask ∧ ∀ j, i ≤ j → j < r → bm j = bitmapEntryMask := by
  induction n generalizing i with
  | zero => simp [scan] at h
  | succ n ih =>
    unfold scan at h
    split_ifs at h with hb
    · simp only [Option.some.injEq] at h
      subst h
      exact ⟨le_rfl, by omega, hb, fun j h1 h2 => by omega⟩
    · obtain ⟨h1, h2, h3, h4⟩ := ih h
      refine ⟨by omega, by omega, h3, fun j hj1 hj2 => ?_⟩
      rcases Nat.eq_or_lt_of_le hj1 with rfl | hlt
      · exact not_not.1 hb
      · exact h4 j hlt hj2

theorem scan_none {bm : Bitmap} {n i : ℕ} (h : scan bm n i = none) :
    ∀ j, i ≤ j → j < i + n → bm j = bitmapEntryMask := by
  induction n generalizing i with
  | zero => intro j h1 h2; omega
  | succ n ih =>
    unfold scan at h
    split_ifs at h with hb
    intro j h1 h2
    rcases Nat.eq_or_lt_of_le h1 with rfl | hlt
    · exact not_not.1 hb
    · exact ih h j hlt (by omega)

theorem used_of_full {bm : Bitmap} {q : ℕ} (h : bm (q / 8) = bitmapEntryMask) : used bm q = true := by
  have h8 : q % 8 < 8 := Nat.mod_lt _ (by decide)
  unfold used
  rw [h, bitmapEntryMask]
  interval_cases q % 8 <;> decide

/-- **Allocation takes the first clear bit of the whole bitmap**, and panics when all `8 * MEM_BITMAP_SIZE` bits are set. -/
theorem allocPage_spec (bm : Bitmap) :
    (∃ q bm', q < 2 ^ 23 ∧ used bm q = false ∧ (∀ p < q, used bm p = true) ∧
      pmmAllocPage bm = .ok (u32 (q * pageSize), bm') ∧ ∀ p, used bm' p = (used bm p || decide (p = q))) ∨
    ((∀ q < 2 ^ 23, used bm q = true) ∧ pmmAllocPage bm = .error (.panic .outOfPages)) := by
  unfold pmmAllocPage
  cases hs : scan bm memBitmapSize 0 with
  | none =>
    refine Or.inr ⟨fun q hq => used_of_full (scan_none hs (q / 8) (Nat.zero_le _) ?_), rfl⟩
    unfold memBitmapSize
    omega
  | some i =>
    obtain ⟨_, hi, hb, hbelow⟩ := scan_some hs
    have hlt := allocBit_lt (bm i) hb
    have hsz : i < 2 ^ 20 := by unfold memBitmapSize at hi; omega
    refine Or.inl ⟨i * 8 + allocBit 8 (bm i), _, by omega, ?_, ?_, rfl, fun p => used_set bm i _ p hlt⟩
    · have h1 : (i * 8 + allocBit 8 (bm i)) / 8 = i := by omega
      have h2 : (i * 8 + allocBit 8 (bm i)) % 8 = allocBit 8 (bm i) := by omega
      unfold used
      rw [h1, h2]
      exact allocBit_clear 8 (bm i) hlt
    · intro p hp
      by_cases hpi : p / 8 = i
      · unfold used
        rw [hpi]
        exact allocBit_below 8 (bm i) _ (by omega)
      · exact used_of_full (hbelow (p / 8) (Nat.zero_le _) (by omega))

/-- a page handed out has a 32-bit, page-aligned address -/
theorem allocPage_aligned {bm bm' : Bitmap} {addr : ℕ} (h : pmmAllocPage bm = .ok (addr, bm')) :
    addr % pageSize = 0 ∧ addr < 2 ^ 32 := by
  rcases allocPage_spec bm with ⟨q, b, _, _, _, hq, _⟩ | ⟨_, hq⟩
  · rw [hq] at h
    cases h
    refine ⟨?_, u32_lt _⟩
    unfold u32
    simp only [pageSize]
    omega
  · rw [hq] at h
    cases h

/-! ## Marking a range -/

/-- the loop from `i` on, when it ends before the counter wraps: `k` more rounds, each marking one page -/
theorem markRangeLoop_ok {endAddr : ℕ} (he : endAddr ≤ 0xFFFFF000) (k fuel i : ℕ) (bm : Bitmap) (hk : k < fuel)
    (hlast : endAddr ≤ i + k * pageSize) (hround : ∀ j < k, i + j * pageSize < endAddr) :
    ∃ bm', pmmMarkRangeLoop endAddr fuel i bm = .ok bm' ∧
      ∀ q, used bm' q = true ↔ used bm q = true ∨ ∃ j < k, q = i / pageSize + j := by
  induction k generalizing fuel i bm with
  | zero =>
    obtain ⟨fuel, rfl⟩ : ∃ f, fuel = f + 1 := ⟨fuel - 1, by omega⟩
    refine ⟨bm, ?_, by simp⟩
    unfold pmmMarkRangeLoop
    rw [if_neg (by simpa using hlast)]
  | succ k ih =>
    obtain ⟨fuel, rfl⟩ : ∃ f, fuel = f + 1 := ⟨fuel - 1, by omega⟩
    have h0 : i < endAddr := by simpa using hround 0 (by omega)
    have hw : u32 (i + pageSize) = i + pageSize := u32_of_lt (by unfold pageSize; omega)
    obtain ⟨bm', hok, hused⟩ := ih fuel (i + pageSize) (pmmMarkAddrUsed bm i) (by omega)
      (by rw [Nat.succ_mul] at hlast; omega)
      (fun j hj => by have := hround (j + 1) (by omega); rw [Nat.succ_mul] at this; omega)
    refine ⟨bm', ?_, fun q => ?_⟩
    · unfold pmmMarkRangeLoop
      rw [if_pos h0, hw]
      exact hok
    · rw [hused, markAddrUsed_used]
      have hdiv : (i + pageSize) / pageSize = i / pageSize + 1 := by unfold pageSize; omega
      rw [hdiv]
      simp only [Bool.or_eq_true, decide_eq_true_eq]
      constructor
      · rintro ((h | h) | ⟨j, hj, rfl⟩)
        · exact Or.inl h
        · exact Or.inr ⟨0, by omega, by omega⟩
        · exact Or.inr ⟨j + 1, by omega, by omega⟩
      · rintro (h | ⟨j, hj, rfl⟩)
        · exact Or.inl (Or.inl h)
        · cases j with
          | zero => exact Or.inl (Or.inr (by omega))
          | succ j => exact Or.inr ⟨j, by omega, by omega⟩

/-- a range that starts at a page and ends below the last page: exactly its pages are marked -/
theorem markRange_ok (bm : Bitmap) (startAddr endAddr : ℕ) (hs : startAddr % pageSize = 0)
    (he : endAddr ≤ 0xFFFFF000) :
    ∃ bm', pmmMarkRangeUsed bm startAddr endAddr = .ok bm' ∧
      ∀ q, used bm' q = true ↔ used bm q = true ∨ (startAddr ≤ q * pageSize ∧ q * pageSize < endAddr) := by
  unfold pageSize at hs
  obtain ⟨bm', hok, hused⟩ := markRangeLoop_ok he ((endAddr - startAddr + 4095) / 4096) (2 ^ 20 + 1) startAddr bm
    (by omega) (by unfold pageSize; omega) (fun j hj => by unfold pageSize; omega)
  refine ⟨bm', hok, fun q => ?_⟩
  rw [hused]
  unfold pageSize
  constructor
  · rintro (h | ⟨j, hj, rfl⟩)
    · exact Or.inl h
    · exact Or.inr ⟨by omega, by omega⟩
  · rintro (h | ⟨h1, h2⟩)
    · exact Or.inl h
    · exact Or.inr ⟨q - startAddr / 4096, by omega, by omega⟩

/-! ## Runs -/

/-- the bitmap, and the pages held by callers -/
structure St where
  bitmap : Bitmap
  held : List ℕ

inductive Op where
  | alloc
  | free (addr : ℕ)
deriving DecidableEq, Repr

def step (s : St) : Op → Except Fault St
  | .alloc => do
    let (addr, bm) ← pmmAllocPage s.bitmap
    .ok ⟨bm, addr :: s.held⟩
  | .free addr => .ok ⟨pmmFreePage s.bitmap addr, s.held.erase addr⟩

/-- pages are freed by their holders, and an allocation finds a clear bit among the 2^20 that stand for pages -/
def InBounds (s : St) : Op → Prop
  | .alloc => ∃ q < 2 ^ 20, used s.bitmap q = false
  | .free addr => addr ∈ s.held

/-- what an allocation in `s` has to do, when `b₀` marks the reserved pages: return a page that is neither held nor
reserved, and panic when there is none -/
structure Sound (b₀ : Bitmap) (s : St) : Prop where
  page : ∀ addr bm, pmmAllocPage s.bitmap = .ok (addr, bm) →
    ∃ q < 2 ^ 20, addr = q * pageSize ∧ addr ∉ s.held ∧ used b₀ q = false
  exhausted : (∀ q < 2 ^ 20, q * pageSize ∈ s.held ∨ used b₀ q = true) →
    pmmAllocPage s.bitmap = .error (.panic .outOfPages)

/-- what is held or reserved is marked; no page is held twice, and no reserved page is held. No bit past the first 2^20 is
marked, and the bit of page 0, which `pmm_free_page` does clear, is marked only if the page is held or reserved. -/
structure Inv (b₀ : Bitmap) (s : St) : Prop where
  page : ∀ a ∈ s.held, ∃ q < 2 ^ 20, a = q * pageSize
  marked : ∀ q < 2 ^ 20, q * pageSize ∈ s.held → used s.bitmap q = true
  reserved : ∀ q < 2 ^ 20, used b₀ q = true → used s.bitmap q = true
  free : ∀ q < 2 ^ 20, q * pageSize ∈ s.held → used b₀ q = false
  nodup : s.held.Nodup
  high : ∀ q, 2 ^ 20 ≤ q → used s.bitmap q = false
  zero : used s.bitmap 0 = true → 0 ∈ s.held ∨ used b₀ 0 = true

/-- an allocation that finds a clear bit among the first 2^20: what it returns -/
theorem alloc_inBounds {s : St} {addr : ℕ} {bm : Bitmap} (hC : InBounds s .alloc)
    (h : pmmAllocPage s.bitmap = .ok (addr, bm)) :
    ∃ q < 2 ^ 20, addr = q * pageSize ∧ used s.bitmap q = false ∧
      ∀ p, used bm p = (used s.bitmap p || decide (p = q)) := by
  rcases allocPage_spec s.bitmap with ⟨q, bm', _, hq, hbelow, hok, hset⟩ | ⟨_, herr⟩
  · rw [hok] at h
    cases h
    have hlt : q < 2 ^ 20 := by
      obtain ⟨p, hp, hclear⟩ := hC
      by_contra hge
      rw [hbelow p (by omega)] at hclear
      exact absurd hclear (by decide)
    exact ⟨q, hlt, u32_of_lt (by unfold pageSize; omega), hq, hset⟩
  · rw [herr] at h
    cases h

/-- an allocation that finds none there returns page 0 -/
theorem alloc_outOfBounds {s : St} (hfull : ¬ InBounds s .alloc) (hhigh : ∀ q, 2 ^ 20 ≤ q → used s.bitmap q = false) :
    ∃ bm, pmmAllocPage s.bitmap = .ok (0, bm) := by
  have hall : ∀ q < 2 ^ 20, used s.bitmap q = true := by
    intro q hq
    by_contra hclear
    exact hfull ⟨q, hq, by simpa using hclear⟩
  rcases allocPage_spec s.bitmap with ⟨q, bm, _, hq, hbelow, hok, _⟩ | ⟨hset, _⟩
  · have hge : 2 ^ 20 ≤ q := by
      by_contra hlt
      rw [hall q (by omega)] at hq
      exact absurd hq (by decide)
    have hle : q ≤ 2 ^ 20 := by
      by_contra hlt
      have := hbelow (2 ^ 20) (by omega)
      rw [hhigh _ le_rfl] at this
      exact absurd this (by decide)
    have he : q = 2 ^ 20 := le_antisymm hle hge
    subst he
    exact ⟨bm, hok⟩
  · have := hset (2 ^ 20) (by decide)
    rw [hhigh _ le_rfl] at this
    exact absurd this (by decide)

theorem inv_init {b₀ : Bitmap} (hhigh : ∀ q, 2 ^ 20 ≤ q → used b₀ q = false) : Inv b₀ ⟨b₀, []⟩ where
  page := by simp
  marked := by simp
  reserved := fun _ _ h => h
  free := by simp
  nodup := List.nodup_nil
  high := hhigh
  zero := Or.inr

theorem inv_alloc {b₀ bm : Bitmap} {s : St} {addr : ℕ} (h : Inv b₀ s) (hC : InBounds s .alloc)
    (ha : pmmAllocPage s.bitmap = .ok (addr, bm)) : Inv b₀ ⟨bm, addr :: s.held⟩ := by
  obtain ⟨q, hq, rfl, hclear, hset⟩ := alloc_inBounds hC ha
  have hinj : ∀ p, p * pageSize = q * pageSize → p = q := fun p hp => by unfold pageSize at hp; omega
  refine ⟨?_, ?_, ?_, ?_, ?_, ?_, ?_⟩
  · intro a ha
    rcases List.mem_cons.1 ha with rfl | ha
    · exact ⟨q, hq, rfl⟩
    · exact h.page a ha
  · intro p hp hm
    simp only [hset, Bool.or_eq_true, decide_eq_true_eq]
    rcases List.mem_cons.1 hm with he | hm
    · exact Or.inr (hinj p he)
    · exact Or.inl (h.marked p hp hm)
  · intro p hp hres
    simp only [hset, h.reserved p hp hres, Bool.true_or]
  · intro p hp hm
    rcases List.mem_cons.1 hm with he | hm
    · rw [hinj p he]
      by_contra hres
      rw [h.reserved q hq (by simpa using hres)] at hclear
      exact absurd hclear (by decide)
    · exact h.free p hp hm
  · refine List.nodup_cons.2 ⟨fun hm => ?_, h.nodup⟩
    rw [h.marked q hq hm] at hclear
    exact absurd hclear (by decide)
  · intro p hp
    have hpq : p ≠ q := by omega
    simp only [hset, h.high p hp, hpq, decide_false, Bool.or_self]
  · intro h0
    simp only [hset, Bool.or_eq_true, decide_eq_true_eq] at h0
    rcases h0 with h0 | rfl
    · exact (h.zero h0).imp_left (List.mem_cons_of_mem _)
    · exact Or.inl (by simp)

theorem inv_free {b₀ : Bitmap} {s : St} {addr : ℕ} (h : Inv b₀ s) (hmem : addr ∈ s.held) :
    Inv b₀ ⟨pmmFreePage s.bitmap addr, s.held.erase addr⟩ := by
  obtain ⟨q, hq, rfl⟩ := h.page addr hmem
  have hdiv : q * pageSize / pageSize = q := Nat.mul_div_cancel q (by decide)
  have hother : ∀ p, p ≠ q → used (pmmFreePage s.bitmap (q * pageSize)) p = used s.bitmap p := fun p hp => by
    rw [freePage_used, hdiv]
    simp [hp]
  refine ⟨?_, ?_, ?_, ?_, h.nodup.erase _, ?_, ?_⟩
  · intro a ha
    exact h.page a (List.mem_of_mem_erase ha)
  · intro p hp hm
    have hpq : p ≠ q := fun e => by
      subst e
      exact h.nodup.not_mem_erase hm
    simp only [hother p hpq]
    exact h.marked p hp (List.mem_of_mem_erase hm)
  · intro p hp hres
    have hpq : p ≠ q := fun e => by
      subst e
      rw [h.free p hp hmem] at hres
      exact absurd hres (by decide)
    simp only [hother p hpq]
    exact h.reserved p hp hres
  · intro p hp hm
    exact h.free p hp (List.mem_of_mem_erase hm)
  · intro p hp
    simp only [hother p (by omega)]
    exact h.high p hp
  · intro h0
    by_cases hq0 : q = 0
    · -- freeing page 0 clears its bit
      subst hq0
      rw [freePage_used] at h0
      simp at h0
    · simp only [hother 0 (Ne.symm hq0)] at h0
      refine (h.zero h0).imp_left fun hm => ?_
      exact (List.mem_erase_of_ne (by unfold pageSize; omega)).2 hm

theorem step_inv {b₀ : Bitmap} {s t : St} {o : Op} (h : Inv b₀ s) (hC : InBounds s o) (hok : step s o = .ok t) :
    Inv b₀ t := by
  cases o with
  | alloc =>
    obtain ⟨⟨addr, bm⟩, ha, he⟩ := bind_ok.1 hok
    cases he
    exact inv_alloc h hC ha
  | free addr =>
    cases hok
    exact inv_free h hC

/-! ## What `pmm_init` leaves clear -/

theorem markRangeLoop_high {endAddr : ℕ} (fuel i : ℕ) (bm bm' : Bitmap) (hi : i < 2 ^ 32)
    (h : ∀ q, 2 ^ 20 ≤ q → used bm q = false) (hok : pmmMarkRangeLoop endAddr fuel i bm = .ok bm') :
    ∀ q, 2 ^ 20 ≤ q → used bm' q = false := by
  induction fuel generalizing i bm with
  | zero => cases hok
  | succ fuel ih =>
    unfold pmmMarkRangeLoop at hok
    split_ifs at hok with hlt
    · refine ih _ _ (u32_lt _) (fun q hq => ?_) hok
      have hne : q ≠ i / pageSize := by unfold pageSize; omega
      rw [markAddrUsed_used, h q hq]
      simp [hne]
    · cases hok
      exact h

theorem markEntries_high {mem : Mem} {tag : ℕ} (fuel mmap : ℕ) (bm bm' : Bitmap)
    (h : ∀ q, 2 ^ 20 ≤ q → used bm q = false) (hok : markEntries mem tag fuel mmap bm = .ok bm') :
    ∀ q, 2 ^ 20 ≤ q → used bm' q = false := by
  induction fuel generalizing mmap bm with
  | zero => cases hok
  | succ fuel ih =>
    unfold markEntries at hok
    split_ifs at hok with hlt hun
    · obtain ⟨bm₁, h₁, hok⟩ := bind_ok.1 hok
      exact ih _ _ (markRangeLoop_high _ _ _ _ (u32_lt _) h h₁) hok
    · obtain ⟨bm₁, h₁, hok⟩ := bind_ok.1 hok
      cases h₁
      exact ih _ _ h hok
    · cases hok
      exact h

/-- `pmm_init` marks no bit past the 2^20 that stand for pages -/
theorem pmmInit_high {mi : KernelMeminfo} {mem : Mem} {info : ℕ} {b₀ : Bitmap} (h₀ : pmmInit mi mem info = .ok b₀) :
    ∀ q, 2 ^ 20 ≤ q → used b₀ q = false := by
  unfold pmmInit at h₀
  obtain ⟨bm₁, h₁, h₀⟩ := bind_ok.1 h₀
  obtain ⟨bm₂, h₂, h₀⟩ := bind_ok.1 h₀
  obtain ⟨tag, _, h₀⟩ := bind_ok.1 h₀
  split_ifs at h₀
  obtain ⟨bm₃, h₃, h₀⟩ := bind_ok.1 h₀
  obtain ⟨fb, _, h₀⟩ := bind_ok.1 h₀
  split_ifs at h₀
  have high₁ := markRangeLoop_high _ _ _ _ mi.physicalStart_lt (fun q _ => by simp [used]) h₁
  have high₂ := markRangeLoop_high _ _ _ _ (by decide) high₁ h₂
  have high₃ := markEntries_high _ _ _ _ high₂ h₃
  exact markRangeLoop_high _ _ _ _ (u32_lt _) high₃ h₀

/-- **No page is handed out twice, exactly as long as the scan stays in bounds.** In every run after `pmm_init` whose
allocations find a clear bit among the first 2^20, the next allocation is sound if and only if it finds one there too. When
it does not, it returns page 0, which is held or reserved. -/
theorem never_twice {mi : KernelMeminfo} {mem : Mem} {info : ℕ} {b₀ : Bitmap} {ops : List Op} {s : St}
    (h₀ : pmmInit mi mem info = .ok b₀) (hr : Runs step InBounds ⟨b₀, []⟩ ops s) :
    Sound b₀ s ↔ InBounds s .alloc := by
  have hinv : Inv b₀ s := hr.inv (fun _ _ _ => step_inv) (inv_init (pmmInit_high h₀))
  have hne : ∀ q < 2 ^ 20, used s.bitmap q = false → q * pageSize ∉ s.held ∧ used b₀ q = false := by
    intro q hq hclear
    refine ⟨fun hm => ?_, ?_⟩
    · rw [hinv.marked q hq hm] at hclear
      exact absurd hclear (by decide)
    · by_contra hres
      rw [hinv.reserved q hq (by simpa using hres)] at hclear
      exact absurd hclear (by decide)
  constructor
  · intro hs
    by_contra hfull
    obtain ⟨bm, hok⟩ := alloc_outOfBounds hfull hinv.high
    obtain ⟨q, _, h0, hheld, hres⟩ := hs.page 0 bm hok
    have hq0 : q = 0 := by unfold pageSize at h0; omega
    subst hq0
    have hmark : used s.bitmap 0 = true := by
      by_contra hclear
      exact hfull ⟨0, by decide, by simpa using hclear⟩
    rcases hinv.zero hmark with hm | hr0
    · exact hheld hm
    · rw [hr0] at hres
      exact absurd hres (by decide)
  · intro hC
    constructor
    · intro addr bm ha
      obtain ⟨q, hq, rfl, hclear, _⟩ := alloc_inBounds hC ha
      exact ⟨q, hq, rfl, hne q hq hclear⟩
    · intro hall
      obtain ⟨q, hq, hclear⟩ := hC
      obtain ⟨hheld, hres⟩ := hne q hq hclear
      rcases hall q hq with hm | hr0
      · exact absurd hm hheld
      · rw [hr0] at hres
        exact absurd hres (by decide)

/-! ## A machine with one free page -/

/-- a memory map whose one entry reserves all pages but the last, and a text-mode framebuffer -/
def oneFree : Mem :=
  ofWords [88, 0,
    6, 40, 24, 0, 0, 0, 0xFFFFF000, 0, 2, 0,
    8, 32, 0xB8000, 0, 160, 80, 25, 0,
    0, 8]

theorem findTag_mmap_oneFree (n : ℕ) : findTag oneFree .mmap (n + 1) 8 = .ok 8 := by
  rw [findTag, if_pos (by decide)]

theorem findTag_framebuffer_oneFree (n : ℕ) : findTag oneFree .framebuffer (n + 2) 8 = .ok 48 := by
  have hn : nextTag oneFree 8 = 48 := by decide
  rw [findTag, if_neg (by decide), hn, findTag, if_pos (by decide)]

theorem markEntries_oneFree (n : ℕ) (bm : Bitmap) :
    markEntries oneFree 8 (n + 2) 24 bm = pmmMarkRangeUsed bm 0 0xFFFFF000 := by
  have ha : load64 oneFree 24 = 0 := by decide
  have hl : load64 oneFree (24 + 8) = 0xFFFFF000 := by decide
  have hnext : u32 (24 + load32 oneFree (8 + 8)) = 48 := by decide
  rw [markEntries, if_pos (by decide), if_pos (by decide), ha, hl, hnext]
  cases h : pmmMarkRangeUsed bm (u32 0) (u32 (0 + 0xFFFFF000)) with
  | error e => exact h.symm
  | ok bm' =>
    simp only [bind, Except.bind]
    rw [markEntries, if_neg (by decide)]
    exact h.symm

/-- `pmm_init` on it: the pages below the last are reserved -/
theorem pmmInit_oneFree :
    ∃ b₀, pmmInit .atOneMegabyte oneFree 0 = .ok b₀ ∧ ∀ q, used b₀ q = true ↔ q < 2 ^ 20 - 1 := by
  obtain ⟨b₁, h₁, u₁⟩ := markRange_ok (fun _ => 0#8) 0x100000 0x200000 (by decide) (by decide)
  obtain ⟨b₂, h₂, u₂⟩ := markRange_ok b₁ kernelHeapPhysStart (kernelHeapPhysStart + kernelHeapSize - 1) (by decide)
    (by decide)
  obtain ⟨b₃, h₃, u₃⟩ := markRange_ok b₂ 0 0xFFFFF000 (by decide) (by decide)
  obtain ⟨b₄, h₄, u₄⟩ := markRange_ok b₃ 0xB8000 0xB8F9F (by decide) (by decide)
  have htwo : (2 : ℕ) ^ 32 = 4294967294 + 2 := by norm_num
  have h8 : u32 (0 + 8) = 8 := by decide
  have h24 : u32 (8 + 16) = 24 := by decide
  have htag : findTag oneFree .mmap (2 ^ 32) (u32 (0 + 8)) = .ok 8 := by
    rw [htwo, h8]
    exact findTag_mmap_oneFree _
  have hent : markEntries oneFree 8 (2 ^ 32) (u32 (8 + 16)) b₂ = .ok b₃ := by
    rw [htwo, h24, markEntries_oneFree, h₃]
  have hfb : multibootFramebufferInfo oneFree 0 = .ok 48 := by
    have htype : tagType oneFree 48 = .framebuffer := by decide
    unfold multibootFramebufferInfo
    rw [htwo, h8, findTag_framebuffer_oneFree]
    simp only [bind, Except.bind, htype, if_true]
  have hmap : ¬ tagType oneFree 8 = .end := by decide
  have hsize : u32 (load32 oneFree (48 + 20) * load32 oneFree (48 + 24) * 2) = 4000 := by decide
  have haddr : load64 oneFree (48 + 8) = 0xB8000 := by decide
  have hstart : u32 0xB8000 = 0xB8000 := by decide
  have hend : u32 (0xB8000 + 4000 + (2 ^ 32 - 1)) = 0xB8F9F := by decide
  refine ⟨b₄, ?_, fun q => ?_⟩
  · unfold pmmInit
    refine bind_ok.2 ⟨b₁, h₁, bind_ok.2 ⟨b₂, h₂, bind_ok.2 ⟨8, htag, ?_⟩⟩⟩
    rw [if_neg hmap]
    refine bind_ok.2 ⟨b₃, hent, bind_ok.2 ⟨48, hfb, ?_⟩⟩
    rw [if_neg (by decide), hsize, haddr, hstart]
    simp only
    rw [hend]
    exact h₄
  · rw [u₄, u₃, u₂, u₁]
    unfold pageSize
    simp [used, kernelHeapPhysStart, kernelHeapSize]
    omega

/-- the first allocation returns the last page, and then all pages are marked -/
theorem alloc_oneFree {b₀ : Bitmap} (hres : ∀ q, used b₀ q = true ↔ q < 2 ^ 20 - 1) :
    ∃ b₁, pmmAllocPage b₀ = .ok (0xFFFFF000, b₁) ∧ ∀ q, used b₁ q = true ↔ q < 2 ^ 20 := by
  have hlast : used b₀ (2 ^ 20 - 1) = false := by
    by_contra h
    have := (hres (2 ^ 20 - 1)).1 (by simpa using h)
    omega
  rcases allocPage_spec b₀ with ⟨q, bm, _, hq, hbelow, hok, hset⟩ | ⟨hall, _⟩
  · have hge : ¬ q < 2 ^ 20 - 1 := fun h => by
      rw [(hres q).2 h] at hq
      exact absurd hq (by decide)
    have hle : ¬ 2 ^ 20 - 1 < q := fun h => by
      rw [hbelow _ h] at hlast
      exact absurd hlast (by decide)
    have he : q = 2 ^ 20 - 1 := by omega
    subst he
    refine ⟨bm, hok, fun p => ?_⟩
    rw [hset, Bool.or_eq_true, decide_eq_true_eq, hres]
    omega
  · rw [hall _ (by decide)] at hlast
    exact absurd hlast (by decide)

/-- on it the first allocation is in bounds and sound, and the second is neither -/
theorem never_twice_oneFree :
    ∃ b₀ s, pmmInit .atOneMegabyte oneFree 0 = .ok b₀ ∧ Runs step InBounds ⟨b₀, []⟩ [.alloc] s ∧
      Sound b₀ ⟨b₀, []⟩ ∧ ¬ Sound b₀ s := by
  obtain ⟨b₀, h₀, hres⟩ := pmmInit_oneFree
  obtain ⟨b₁, ha, hfull⟩ := alloc_oneFree hres
  have hC : InBounds ⟨b₀, []⟩ .alloc := by
    refine ⟨2 ^ 20 - 1, by decide, ?_⟩
    by_contra h
    have := (hres (2 ^ 20 - 1)).1 (by simpa using h)
    omega
  have hr : Runs step InBounds ⟨b₀, []⟩ [.alloc] ⟨b₁, [0xFFFFF000]⟩ :=
    .cons hC (bind_ok.2 ⟨_, ha, rfl⟩) (.nil _)
  refine ⟨b₀, _, h₀, hr, (never_twice h₀ (.nil _)).2 hC, fun hs => ?_⟩
  obtain ⟨p, hp, hclear⟩ := (never_twice h₀ hr).1 hs
  simp only [(hfull p).2 hp] at hclear
  exact absurd hclear (by decide)

/-- **Page 0 is handed out though it is reserved.** On a machine with one free page the first allocation returns it, and the
second returns page 0, which the memory map reserves, instead of panicking. -/
theorem page_zero_twice :
    ∃ b₀ b₁ b₂, pmmInit .atOneMegabyte oneFree 0 = .ok b₀ ∧ pmmAllocPage b₀ = .ok (0xFFFFF000, b₁) ∧
      (∀ q < 2 ^ 20, used b₀ q = true ∨ q * pageSize = 0xFFFFF000) ∧
      pmmAllocPage b₁ = .ok (0, b₂) ∧ used b₀ 0 = true := by
  obtain ⟨b₀, h₀, hres⟩ := pmmInit_oneFree
  obtain ⟨b₁, ha, hfull⟩ := alloc_oneFree hres
  have hhigh : ∀ q, 2 ^ 20 ≤ q → used b₁ q = false := by
    intro q hq
    by_contra h
    have := (hfull q).1 (by simpa using h)
    omega
  obtain ⟨b₂, hb⟩ : ∃ bm, pmmAllocPage b₁ = .ok (0, bm) := by
    refine alloc_outOfBounds (s := ⟨b₁, []⟩) ?_ hhigh
    rintro ⟨p, hp, hclear⟩
    simp only [(hfull p).2 hp] at hclear
    exact absurd hclear (by decide)
  refine ⟨b₀, b₁, b₂, h₀, ha, fun q hq => ?_, hb, (hres 0).2 (by decide)⟩
  rw [hres]
  unfold pageSize
  omega

/-- a bitmap in which page 8 is the first free one -/
def someUsed : Bitmap := fun i => if i = 0 then bitmapEntryMask else 0#8

end Gubos.Pmm
