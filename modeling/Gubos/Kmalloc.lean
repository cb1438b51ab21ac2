/-
The kernel heap (`kmalloc.c`).

A region is a header of 8 bytes, the size at offset 0 and the next free region at offset 4, and `size` bytes after it. The
headers are in the heap itself: `kmalloc` and `kfree` read and write them as 32-bit words of memory, and a client writes the
bytes of its own blocks. `KMALLOC_HEAD` is outside the heap.

The state of a run also has the live blocks (header, size asked for), as the clients know them. The invariant `HeapInv` is:
the free regions are a NULL-terminated list through the headers, the header of a live block has its size, and free and live
regions with their headers cover every byte of the heap once and no other byte.

- `kmallocLoop_spec`: the search stops at the first region that fits, and ends;
- `heapInv_exact`, `heapInv_split`, `heapInv_kfree`, `heapInv_write`: what each change of the heap preserves;
- `heap_tiled`: in every run of clients that free what they own and write inside their blocks, live blocks and free regions
  tile the heap, and `kmalloc` returns, NULL only with the heap unchanged.
-/
import Gubos.Core.Run
import Gubos.Core.Heap
import Gubos.Core.Bytes
import Gubos.Core.Tiling
import Gubos.Layout
import Gubos.Panic

namespace Gubos.Kmalloc

open Gubos.Core

/-! ## The code -/

/-- `sizeof(kmalloc_header_t)` -/
def headerSize : ℕ := 8

/-- `region->size`, `region->next` -/
def size (mem : Mem) (region : ℕ) : ℕ := load32 mem region
def next (mem : Mem) (region : ℕ) : ℕ := load32 mem (region + 4)

def setSize (mem : Mem) (region v : ℕ) : Mem := store32 mem region v
def setNext (mem : Mem) (region v : ℕ) : Mem := store32 mem (region + 4) v

/-- memory and `KMALLOC_HEAD` -/
structure Heap where
  mem : Mem
  kmallocHead : ℕ

/-- `kmalloc_init` -/
def kmallocInit (mem : Mem) : Heap :=
  ⟨setNext (setSize mem kernelHeapVirtStart (kernelHeapSize - headerSize)) kernelHeapVirtStart 0, kernelHeapVirtStart⟩

/-- the pointer to a region is set in the region before it, or in `KMALLOC_HEAD` if there is none -/
def setLink (h : Heap) (prevRegion region : ℕ) : Heap :=
  if prevRegion = 0 then { h with kmallocHead := region } else { h with mem := setNext h.mem prevRegion region }

/-- the payload of a region -/
def payload (region : ℕ) : ℕ := u32 (region + headerSize)

/-- "Return the entire block." -/
def takeExact (h : Heap) (freeRegion prevRegion : ℕ) : Heap × ℕ :=
  (setLink h prevRegion (next h.mem freeRegion), payload freeRegion)

/-- "Split the block" -/
def takeSplit (h : Heap) (freeRegion prevRegion n : ℕ) : Heap × ℕ :=
  let remaining := u32 (size h.mem freeRegion + 2 ^ 32 - n)
  let newRegion := u32 (freeRegion + headerSize + n)
  let mem := setNext (setSize h.mem newRegion (u32 (remaining + 2 ^ 32 - headerSize))) newRegion (next h.mem freeRegion)
  let h := setLink ⟨mem, h.kmallocHead⟩ prevRegion newRegion
  ({ h with mem := setSize h.mem freeRegion n }, payload freeRegion)

/-- the loop of `kmalloc` -/
def kmallocLoop (h : Heap) (n : ℕ) : ℕ → ℕ → ℕ → Except Fault (Heap × ℕ)
  | 0, _, _ => .error .diverges
  | fuel + 1, freeRegion, prevRegion =>
    if freeRegion = 0 then .ok (h, 0)
    else if size h.mem freeRegion = n then .ok (takeExact h freeRegion prevRegion)
    else if u32 (n + headerSize) < size h.mem freeRegion then .ok (takeSplit h freeRegion prevRegion n)
    else kmallocLoop h n fuel (next h.mem freeRegion) freeRegion

/-- `kmalloc`: the heap and the pointer, NULL if there is no region. The loop does not write, so it is in a circle when it
has seen 2^32 regions. -/
def kmalloc (h : Heap) (n : ℕ) : Except Fault (Heap × ℕ) := kmallocLoop h n (2 ^ 32 + 1) h.kmallocHead 0

/-- `kfree` -/
def kfree (h : Heap) (addr : ℕ) : Heap :=
  let region := u32 (addr + 2 ^ 32 - headerSize)
  ⟨setNext h.mem region h.kmallocHead, region⟩

/-! ## Runs -/

/-- the heap, and the live blocks: header and size asked for, latest first -/
structure St where
  heap : Heap
  live : List (ℕ × ℕ)

inductive Op where
  | alloc (n : ℕ)
  | free (addr : ℕ)
  | write (addr : ℕ) (v : UInt8)

def step (s : St) : Op → Except Fault St
  | .alloc n => do
    let (h, p) ← kmalloc s.heap n
    .ok ⟨h, if p = 0 then s.live else (p - headerSize, n) :: s.live⟩
  | .free addr => .ok ⟨kfree s.heap addr, s.live.eraseP fun c => c.1 + headerSize = addr⟩
  | .write addr v => .ok ⟨{ s.heap with mem := store8 s.heap.mem addr v }, s.live⟩

/-- clients ask for no more than the heap has, free what they own, and write inside their blocks -/
def Client (s : St) : Op → Prop
  | .alloc n => n ≤ kernelHeapSize
  | .free addr => ∃ c ∈ s.live, c.1 + headerSize = addr
  | .write addr _ => ∃ c ∈ s.live, c.1 + headerSize ≤ addr ∧ addr < c.1 + headerSize + c.2

/-! ## The invariant -/

/-- the header of a region -/
def header (mem : Mem) (region : ℕ) : ℕ × ℕ := (size mem region, next mem region)

/-- the bytes of a region (header address, size) -/
def block (c : ℕ × ℕ) : ℕ × ℕ := (c.1, c.2 + headerSize)

/-- the free regions are a list from `KMALLOC_HEAD` on, live headers hold their sizes, and the bytes of the heap are
covered once -/
structure HeapInv (h : Heap) (free live : List (ℕ × ℕ)) : Prop where
  links : Seg (header h.mem) h.kmallocHead free 0
  sizes : ∀ c ∈ live, size h.mem c.1 = c.2
  tiles : ∀ x, Tiling.cover ((free ++ live).map block) x =
    if kernelHeapVirtStart ≤ x ∧ x < kernelHeapVirtStart + kernelHeapSize then 1 else 0

section HeapInv

variable {h : Heap} {free live pre post : List (ℕ × ℕ)} {c d : ℕ × ℕ} {n : ℕ}

theorem HeapInv.tiled (hi : HeapInv h free live) :
    Tiling.Tiles ((free ++ live).map block) kernelHeapVirtStart kernelHeapSize := by
  refine Tiling.tiles_of_cover (fun b hb => ?_) hi.tiles
  obtain ⟨c, _, rfl⟩ := List.mem_map.1 hb
  exact Nat.lt_add_left _ (by decide)

/-- a region is inside the heap -/
theorem HeapInv.bounds (hi : HeapInv h free live) (hc : c ∈ free ++ live) :
    0xE0000000 ≤ c.1 ∧ c.1 + 8 + c.2 ≤ 0xE3000000 := by
  have h' := hi.tiled.inside _ (List.mem_map_of_mem hc)
  simp only [block, kernelHeapVirtStart, kernelHeapSize, headerSize] at h'
  omega

/-- two regions do not overlap -/
theorem HeapInv.apart (hi : HeapInv h free live) (hc : c ∈ free ++ live) (hd : d ∈ free ++ live) (hne : c ≠ d) :
    c.1 + 8 + c.2 ≤ d.1 ∨ d.1 + 8 + d.2 ≤ c.1 := by
  have h1 : ∀ x, Tiling.cover ((free ++ live).map block) x ≤ 1 := fun x => by
    rw [hi.tiles]
    split_ifs <;> omega
  have hb : block c ≠ block d := fun he => by
    simp only [block, Prod.mk.injEq, Nat.add_right_cancel_iff] at he
    exact hne (Prod.ext he.1 he.2)
  have h' := Tiling.apart_of_mem h1 (List.mem_map_of_mem hc) (List.mem_map_of_mem hd) hb
    (Nat.lt_add_left _ (by decide)) (Nat.lt_add_left _ (by decide))
  simp only [Tiling.Apart, block, headerSize] at h'
  omega

/-- no region is listed twice, so the free list is not circular and has no live block -/
theorem HeapInv.nodup (hi : HeapInv h free live) : (ptrs (free ++ live)).Nodup := by
  have h' := (List.pairwise_map.1 hi.tiled.apart)
  refine List.pairwise_map.2 (h'.imp fun {a b} hab => ?_)
  simp only [Tiling.Apart, block, headerSize] at hab
  omega

/-- there are fewer regions than addresses -/
theorem HeapInv.length_lt (hi : HeapInv h free live) : free.length < 2 ^ 32 + 1 := by
  have hnd : (ptrs free).Nodup := by
    have := hi.nodup
    rw [ptrs_append] at this
    exact (List.nodup_append.1 this).1
  have hsub : (ptrs free).toFinset ⊆ Finset.range (2 ^ 32) := by
    intro a ha
    obtain ⟨c, hc, rfl⟩ := List.mem_map.1 (List.mem_toFinset.1 ha)
    have := hi.bounds (List.mem_append_left live hc)
    exact Finset.mem_range.2 (by omega)
  have hcard := Finset.card_le_card hsub
  rw [List.toFinset_card_of_nodup hnd, Finset.card_range, ptrs, List.length_map] at hcard
  omega

end HeapInv

/-! ## Headers in memory -/

section Headers

variable {mem : Mem} {r a v : ℕ}

theorem header_congr {mem' : Mem} (h : ∀ x, a ≤ x → x < a + 8 → mem' x = mem x) : header mem' a = header mem a := by
  unfold header size next
  rw [load32_congr fun x h1 h2 => h x h1 (by omega), load32_congr fun x h1 h2 => h x (by omega) (by omega)]

theorem next_lt (mem : Mem) (a : ℕ) : next mem a < 2 ^ 32 := load32_lt _ _

theorem header_setSize (hv : v < 2 ^ 32) : header (setSize mem r v) r = (v, next mem r) := by
  unfold header size next setSize
  rw [load32_store32 _ _ hv, load32_store32_ne _ _ (Or.inl le_rfl)]

theorem header_setNext (hv : v < 2 ^ 32) : header (setNext mem r v) r = (size mem r, v) := by
  unfold header size next setNext
  rw [load32_store32 _ _ hv, load32_store32_ne _ _ (Or.inr le_rfl)]

theorem header_setSize_ne (h : a + 8 ≤ r ∨ r + 8 ≤ a) : header (setSize mem r v) a = header mem a :=
  header_congr fun x h1 h2 => store32_of_outside _ _ (by omega)

theorem header_setNext_ne (h : a + 8 ≤ r ∨ r + 8 ≤ a) : header (setNext mem r v) a = header mem a :=
  header_congr fun x h1 h2 => store32_of_outside _ _ (by omega)

variable {h : Heap} {pre post : List (ℕ × ℕ)} {q m : ℕ}

/-- setting the link after `pre` changes no other header -/
theorem header_setLink (ha : ∀ d ∈ pre, a + 8 ≤ d.1 ∨ d.1 + 8 ≤ a) :
    header (setLink h (lastPtr 0 pre) q).mem a = header h.mem a := by
  unfold setLink
  split_ifs with hp
  · rfl
  · rcases List.eq_nil_or_concat' pre with rfl | ⟨pre, d, rfl⟩
    · exact absurd rfl hp
    · rw [lastPtr_snoc]
      exact header_setNext_ne (ha d (by simp))

theorem size_setLink (ha : ∀ d ∈ pre, a = d.1 ∨ a + 8 ≤ d.1 ∨ d.1 + 8 ≤ a) (hq : q < 2 ^ 32) :
    size (setLink h (lastPtr 0 pre) q).mem a = size h.mem a := by
  unfold setLink
  split_ifs with hp
  · rfl
  · rcases List.eq_nil_or_concat' pre with rfl | ⟨pre, d, rfl⟩
    · exact absurd rfl hp
    · rw [lastPtr_snoc]
      rcases ha d (by simp) with rfl | hd
      · exact congrArg Prod.fst (header_setNext hq)
      · exact congrArg Prod.fst (header_setNext_ne hd)

/-- setting the link after `pre`: the list goes on with what the new link points to -/
theorem seg_setLink (hpre : Seg (header h.mem) h.kmallocHead pre m)
    (hap : pre.Pairwise fun c d => c.1 + 8 ≤ d.1 ∨ d.1 + 8 ≤ c.1) (hq : q < 2 ^ 32)
    (hpost : Seg (header (setLink h (lastPtr 0 pre) q).mem) q post 0) :
    Seg (header (setLink h (lastPtr 0 pre) q).mem) (setLink h (lastPtr 0 pre) q).kmallocHead (pre ++ post) 0 := by
  rcases List.eq_nil_or_concat' pre with rfl | ⟨pre, d, rfl⟩
  · exact hpost
  · have hd : d.1 ≠ 0 := fun h0 => hpre.ne_zero (by simp [h0])
    have hset : setLink h (lastPtr 0 (pre ++ [d])) q = ⟨setNext h.mem d.1 q, h.kmallocHead⟩ := by
      rw [lastPtr_snoc]
      unfold setLink
      rw [if_neg hd]
    rw [hset] at hpost ⊢
    refine seg_append.2 ⟨q, hpre.relink (fun a ha => ?_) ?_, hpost⟩
    · obtain ⟨c, hc, rfl⟩ := List.mem_map.1 ha
      exact header_setNext_ne ((List.pairwise_append.1 hap).2.2 c hc d (by simp))
    · rw [header_setNext hq]
      exact congrArg (fun x => (x, q)) (hpre.contents d (by simp))

end Headers

/-! ## The search -/

/-- the test of the loop: the size asked for, or room for another header -/
def Fits (n sz : ℕ) : Prop := sz = n ∨ u32 (n + headerSize) < sz

/-- a region that fits is returned whole or split -/
def take (h : Heap) (n : ℕ) (c : ℕ × ℕ) (prevRegion : ℕ) : Heap × ℕ :=
  if c.2 = n then takeExact h c.1 prevRegion else takeSplit h c.1 prevRegion n

/-- **The search ends**, at the first region that fits or at the end of the list. -/
theorem kmallocLoop_spec {h : Heap} {n fuel : ℕ} {rest : List (ℕ × ℕ)} {freeRegion prevRegion : ℕ}
    (hseg : Seg (header h.mem) freeRegion rest 0) (hfuel : rest.length < fuel) :
    ((∀ c ∈ rest, ¬ Fits n c.2) ∧ kmallocLoop h n fuel freeRegion prevRegion = .ok (h, 0)) ∨
    ∃ pre c post, rest = pre ++ c :: post ∧ (∀ d ∈ pre, ¬ Fits n d.2) ∧ Fits n c.2 ∧
      kmallocLoop h n fuel freeRegion prevRegion = .ok (take h n c (lastPtr prevRegion pre)) := by
  induction rest generalizing fuel freeRegion prevRegion with
  | nil =>
    obtain ⟨fuel, rfl⟩ : ∃ f, fuel = f + 1 := ⟨fuel - 1, by omega⟩
    refine Or.inl ⟨by simp, ?_⟩
    rw [seg_nil] at hseg
    rw [kmallocLoop, if_pos hseg]
  | cons c rest ih =>
    obtain ⟨fuel, rfl⟩ : ∃ f, fuel = f + 1 := ⟨fuel - 1, by omega⟩
    obtain ⟨rfl, hne, hsize, hseg⟩ := hseg
    have hsize : size h.mem c.1 = c.2 := hsize
    rw [kmallocLoop, if_neg hne, hsize]
    by_cases hexact : c.2 = n
    · refine Or.inr ⟨[], c, rest, rfl, by simp, Or.inl hexact, ?_⟩
      rw [if_pos hexact, take, if_pos hexact, lastPtr_nil]
    · rw [if_neg hexact]
      by_cases hsplit : u32 (n + headerSize) < c.2
      · refine Or.inr ⟨[], c, rest, rfl, by simp, Or.inr hsplit, ?_⟩
        rw [if_pos hsplit, take, if_neg hexact, lastPtr_nil]
      · have hnot : ¬ Fits n c.2 := fun hf => hf.elim hexact hsplit
        rw [if_neg hsplit]
        rcases ih hseg (by simpa using hfuel) with ⟨hall, hok⟩ | ⟨pre, d, post, rfl, hpre, hd, hok⟩
        · refine Or.inl ⟨fun e he => ?_, hok⟩
          rcases List.mem_cons.1 he with rfl | he
          · exact hnot
          · exact hall e he
        · refine Or.inr ⟨c :: pre, d, post, rfl, fun e he => ?_, hd, ?_⟩
          · rcases List.mem_cons.1 he with rfl | he
            · exact hnot
            · exact hpre e he
          · rw [lastPtr_cons]
            exact hok

/-! ## What each change preserves -/

section Changes

variable {h : Heap} {free live pre post : List (ℕ × ℕ)} {c : ℕ × ℕ} {n : ℕ}

/-- headers of distinct regions do not overlap -/
theorem HeapInv.headers_apart (hi : HeapInv h free live) :
    (free ++ live).Pairwise fun c d => c.1 + 8 ≤ d.1 ∨ d.1 + 8 ≤ c.1 := by
  refine (List.pairwise_map.1 hi.tiled.apart).imp fun {c d} hcd => ?_
  simp only [Tiling.Apart, block, headerSize] at hcd
  omega

/-- the other regions do not overlap `c` -/
theorem HeapInv.apart_of (hi : HeapInv h (pre ++ c :: post) live) :
    ∀ d ∈ pre ++ post ++ live, c.1 + 8 + c.2 ≤ d.1 ∨ d.1 + 8 + d.2 ≤ c.1 := by
  have hperm : (pre ++ c :: post ++ live).Perm (c :: (pre ++ post ++ live)) := by
    rw [List.append_assoc, List.append_assoc, List.cons_append]
    exact List.perm_middle
  have hap := List.pairwise_map.1 hi.tiled.apart
  have hap := (hperm.pairwise_iff (fun {_ _} hab => Tiling.Apart.symm hab)).1 hap
  intro d hd
  have := (List.pairwise_cons.1 hap).1 d hd
  simp only [Tiling.Apart, block, headerSize] at this
  omega

/-- `c` is returned whole -/
theorem heapInv_exact (hi : HeapInv h (pre ++ c :: post) live) :
    HeapInv (takeExact h c.1 (lastPtr 0 pre)).1 (pre ++ post) (c :: live) := by
  have hap := hi.headers_apart
  rw [List.append_assoc, List.cons_append] at hap
  obtain ⟨happre, hapc, happ⟩ := List.pairwise_append.1 hap
  obtain ⟨m, hpre, rfl, _, hsz, hpost⟩ := seg_append.1 hi.links
  have hnext := next_lt h.mem c.1
  refine ⟨?_, ?_, ?_⟩
  · refine seg_setLink hpre happre hnext (hpost.congr fun a ha => ?_)
    obtain ⟨d, hd, rfl⟩ := List.mem_map.1 ha
    exact header_setLink fun e he => (happ e he d (by simp [hd])).symm
  · intro d hd
    have hmem : d ∈ c :: (post ++ live) := by
      rcases List.mem_cons.1 hd with rfl | hd
      · simp
      · simp [hd]
    have hframe : size (takeExact h c.1 (lastPtr 0 pre)).1.mem d.1 = size h.mem d.1 :=
      size_setLink (fun e he => Or.inr (happ e he d hmem).symm) hnext
    rw [hframe]
    rcases List.mem_cons.1 hd with rfl | hd
    · exact hsz
    · exact hi.sizes d hd
  · intro x
    rw [← hi.tiles x]
    simp only [List.map_append, List.map_cons, Tiling.cover_append, Tiling.cover_cons]
    omega

/-- the region that is left of `c` after `n` bytes are taken -/
def rest (c : ℕ × ℕ) (n : ℕ) : ℕ × ℕ := (c.1 + 8 + n, c.2 - n - 8)

/-- the memory after the header of the rest is written -/
def splitMem (mem : Mem) (c : ℕ × ℕ) (n : ℕ) : Mem :=
  setNext (setSize mem (rest c n).1 (rest c n).2) (rest c n).1 (next mem c.1)

theorem takeSplit_eq (hc : size h.mem c.1 = c.2) (hb : c.1 + 8 + c.2 < 2 ^ 32) (hn : n + 8 < c.2) (p : ℕ) :
    (takeSplit h c.1 p n).1 =
      ⟨setSize (setLink ⟨splitMem h.mem c n, h.kmallocHead⟩ p (rest c n).1).mem c.1 n,
        (setLink ⟨splitMem h.mem c n, h.kmallocHead⟩ p (rest c n).1).kmallocHead⟩ := by
  have h1 : u32 (c.1 + headerSize + n) = (rest c n).1 := u32_of_lt (by unfold headerSize; omega)
  have h2 : u32 (u32 (c.2 + 2 ^ 32 - n) + 2 ^ 32 - headerSize) = (rest c n).2 := by
    unfold u32 headerSize rest
    omega
  unfold takeSplit
  simp only [hc, h1, h2]
  rfl

/-- `n` bytes are taken from the front of `c` -/
theorem heapInv_split (hi : HeapInv h (pre ++ c :: post) live) (hn : n + 8 < c.2) :
    HeapInv (takeSplit h c.1 (lastPtr 0 pre) n).1 (pre ++ rest c n :: post) ((c.1, n) :: live) := by
  have hbound := hi.bounds (c := c) (by simp)
  have hoth := hi.apart_of
  have hap := hi.headers_apart
  rw [List.append_assoc, List.cons_append] at hap
  obtain ⟨happre, _, happ⟩ := List.pairwise_append.1 hap
  obtain ⟨m, hpre, rfl, _, hsz, hpost⟩ := seg_append.1 hi.links
  have hrest : (rest c n).1 < 2 ^ 32 := by unfold rest; omega
  rw [takeSplit_eq hsz (by omega) hn]
  set h₁ : Heap := ⟨splitMem h.mem c n, h.kmallocHead⟩ with hh₁
  -- the header of the rest is written inside `c`, which no other region overlaps
  have f₁ : ∀ d ∈ pre ++ post ++ live, header h₁.mem d.1 = header h.mem d.1 := by
    intro d hd
    have := hoth d hd
    simp only [hh₁, splitMem, rest]
    rw [header_setNext_ne (by omega), header_setSize_ne (by omega)]
  have f₂ : header h₁.mem (rest c n).1 = ((rest c n).2, next h.mem c.1) := by
    simp only [hh₁, splitMem]
    rw [header_setNext (next_lt _ _)]
    exact congrArg (fun x => (x, next h.mem c.1)) (congrArg Prod.fst (header_setSize (by unfold rest; omega)))
  -- the link to the rest is written in the region before `c`
  have f₃ : ∀ d ∈ post ++ live, header (setLink h₁ (lastPtr 0 pre) (rest c n).1).mem d.1 = header h₁.mem d.1 := by
    intro d hd
    exact header_setLink fun e he => (happ e he d (by simpa using Or.inr hd)).symm
  have f₄ : header (setLink h₁ (lastPtr 0 pre) (rest c n).1).mem (rest c n).1 = header h₁.mem (rest c n).1 := by
    refine header_setLink fun e he => ?_
    have := hoth e (by simp [he])
    unfold rest
    omega
  -- last, the size of `c` is written
  have hchain : Seg (header (setLink h₁ (lastPtr 0 pre) (rest c n).1).mem)
      (setLink h₁ (lastPtr 0 pre) (rest c n).1).kmallocHead (pre ++ rest c n :: post) 0 := by
    refine seg_setLink (hpre.congr fun a ha => ?_) happre hrest ⟨rfl, ?_, ?_, ?_⟩
    · obtain ⟨d, hd, rfl⟩ := List.mem_map.1 ha
      exact f₁ d (by simp [hd])
    · unfold rest
      omega
    · rw [f₄, f₂]
    · rw [f₄, f₂]
      refine hpost.congr fun a ha => ?_
      obtain ⟨d, hd, rfl⟩ := List.mem_map.1 ha
      rw [f₃ d (by simp [hd]), f₁ d (by simp [hd])]
  refine ⟨hchain.congr fun a ha => header_setSize_ne ?_, ?_, ?_⟩
  · obtain ⟨d, hd, rfl⟩ := List.mem_map.1 ha
    simp only [List.mem_append, List.mem_cons] at hd
    rcases hd with hd | rfl | hd
    · have := hoth d (by simp [hd])
      omega
    · unfold rest
      omega
    · have := hoth d (by simp [hd])
      omega
  · intro d hd
    rcases List.mem_cons.1 hd with rfl | hd
    · exact congrArg Prod.fst (header_setSize (by omega))
    · have := hoth d (by simp [hd])
      calc size _ d.1 = (header (setLink h₁ (lastPtr 0 pre) (rest c n).1).mem d.1).1 :=
            congrArg Prod.fst (header_setSize_ne (by omega))
        _ = (header h.mem d.1).1 := by rw [f₃ d (by simp [hd]), f₁ d (by simp [hd])]
        _ = d.2 := hi.sizes d hd
  · intro x
    have hcut : Tiling.hit (block c) x = Tiling.hit (block (c.1, n)) x + Tiling.hit (block (rest c n)) x := by
      have hlen : c.2 + headerSize = n + headerSize + ((rest c n).2 + headerSize) := by
        unfold rest headerSize
        omega
      have hstart : (rest c n).1 = c.1 + (n + headerSize) := by
        unfold rest headerSize
        omega
      unfold block
      rw [hlen, hstart]
      exact Tiling.hit_split _ _ _ _
    rw [← hi.tiles x]
    simp only [List.map_append, List.map_cons, Tiling.cover_append, Tiling.cover_cons, hcut]
    omega

/-- a live block goes to the front of the free list -/
theorem heapInv_kfree (hi : HeapInv h free (pre ++ c :: post)) :
    HeapInv (kfree h (c.1 + headerSize)) (c :: free) (pre ++ post) := by
  have hbound := hi.bounds (c := c) (by simp)
  have hoth : ∀ d ∈ free ++ (pre ++ post), c.1 + 8 ≤ d.1 ∨ d.1 + 8 ≤ c.1 := by
    intro d hd
    have hnd := hi.nodup
    have hperm : (free ++ (pre ++ c :: post)).Perm (c :: (free ++ (pre ++ post))) := by
      rw [← List.append_assoc, ← List.append_assoc]
      exact List.perm_middle
    have hne : c ≠ d := by
      rintro rfl
      have := (hperm.map Prod.fst).nodup_iff.1 hnd
      exact (List.nodup_cons.1 this).1 (mem_ptrs hd)
    have := hi.apart (hperm.mem_iff.2 (by simp)) (hperm.mem_iff.2 (List.mem_cons_of_mem _ hd)) hne
    omega
  have hreg : u32 (c.1 + headerSize + 2 ^ 32 - headerSize) = c.1 := by
    unfold u32 headerSize
    omega
  have hhead : h.kmallocHead < 2 ^ 32 := by
    have hl := hi.links
    cases free with
    | nil => rw [seg_nil.1 hl]; decide
    | cons d free =>
      have := hi.bounds (c := d) (by simp)
      rw [hl.1]
      omega
  unfold kfree
  simp only [hreg]
  refine ⟨⟨rfl, by omega, ?_, ?_⟩, ?_, ?_⟩
  · rw [header_setNext hhead]
    exact hi.sizes c (by simp)
  · rw [header_setNext hhead]
    refine hi.links.congr fun a ha => ?_
    obtain ⟨d, hd, rfl⟩ := List.mem_map.1 ha
    exact header_setNext_ne (hoth d (by simp [hd])).symm
  · intro d hd
    have hd' : d ∈ pre ++ c :: post := by
      simp only [List.mem_append, List.mem_cons] at hd ⊢
      exact hd.imp_right Or.inr
    have hframe : header (setNext h.mem c.1 h.kmallocHead) d.1 = header h.mem d.1 :=
      header_setNext_ne (hoth d (List.mem_append_right _ hd)).symm
    exact (congrArg Prod.fst hframe).trans (hi.sizes d hd')
  · intro x
    rw [← hi.tiles x]
    simp only [List.map_append, List.map_cons, Tiling.cover_append, Tiling.cover_cons, List.cons_append]
    omega

/-- a client writes inside its block: no header changes -/
theorem heapInv_write (hi : HeapInv h free live) {addr : ℕ} (v : UInt8) (hc : c ∈ live) (h1 : c.1 + 8 ≤ addr)
    (h2 : addr < c.1 + 8 + c.2) : HeapInv { h with mem := store8 h.mem addr v } free live := by
  have hframe : ∀ d ∈ free ++ live, header (store8 h.mem addr v) d.1 = header h.mem d.1 := by
    intro d hd
    refine header_congr fun x hx1 hx2 => ?_
    have hne : x ≠ addr := by
      rintro rfl
      by_cases hcd : c = d
      · subst hcd
        omega
      · have := hi.apart (List.mem_append_right _ hc) hd hcd
        omega
    unfold store8
    rw [Function.update_of_ne hne]
  refine ⟨hi.links.congr fun a ha => ?_, fun d hd => ?_, hi.tiles⟩
  · obtain ⟨d, hd, rfl⟩ := List.mem_map.1 ha
    exact hframe d (by simp [hd])
  · exact (congrArg Prod.fst (hframe d (by simp [hd]))).trans (hi.sizes d hd)

/-- after `kmalloc_init`: one free region -/
theorem heapInv_init (mem : Mem) :
    HeapInv (kmallocInit mem) [(kernelHeapVirtStart, kernelHeapSize - headerSize)] [] := by
  refine ⟨⟨rfl, by decide, ?_, ?_⟩, by simp, fun x => ?_⟩
  · unfold kmallocInit
    rw [header_setNext (by decide)]
    exact congrArg Prod.fst (header_setSize (by decide))
  · unfold kmallocInit
    rw [header_setNext (by decide)]
    rfl
  · have hlen : kernelHeapSize - headerSize + headerSize = kernelHeapSize := by decide
    simp only [List.append_nil, List.map_cons, List.map_nil, Tiling.cover_cons, Tiling.cover_nil, Nat.add_zero,
      Tiling.hit_eq, block, hlen]

end Changes

/-! ## Every run -/

/-- `kmalloc` takes the first region that fits -/
theorem kmalloc_cases {h : Heap} {free live : List (ℕ × ℕ)} (hi : HeapInv h free live) (n : ℕ) :
    ((∀ c ∈ free, ¬ Fits n c.2) ∧ kmalloc h n = .ok (h, 0)) ∨
    ∃ pre c post, free = pre ++ c :: post ∧ (∀ d ∈ pre, ¬ Fits n d.2) ∧ Fits n c.2 ∧
      kmalloc h n = .ok (take h n c (lastPtr 0 pre)) :=
  kmallocLoop_spec hi.links hi.length_lt

/-- **What `kmalloc` does** when the size asked for does not wrap: NULL and the heap as it was, or the first region that fits,
with the rest of it on the list. -/
theorem kmalloc_fits {h : Heap} {free live : List (ℕ × ℕ)} {n : ℕ} (hi : HeapInv h free live) (hn : n + 8 < 2 ^ 32) :
    ((∀ c ∈ free, ¬ Fits n c.2) ∧ kmalloc h n = .ok (h, 0)) ∨
    ∃ pre c post h' free', free = pre ++ c :: post ∧ (∀ d ∈ pre, ¬ Fits n d.2) ∧ Fits n c.2 ∧
      kmalloc h n = .ok (h', c.1 + headerSize) ∧ HeapInv h' free' ((c.1, n) :: live) := by
  rcases kmalloc_cases hi n with hnull | ⟨pre, c, post, rfl, hpre, hfit, hok⟩
  · exact Or.inl hnull
  · have hbound := hi.bounds (c := c) (by simp)
    have hpay : payload c.1 = c.1 + headerSize := u32_of_lt (by unfold headerSize; omega)
    have hu : u32 (n + headerSize) = n + 8 := u32_of_lt hn
    rw [hok, take]
    right
    split_ifs with he
    · subst he
      refine ⟨pre, c, post, _, pre ++ post, rfl, hpre, hfit, ?_, heapInv_exact hi⟩
      unfold takeExact
      rw [hpay]
    · have hlt : n + 8 < c.2 := by
        rw [← hu]
        exact hfit.resolve_left he
      refine ⟨pre, c, post, _, _, rfl, hpre, hfit, ?_, heapInv_split hi hlt⟩
      unfold takeSplit
      rw [hpay]

/-- no region fits, or one is taken -/
theorem kmalloc_spec {h : Heap} {free live : List (ℕ × ℕ)} {n : ℕ} (hi : HeapInv h free live) (hn : n ≤ kernelHeapSize) :
    ((∀ c ∈ free, ¬ Fits n c.2) ∧ kmalloc h n = .ok (h, 0)) ∨
    ∃ h' r free', kmalloc h n = .ok (h', r + headerSize) ∧ HeapInv h' free' ((r, n) :: live) := by
  rcases kmalloc_fits (n := n) hi (by unfold kernelHeapSize at hn; omega) with hnull | ⟨_, c, _, h', free', _, _, _, hok, hi'⟩
  · exact Or.inl hnull
  · exact Or.inr ⟨h', c.1, free', hok, hi'⟩

theorem step_heapInv {s t : St} {o : Op} {free : List (ℕ × ℕ)} (hi : HeapInv s.heap free s.live) (hC : Client s o)
    (hok : step s o = .ok t) : ∃ free', HeapInv t.heap free' t.live := by
  cases o with
  | alloc n =>
    obtain ⟨⟨h', p⟩, hk, he⟩ := bind_ok.1 hok
    cases he
    rcases kmalloc_spec hi hC with ⟨_, hnull⟩ | ⟨h'', r, free', hr, hi'⟩
    · rw [hnull] at hk
      cases hk
      exact ⟨free, hi⟩
    · rw [hr] at hk
      cases hk
      exact ⟨free', hi'⟩
  | free addr =>
    cases hok
    obtain ⟨c, hc, rfl⟩ := hC
    obtain ⟨d, pre, post, hpre, hd, hlive, her⟩ :=
      List.exists_of_eraseP (p := fun d : ℕ × ℕ => decide (d.1 + headerSize = c.1 + headerSize)) hc (by simp)
    have hdc : d.1 = c.1 := by simpa using hd
    refine ⟨d :: free, ?_⟩
    simp only [her]
    rw [hlive] at hi
    have := heapInv_kfree hi
    rwa [hdc] at this
  | write addr v =>
    cases hok
    obtain ⟨c, hc, h1, h2⟩ := hC
    exact ⟨free, heapInv_write hi v hc h1 h2⟩

/-- **The heap is tiled.** In every run after `kmalloc_init`: the free regions are a NULL-terminated list without repeats
and without a live block; live blocks and free regions, with their headers, tile the heap; the header of a live block has
the size asked for; and `kmalloc` always returns, with NULL only if the heap is as it was. -/
theorem heap_tiled {mem : Mem} {ops : List Op} {s : St} (hr : Runs step Client ⟨kmallocInit mem, []⟩ ops s) :
    ∃ free, Seg (header s.heap.mem) s.heap.kmallocHead free 0 ∧ (ptrs free).Nodup ∧
      (∀ c ∈ s.live, c.1 ∉ ptrs free) ∧
      Tiling.Tiles ((free ++ s.live).map block) kernelHeapVirtStart kernelHeapSize ∧
      (∀ c ∈ s.live, size s.heap.mem c.1 = c.2) ∧
      ∀ n ≤ kernelHeapSize, ∃ h p, kmalloc s.heap n = .ok (h, p) ∧ (p = 0 → h = s.heap) := by
  obtain ⟨free, hi⟩ : ∃ free, HeapInv s.heap free s.live :=
    hr.inv (P := fun s => ∃ free, HeapInv s.heap free s.live) (fun _ _ _ ⟨_, hi⟩ hC hok => step_heapInv hi hC hok)
      ⟨_, heapInv_init mem⟩
  have hnd := hi.nodup
  rw [ptrs_append, List.nodup_append] at hnd
  refine ⟨free, hi.links, hnd.1, fun c hc hm => hnd.2.2 _ hm _ (mem_ptrs hc) rfl, hi.tiled, hi.sizes, fun n hn => ?_⟩
  rcases kmalloc_spec hi hn with ⟨_, hnull⟩ | ⟨h', r, _, hr', _⟩
  · exact ⟨s.heap, 0, hnull, fun _ => rfl⟩
  · exact ⟨h', _, hr', fun h0 => absurd h0 (Nat.succ_ne_zero _)⟩

instance (s : St) : ∀ o, Decidable (Client s o)
  | .alloc n => inferInstanceAs (Decidable (n ≤ kernelHeapSize))
  | .free addr => inferInstanceAs (Decidable (∃ c ∈ s.live, c.1 + headerSize = addr))
  | .write addr _ => inferInstanceAs (Decidable (∃ c ∈ s.live, c.1 + headerSize ≤ addr ∧ addr < c.1 + headerSize + c.2))

def start : St := ⟨kmallocInit fun _ => 0, []⟩

/-- two blocks, the first written, freed and taken again -/
def reuse : List Op := [.alloc 16, .write 0xE0000008 7, .alloc 8, .free 0xE0000008, .alloc 16]

def reused : St := returned start (Runs.exec step start reuse)

theorem heap_tiled_reuse :
    Runs step Client start reuse reused ∧ reused.live = [(0xE0000000, 16), (0xE0000018, 8)] ∧
      ∃ free, Seg (header reused.heap.mem) reused.heap.kmallocHead free 0 ∧
        Tiling.Tiles ((free ++ reused.live).map block) kernelHeapVirtStart kernelHeapSize := by
  have hr : Runs step Client start reuse reused := .of_exec (by decide +kernel) rfl
  obtain ⟨free, hseg, _, _, htiles, _⟩ := heap_tiled hr
  exact ⟨hr, by decide +kernel, free, hseg, htiles⟩

end Gubos.Kmalloc
