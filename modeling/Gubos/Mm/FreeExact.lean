/-
When taking and returning pages is exact (`remove_free_blocks`, `add_free_blocks` in `mm/vmm.c`).

`FreeList` lemmas say what the two functions do where they take none of the branches that go wrong; here the branches are
followed as well, so that the conditions are exact.

- `taking_exact`: `remove_free_blocks` takes exactly the pages it returns if and only if the block it finds has more pages
  than asked for, or starts at the address asked for;
- `exact_fit_elsewhere`: an address inside a block with exactly as many pages;
- `returning_exact`: `add_free_blocks` adds exactly its pages if and only if it does not merge with the head of the list, nor
  with a block before that ends elsewhere (`MergeOk`);
- `merge_with_head`: a page is returned just below the first block.
-/
import Gubos.Mm.Calls

namespace Gubos.Vmm

open Gubos.Core Gubos.Paging

/-- the free list of a context, in cells of its own that are handed out -/
structure FreeList (h : Heap) (ctx : VmmContext) (l : List (ℕ × Area)) : Prop where
  list : Seg h.block ctx.freeBlocks l 0
  nodup : (ptrs l).Nodup
  live : ∀ p ∈ ptrs l, p ∈ h.arena.live

/-- page `x` is free -/
def Free (l : List (ℕ × Area)) (x : ℕ) : Prop := 0 < freeCover l x

/-- page `x` is one of the `n` from address `va` on -/
def InRange (va n x : ℕ) : Prop := va / pageSize ≤ x ∧ x < va / pageSize + n

section Lists

variable {h : Heap} {ctx : VmmContext} {l l' : List (ℕ × Area)} {va n x : ℕ}

/-- the list alone, as a context without a tree -/
theorem FreeList.rep (hl : FreeList h ctx l) : Rep h ⟨0, ctx.freeBlocks⟩ l .nil where
  list := hl.list
  tree := rfl
  nodup := by
    rw [cells_nil, ptrs_nil, List.append_nil]
    exact hl.nodup
  live := by
    rw [cells_nil, ptrs_nil, List.append_nil]
    exact hl.live

theorem Rep.freeList {t : BinaryTree (ℕ × VmmAllocation)} {a : ℕ} (hr : Rep h ⟨a, ctx.freeBlocks⟩ l t) :
    FreeList h ctx l where
  list := hr.list
  nodup := hr.nodup_list
  live := fun p hp => hr.live p (List.mem_append_left _ hp)

theorem FreeList.unique (hl : FreeList h ctx l) (hl' : FreeList h ctx l') : l = l' :=
  hl.list.unique hl'.list hl.list.ne_zero hl'.list.ne_zero

/-- a list in memory is shorter than there are pointers -/
theorem FreeList.length_lt (hl : FreeList h ctx l) : l.length < rounds := by
  calc l.length = (ptrs l).length := (List.length_map _).symm
    _ ≤ 2 ^ 32 := h.arena.length_le hl.nodup hl.live
    _ < rounds := Nat.lt_succ_self _

theorem inRange_iff : InRange va n x ↔ Tiling.hit (span ⟨va, n⟩) x = 1 := by
  unfold InRange
  rw [Tiling.hit_eq]
  split_ifs with hin
  · exact ⟨fun _ => rfl, fun _ => hin⟩
  · exact ⟨fun h => absurd h hin, fun h => absurd h (by decide)⟩

/-- no area of these contains page `x` -/
theorem freeCover_eq_zero (h : ∀ c ∈ l, x < (span c.2).1 ∨ (span c.2).1 + (span c.2).2 ≤ x) : freeCover l x = 0 := by
  by_contra h0
  obtain ⟨b, hb, h1, h2⟩ := Tiling.exists_of_cover (Nat.pos_of_ne_zero h0)
  obtain ⟨c, hc, rfl⟩ := List.mem_map.1 hb
  have := h c hc
  omega

end Lists

instance (l : List (ℕ × Area)) (x : ℕ) : Decidable (Free l x) := inferInstanceAs (Decidable (0 < freeCover l x))

instance (va n x : ℕ) : Decidable (InRange va n x) := inferInstanceAs (Decidable (va / pageSize ≤ x ∧ x < va / pageSize + n))

/-! ## Taking pages -/

/-- what `remove_free_blocks(va, n)` should do when it returns `r`: the address asked for, pages that were free, and these
pages alone are not free any more -/
structure TakesExactly (l : List (ℕ × Area)) (va n r : ℕ) (l' : List (ℕ × Area)) : Prop where
  address : va ≠ 0 → r = va
  aligned : r % pageSize = 0
  were_free : ∀ x, InRange r n x → Free l x
  pages : ∀ x, Free l' x ↔ Free l x ∧ ¬ InRange r n x
  ok : FreeOk l'

section Take

variable {A : Allocator} {mi : KernelMeminfo} {h h' : Heap} {ctx ctx' : VmmContext} {l : List (ℕ × Area)} {va n r : ℕ}
  {user : Bool}

/-- the tree of the context plays no part -/
theorem removeFreeBlocks_root (hok : removeFreeBlocks A mi h ctx va n user = .ok (h', ctx', r)) :
    removeFreeBlocks A mi h ⟨0, ctx.freeBlocks⟩ va n user = .ok (h', ⟨0, ctx'.freeBlocks⟩, r) := by
  unfold removeFreeBlocks at hok ⊢
  split_ifs at hok with h0
  rw [if_neg h0]
  obtain ⟨⟨q, prev⟩, hfind, hok⟩ := bind_ok.1 hok
  refine bind_ok.2 ⟨(q, prev), hfind, ?_⟩
  dsimp only at hok ⊢
  split_ifs at hok with hq
  rw [if_neg hq]
  unfold takeFreeBlocks unlinkBlock at hok ⊢
  dsimp only at hok ⊢
  generalize (if va ≠ 0 then u32 (va + 2 ^ 32 - (h.blocks q).virtualAddr) / pageSize else 0) = off at hok ⊢
  split_ifs at hok ⊢
  · cases hok
    rfl
  · cases hok
    rfl
  · cases hok
    rfl
  · obtain ⟨⟨h₁, p⟩, hnew, hok⟩ := bind_ok.1 hok
    cases hok
    exact bind_ok.2 ⟨(h₁, p), hnew, rfl⟩
  · cases hok
    rfl
  · cases hok
    rfl

/-- where the condition holds -/
theorem takes_of_fit (hl : FreeList h ctx l) (hf : FreeOk l) (hva : va % pageSize = 0)
    (hfit : ∀ c, l.find? (fun c => suits mi va n user c.2) = some c → c.2.pageCount = n → va = c.2.virtualAddr)
    (hok : removeFreeBlocks A mi h ctx va n user = .ok (h', ctx', r)) :
    ∃ l', FreeList h' ctx' l' ∧ TakesExactly l va n r l' := by
  obtain ⟨haddr, l₁, c, l₂, m, rfl, hrep, hcut⟩ :=
    removeFreeBlocks_spec hl.rep hf hva hfit (removeFreeBlocks_root hok)
  have hcover := fun x => @Cut.cover l₁ l₂ c n r m hcut x
  refine ⟨_, hrep.freeList, haddr, hcut.aligned, fun x hx => ?_, fun x => ?_, hf.refine hcut.ok hcut.inside⟩
  · have := hcover x
    rw [inRange_iff.1 hx] at this
    unfold Free
    omega
  · have h1 := hcover x
    have h2 := hf.cover_le_one x
    have h3 := Tiling.hit_le_one (b := span ⟨r, n⟩) (x := x)
    rw [inRange_iff]
    unfold Free
    omega

/-- a block that fits exactly is unlinked, wherever it starts -/
theorem removeFreeBlocks_unlinks (hl : FreeList h ctx l) {c : ℕ × Area}
    (hc : l.find? (fun c => suits mi va n user c.2) = some c) (hcn : c.2.pageCount = n) :
    ∃ l₁ l₂ h' ctx', l = l₁ ++ c :: l₂ ∧ removeFreeBlocks A mi h ctx va n user = .ok (h', ctx', va) ∧
      FreeList h' ctx' (l₁ ++ l₂) := by
  obtain ⟨⟨q, prev⟩, hscan⟩ : ∃ r, scan h.block (suits mi va n user) rounds ctx.freeBlocks 0 = .ok r :=
    scan_returns hl.list hl.length_lt
  obtain ⟨l₁, l₂, rfl, hl₁, hprev, hq⟩ := scan_spec hl.list hscan
  have hfirst : ∀ d ∈ l₁, ¬ suits mi va n user d.2 = true := fun d hd hs => by
    rw [hl₁ d hd] at hs
    cases hs
  rw [List.find?_append, List.find?_eq_none.2 hfirst, Option.none_or] at hc
  rcases hq with ⟨_, rfl⟩ | ⟨d, l₃, rfl, rfl, hd⟩
  · cases hc
  rw [List.find?_cons, hd] at hc
  cases hc
  have hrep := hl.rep
  have hc0 : c.1 ≠ 0 := fun h0 => hl.list.ne_zero (by simp [h0])
  have hbk : (h.blocks c.1).pageCount = c.2.pageCount := congrArg Area.pageCount hrep.block_eq
  have hnil : ctx.freeBlocks ≠ 0 := by
    intro h0
    have hlist := hl.list
    rw [h0] at hlist
    cases l₁ with
    | nil => exact hc0 hlist.1.symm
    | cons e l₁ => exact hlist.2.1 hlist.1.symm
  have hrep' := hrep.unlink
  refine ⟨l₁, l₃, (unlinkBlock h ctx c.1 prev).1, (unlinkBlock h ctx c.1 prev).2, rfl, ?_, ?_⟩
  · unfold removeFreeBlocks
    rw [if_neg hnil]
    refine bind_ok.2 ⟨(c.1, prev), hscan, ?_⟩
    dsimp only
    rw [if_neg hc0]
    unfold takeFreeBlocks
    dsimp only
    rw [hbk, if_pos hcn]
  · rw [hprev]
    unfold unlinkBlock at hrep' ⊢
    dsimp only at hrep' ⊢
    split_ifs at hrep' ⊢
    · exact hrep'.freeList
    · exact hrep'.freeList

/-- **Taking pages is exact exactly when** the first block that suits has more pages than asked for, or starts at the address
asked for. -/
theorem taking_exact (hl : FreeList h ctx l) (hf : FreeOk l) (hn : 1 ≤ n) (hva : va % pageSize = 0) :
    (∀ h' ctx' r, removeFreeBlocks A mi h ctx va n user = .ok (h', ctx', r) →
      ∃ l', FreeList h' ctx' l' ∧ TakesExactly l va n r l') ↔
    ∀ c, l.find? (fun c => suits mi va n user c.2) = some c → c.2.pageCount = n → va = c.2.virtualAddr := by
  refine ⟨fun hexact c hc hcn => ?_, fun hfit h' ctx' r hok => takes_of_fit hl hf hva hfit hok⟩
  obtain ⟨l₁, l₂, h', ctx', rfl, hok, hl'⟩ := @removeFreeBlocks_unlinks A mi h ctx l va n user hl c hc hcn
  obtain ⟨l', hfree, htakes⟩ := hexact h' ctx' va hok
  obtain rfl := hl'.unique hfree
  -- the pages that went are those of the block: its first page is one of the range, and the first of the range is one of its
  have hcover : ∀ x, freeCover (l₁ ++ c :: l₂) x = freeCover (l₁ ++ l₂) x + Tiling.hit (span c.2) x := by
    intro x
    simp only [freeCover_append, freeCover_cons]
    omega
  have hfirst : InRange va n (c.2.virtualAddr / pageSize) := by
    have hin : Tiling.hit (span c.2) (c.2.virtualAddr / pageSize) = 1 := by
      refine Tiling.hit_of_mem le_rfl ?_
      unfold span
      omega
    have h1 := hcover (c.2.virtualAddr / pageSize)
    have h2 := hf.cover_le_one (c.2.virtualAddr / pageSize)
    by_contra hout
    have h3 := (htakes.pages (c.2.virtualAddr / pageSize)).2 ⟨by unfold Free; omega, hout⟩
    unfold Free at h3
    omega
  have hback : c.2.virtualAddr / pageSize ≤ va / pageSize := by
    have hin : InRange va n (va / pageSize) := ⟨le_rfl, by omega⟩
    have h1 := hcover (va / pageSize)
    have h2 := htakes.were_free _ hin
    have h3 : ¬ Free (l₁ ++ l₂) (va / pageSize) := fun hfr => ((htakes.pages _).1 hfr).2 hin
    unfold Free at h2 h3
    by_contra hlt
    rw [Tiling.hit_eq, if_neg (by unfold span; omega)] at h1
    omega
  have hal := (hf.area c (by simp)).aligned
  unfold InRange at hfirst
  simp only [pageSize] at hfirst hback hal hva
  omega

end Take

theorem fresh_list : FreeList fresh.1 fresh.2 freshBlocks :=
  @Rep.freeList fresh.1 fresh.2 freshBlocks _ fresh.2.allocations fresh_rep

/-- the pages from 0xC0000000 to 0xC0100000 are a block of the fresh list -/
theorem taking_exact_block :
    (∃ h' ctx' r, removeFreeBlocks .top .atOneMegabyte fresh.1 fresh.2 0xC0000000 256 false = .ok (h', ctx', r)) ∧
      ∀ h' ctx' r, removeFreeBlocks .top .atOneMegabyte fresh.1 fresh.2 0xC0000000 256 false = .ok (h', ctx', r) →
        ∃ l', FreeList h' ctx' l' ∧ TakesExactly freshBlocks 0xC0000000 256 r l' := by
  refine ⟨⟨_, _, _, eq_returned (emptyHeap, ⟨0, 0⟩, 0) (by decide +kernel)⟩, ?_⟩
  refine (taking_exact fresh_list freshBlocks_ok (by decide) (by decide)).2 fun c hc _ => ?_
  have hfind : freshBlocks.find? (fun c => suits .atOneMegabyte 0xC0000000 256 false c.2) =
      some (3, ⟨0xC0000000, 0x100⟩) := by decide
  rw [hfind] at hc
  cases hc
  rfl

/-- **An address inside a block that fits exactly.** 256 pages from 0xC0080000 on are asked for. The block of 256 pages at
0xC0000000 goes, and the call returns 0xC0080000, though the pages from 0xC0100000 on were not free. -/
theorem exact_fit_elsewhere :
    ∃ h' ctx', removeFreeBlocks .top .atOneMegabyte fresh.1 fresh.2 0xC0080000 256 false = .ok (h', ctx', 0xC0080000) ∧
      FreeList fresh.1 fresh.2 freshBlocks ∧ FreeOk freshBlocks ∧
      InRange 0xC0080000 256 0xC0100 ∧ ¬ Free freshBlocks 0xC0100 ∧
      ¬ ∃ l', FreeList h' ctx' l' ∧ TakesExactly freshBlocks 0xC0080000 256 0xC0080000 l' := by
  have hfind : freshBlocks.find? (fun c => suits .atOneMegabyte 0xC0080000 256 false c.2) =
      some (3, ⟨0xC0000000, 0x100⟩) := by decide
  obtain ⟨_, _, h', ctx', _, hok, _⟩ := @removeFreeBlocks_unlinks .top _ _ _ _ _ _ _ fresh_list _ hfind rfl
  have hin : InRange 0xC0080000 256 0xC0100 := by decide
  have hnot : ¬ Free freshBlocks 0xC0100 := by decide
  refine ⟨h', ctx', hok, fresh_list, freshBlocks_ok, hin, hnot, fun hex => ?_⟩
  obtain ⟨l', _, htakes⟩ := hex
  exact hnot (htakes.were_free _ hin)

/-! ## Returning pages -/

/-- what `add_free_blocks(va, n)` should do: the pages of the range become free, and no others -/
structure ReturnsExactly (l : List (ℕ × Area)) (va n : ℕ) (l' : List (ℕ × Area)) : Prop where
  pages : ∀ x, Free l' x ↔ Free l x ∨ InRange va n x
  ok : FreeOk l'

section Return

variable {A : Allocator} {mi : KernelMeminfo} {h h' : Heap} {ctx ctx' : VmmContext} {l l₁ l₂ : List (ℕ × Area)} {va n : ℕ}
  {c d : ℕ × Area}

theorem addFreeBlocks_root (hok : addFreeBlocks A mi h ctx va n = .ok (h', ctx')) :
    addFreeBlocks A mi h ⟨0, ctx.freeBlocks⟩ va n = .ok (h', ⟨0, ctx'.freeBlocks⟩) := by
  obtain ⟨⟨q, prev⟩, hseek, hok⟩ := bind_ok.1 hok
  refine bind_ok.2 ⟨(q, prev), hseek, ?_⟩
  unfold putFreeBlocks at hok ⊢
  dsimp only at hok ⊢
  split_ifs at hok ⊢
  · obtain ⟨h₁, hmerge, hok⟩ := bind_ok.1 hok
    cases hok
    exact bind_ok.2 ⟨_, hmerge, rfl⟩
  · cases hok
    rfl
  · obtain ⟨⟨h₁, p⟩, hnew, hok⟩ := bind_ok.1 hok
    cases hok
    exact bind_ok.2 ⟨_, hnew, rfl⟩

theorem newBlock_returns (halloc : (h.arena.alloc A).1 ≠ 0) (b : VmmFreeBlocks) : ∃ r, h.newBlock A b = .ok r := by
  unfold Heap.newBlock
  dsimp only
  rw [if_neg halloc]
  exact ⟨_, rfl⟩

theorem mergeOrInsertFreeBlocks_returns (halloc : (h.arena.alloc A).1 ≠ 0) (q : ℕ) :
    ∃ h', mergeOrInsertFreeBlocks A mi h q va n = .ok h' := by
  have hinsert : ∃ h', insertFreeBlocks A h q va n = .ok h' := by
    obtain ⟨⟨h₁, p⟩, hnew⟩ := newBlock_returns halloc ⟨⟨va, n⟩, (h.blocks q).next⟩
    exact ⟨_, bind_ok.2 ⟨(h₁, p), hnew, rfl⟩⟩
  unfold mergeOrInsertFreeBlocks
  dsimp only
  split_ifs
  · exact hinsert
  · exact ⟨_, rfl⟩
  · exact ⟨_, rfl⟩
  · exact ⟨_, rfl⟩
  · exact hinsert
  · obtain ⟨⟨h₁, p⟩, hnew⟩ := newBlock_returns halloc ⟨⟨va, n⟩, 0⟩
    exact ⟨h₁, bind_ok.2 ⟨(h₁, p), hnew, rfl⟩⟩

/-- the call returns, if the heap has a block for it -/
theorem addFreeBlocks_returns (hl : FreeList h ctx l) (halloc : (h.arena.alloc A).1 ≠ 0) :
    ∃ h' ctx', addFreeBlocks A mi h ctx va n = .ok (h', ctx') := by
  obtain ⟨⟨q, prev⟩, hseek⟩ : ∃ r, seekFreeBlocks h ctx va = .ok r := scan_returns hl.list hl.length_lt
  obtain ⟨⟨h', ctx'⟩, hput⟩ : ∃ r, putFreeBlocks A mi h ctx va n q prev = .ok r := by
    unfold putFreeBlocks
    dsimp only
    split_ifs
    · obtain ⟨h₁, hmerge⟩ := @mergeOrInsertFreeBlocks_returns A mi h va n halloc prev
      exact ⟨_, bind_ok.2 ⟨h₁, hmerge, rfl⟩⟩
    · exact ⟨_, rfl⟩
    · obtain ⟨⟨h₁, p⟩, hnew⟩ := newBlock_returns halloc ⟨⟨va, n⟩, q⟩
      exact ⟨_, bind_ok.2 ⟨(h₁, p), hnew, rfl⟩⟩
  exact ⟨h', ctx', bind_ok.2 ⟨(q, prev), hseek, hput⟩⟩

/-- where the condition holds -/
theorem returns_of_mergeOk (hl : FreeList h ctx l) (hf : FreeOk l) (ha : AreaOk ⟨va, n⟩)
    (hapart : ∀ c ∈ l, c.2.virtualAddr + c.2.pageCount * pageSize ≤ va ∨ va + n * pageSize ≤ c.2.virtualAddr)
    (hmerge : MergeOk mi (before va l).getLast? (after va l).head? va n)
    (hok : addFreeBlocks A mi h ctx va n = .ok (h', ctx')) : ∃ l', FreeList h' ctx' l' ∧ ReturnsExactly l va n l' := by
  obtain ⟨l', hrep, hf', hcover⟩ := addFreeBlocks_spec hl.rep hf ha hapart hmerge (addFreeBlocks_root hok)
  refine ⟨l', hrep.freeList, fun x => ?_, hf'⟩
  have h1 := hcover x
  have h2 := Tiling.hit_le_one (b := span ⟨va, n⟩) (x := x)
  rw [inRange_iff]
  unfold Free
  omega

/-- the range ends where the first block starts: the block gets the pages at its other end -/
theorem addFreeBlocks_head (hl : FreeList h ctx (c :: l)) (hf : FreeOk (c :: l)) (ha : AreaOk ⟨va, n⟩)
    (hend : va + n * pageSize = c.2.virtualAddr) :
    ∃ h' ctx', addFreeBlocks A mi h ctx va n = .ok (h', ctx') ∧
      FreeList h' ctx' ((c.1, ⟨c.2.virtualAddr, u32 (c.2.pageCount + n)⟩) :: l) := by
  have hc := hf.area c (by simp)
  have hn : 0 < n * pageSize := Nat.mul_pos ha.nonempty (by decide)
  have hck : 0 < c.2.pageCount * pageSize := Nat.mul_pos hc.nonempty (by decide)
  have hfit := hc.fits
  have hc0 : c.1 ≠ 0 := fun h0 => hl.list.ne_zero (by simp [h0])
  have hblock : (h.blocks c.1).toArea = c.2 := @Rep.block_eq h ⟨0, ctx.freeBlocks⟩ [] l .nil c hl.rep
  have hbv : (h.blocks c.1).virtualAddr = c.2.virtualAddr := congrArg Area.virtualAddr hblock
  have hbc : (h.blocks c.1).pageCount = c.2.pageCount := congrArg Area.pageCount hblock
  obtain ⟨⟨q, prev⟩, hseek⟩ : ∃ r, seekFreeBlocks h ctx va = .ok r := scan_returns hl.list hl.length_lt
  obtain ⟨hq, hprev⟩ := seekFreeBlocks_spec hl.list hseek
  have hle : ¬ c.2.virtualAddr < va := by omega
  unfold before at hprev
  unfold after at hq
  rw [List.takeWhile_cons_of_neg (by simpa using hle), lastPtr_nil] at hprev
  rw [List.dropWhile_cons_of_neg (by simpa using hle)] at hq
  have hq : q = c.1 := hq
  subst hprev hq
  have hrep := @Rep.setArea h ⟨0, ctx.freeBlocks⟩ [] l .nil c ⟨c.2.virtualAddr, u32 (c.2.pageCount + n)⟩ hl.rep
  refine ⟨_, ctx, bind_ok.2 ⟨(c.1, 0), hseek, ?_⟩, hrep.freeList⟩
  unfold putFreeBlocks
  dsimp only
  rw [if_neg (not_not.2 rfl), hbv, hbc, if_pos ⟨hc0, by rw [u32_of_lt (by omega), hend]⟩]

/-- so the first page of the range is not free -/
theorem not_returns_of_head (hl : FreeList h ctx (c :: l)) (hf : FreeOk (c :: l)) (ha : AreaOk ⟨va, n⟩)
    (hend : va + n * pageSize = c.2.virtualAddr) :
    ∃ h' ctx', addFreeBlocks A mi h ctx va n = .ok (h', ctx') ∧
      ¬ ∃ l', FreeList h' ctx' l' ∧ ReturnsExactly (c :: l) va n l' := by
  obtain ⟨h', ctx', hok, hl'⟩ := @addFreeBlocks_head A mi h ctx l va n c hl hf ha hend
  refine ⟨h', ctx', hok, fun hret => ?_⟩
  obtain ⟨l', hfree, hret⟩ := hret
  obtain rfl := hl'.unique hfree
  have hn := ha.nonempty
  have hal := ha.aligned
  have hin : InRange va n (va / pageSize) := ⟨le_rfl, Nat.lt_add_of_pos_right hn⟩
  have hfree := (hret.pages (va / pageSize)).2 (Or.inr hin)
  refine absurd (freeCover_eq_zero fun e he => Or.inl ?_) (Nat.pos_iff_ne_zero.1 hfree)
  have hce : c.2.virtualAddr ≤ e.2.virtualAddr := by
    rcases List.mem_cons.1 he with rfl | he
    · exact le_rfl
    · have := (@FreeOk.around [] l c hf).2 e he
      omega
  simp only [span, pageSize] at hend hn hal ⊢
  omega

/-- a user block before a range that is not one: the block gets the pages at its end, but ends elsewhere -/
theorem addFreeBlocks_merges (hl : FreeList h ctx (l₁ ++ d :: l₂)) (hf : FreeOk (l₁ ++ d :: l₂)) (ha : AreaOk ⟨va, n⟩)
    (hb : before va (l₁ ++ d :: l₂) = l₁ ++ [d]) (h1 : d.2.virtualAddr + d.2.pageCount * pageSize ≤ va)
    (h2 : ∀ e ∈ l₂, va + n * pageSize ≤ e.2.virtualAddr)
    (hmode : isAddrInUserRange mi d.2.virtualAddr d.2.pageCount ≠ isAddrInUserRange mi va n)
    (hm : d.2.virtualAddr + n * pageSize = va) :
    ∃ h' ctx', addFreeBlocks A mi h ctx va n = .ok (h', ctx') ∧
      FreeList h' ctx' (l₁ ++ (d.1, ⟨d.2.virtualAddr, u32 (d.2.pageCount + n)⟩) :: l₂) := by
  have hd0 : d.1 ≠ 0 := fun h0 => hl.list.ne_zero (by simp [h0])
  have hlt : d.2.virtualAddr < va := by
    have : 0 < d.2.pageCount * pageSize := Nat.mul_pos (hf.area d (by simp)).nonempty (by decide)
    omega
  obtain ⟨⟨q, prev⟩, hseek⟩ : ∃ r, seekFreeBlocks h ctx va = .ok r := scan_returns hl.list hl.length_lt
  obtain ⟨_, hprev⟩ := seekFreeBlocks_spec hl.list hseek
  rw [hb, lastPtr_snoc] at hprev
  subst hprev
  refine ⟨_, ctx, bind_ok.2 ⟨(q, d.1), hseek, ?_⟩, hl.rep.setArea.freeList⟩
  unfold putFreeBlocks
  dsimp only
  rw [if_pos hd0, mergeOrInsertFreeBlocks_merges hl.rep hlt ha.fits h2 hmode hm]
  rfl

/-- so a page between the block and the range is free as well -/
theorem not_returns_of_merge (hl : FreeList h ctx (l₁ ++ d :: l₂)) (hf : FreeOk (l₁ ++ d :: l₂)) (ha : AreaOk ⟨va, n⟩)
    (hb : before va (l₁ ++ d :: l₂) = l₁ ++ [d]) (h1 : d.2.virtualAddr + d.2.pageCount * pageSize ≤ va)
    (h2 : ∀ e ∈ l₂, va + n * pageSize ≤ e.2.virtualAddr)
    (hmode : isAddrInUserRange mi d.2.virtualAddr d.2.pageCount ≠ isAddrInUserRange mi va n)
    (hm : d.2.virtualAddr + n * pageSize = va) (hdn : d.2.pageCount ≠ n) :
    ∃ h' ctx', addFreeBlocks A mi h ctx va n = .ok (h', ctx') ∧
      ¬ ∃ l', FreeList h' ctx' l' ∧ ReturnsExactly (l₁ ++ d :: l₂) va n l' := by
  obtain ⟨h', ctx', hok, hl'⟩ := @addFreeBlocks_merges A mi h ctx l₁ l₂ va n d hl hf ha hb h1 h2 hmode hm
  refine ⟨h', ctx', hok, fun hret => ?_⟩
  obtain ⟨l', hfree, hret⟩ := hret
  obtain rfl := hl'.unique hfree
  have hd := hf.area d (by simp)
  have hlt : d.2.pageCount < n := by
    simp only [pageSize] at h1 hm
    omega
  have hun : u32 (d.2.pageCount + n) = d.2.pageCount + n := by
    have h3 := ha.pageCount_le
    dsimp only at h3
    exact u32_of_lt (by omega)
  rw [hun] at hret
  -- the page after the last one of the block
  obtain ⟨x, hx⟩ : ∃ x, x = d.2.virtualAddr / pageSize + d.2.pageCount := ⟨_, rfl⟩
  have hgrown : Free (l₁ ++ (d.1, ⟨d.2.virtualAddr, d.2.pageCount + n⟩) :: l₂) x := by
    have hin : Tiling.hit (span ⟨d.2.virtualAddr, d.2.pageCount + n⟩) x = 1 := by
      refine Tiling.hit_of_mem ?_ ?_
      · simp only [span]
        omega
      · simp only [span]
        omega
    unfold Free
    rw [freeCover_append, freeCover_cons, hin]
    omega
  have hal := hd.aligned
  rcases (hret.pages x).1 hgrown with hbefore | hrange
  · refine absurd (freeCover_eq_zero fun e he => ?_) (Nat.pos_iff_ne_zero.1 hbefore)
    rcases List.mem_append.1 he with he | he
    · have h3 := hf.around.1 e he
      have h4 := (hf.area e (by simp [he])).aligned
      right
      simp only [span, pageSize] at h3 h4 hal hx ⊢
      omega
    rcases List.mem_cons.1 he with rfl | he
    · exact Or.inr hx.ge
    · have h3 := h2 e he
      have h4 := ha.nonempty
      left
      simp only [span, pageSize] at h3 h4 h1 hal hx ⊢
      omega
  · have h3 := hrange.1
    simp only [pageSize] at h3 hm hx hal
    omega

/-- where the condition fails -/
theorem not_returns_of_not_mergeOk (hl : FreeList h ctx l) (hf : FreeOk l) (ha : AreaOk ⟨va, n⟩)
    (hapart : ∀ c ∈ l, c.2.virtualAddr + c.2.pageCount * pageSize ≤ va ∨ va + n * pageSize ≤ c.2.virtualAddr)
    (hmerge : ¬ MergeOk mi (before va l).getLast? (after va l).head? va n) :
    ∃ h' ctx', addFreeBlocks A mi h ctx va n = .ok (h', ctx') ∧
      ¬ ∃ l', FreeList h' ctx' l' ∧ ReturnsExactly l va n l' := by
  obtain ⟨h1, h2⟩ := apart_before_after hf ha.nonempty hapart
  have hsplit := before_append_after va l
  rcases List.eq_nil_or_concat' (before va l) with hb | ⟨l₁, d, hb⟩
  · rw [hb] at hmerge hsplit
    cases hafter : after va l with
    | nil =>
      rw [hafter] at hmerge
      exact absurd trivial hmerge
    | cons c l₂ =>
      rw [hafter] at hmerge hsplit
      rw [List.nil_append] at hsplit
      subst hsplit
      exact not_returns_of_head hl hf ha (not_not.1 hmerge)
  · rw [hb, List.getLast?_concat] at hmerge
    have hbad : ¬ (isAddrInUserRange mi d.2.virtualAddr d.2.pageCount = true → isAddrInUserRange mi va n = false →
        d.2.virtualAddr + n * pageSize = va → d.2.pageCount = n) := hmerge
    simp only [Classical.not_imp] at hbad
    obtain ⟨huser, hkernel, hm, hdn⟩ := hbad
    rw [hb, List.append_assoc, List.singleton_append] at hsplit
    generalize after va l = l₂ at h2 hsplit
    subst hsplit
    refine not_returns_of_merge hl hf ha hb (h1 d (by simp [hb])) h2 ?_ hm hdn
    rw [huser, hkernel]
    decide

/-- **Returning pages is exact exactly when** the range does not end where the first block of the list starts, and the block
before it, where it is a user block and the range is not, has not the range `n` pages after its start without ending there
(`MergeOk`). The call returns whenever the heap has a block for it. -/
theorem returning_exact (hl : FreeList h ctx l) (hf : FreeOk l) (ha : AreaOk ⟨va, n⟩)
    (hapart : ∀ c ∈ l, c.2.virtualAddr + c.2.pageCount * pageSize ≤ va ∨ va + n * pageSize ≤ c.2.virtualAddr) :
    ((h.arena.alloc A).1 ≠ 0 → ∃ h' ctx', addFreeBlocks A mi h ctx va n = .ok (h', ctx')) ∧
    ((∀ h' ctx', addFreeBlocks A mi h ctx va n = .ok (h', ctx') → ∃ l', FreeList h' ctx' l' ∧ ReturnsExactly l va n l') ↔
      MergeOk mi (before va l).getLast? (after va l).head? va n) := by
  refine ⟨addFreeBlocks_returns hl, fun hexact => ?_, fun hmerge h' ctx' hok => ?_⟩
  · by_contra hmerge
    obtain ⟨h', ctx', hok, hnot⟩ := @not_returns_of_not_mergeOk A mi h ctx l va n hl hf ha hapart hmerge
    exact hnot (hexact h' ctx' hok)
  · exact returns_of_mergeOk hl hf ha hapart hmerge hok

end Return

/-- the pages of the kernel image are returned to the fresh list -/
theorem returning_exact_image :
    (∃ h' ctx', addFreeBlocks .top .atOneMegabyte fresh.1 fresh.2 0xC0100000 256 = .ok (h', ctx')) ∧
      ∀ h' ctx', addFreeBlocks .top .atOneMegabyte fresh.1 fresh.2 0xC0100000 256 = .ok (h', ctx') →
        ∃ l', FreeList h' ctx' l' ∧ ReturnsExactly freshBlocks 0xC0100000 256 l' := by
  have hexact := @returning_exact .top .atOneMegabyte _ _ _ 0xC0100000 256 fresh_list freshBlocks_ok
    ⟨by decide, by decide, by decide⟩ (by decide)
  exact ⟨hexact.1 (by decide +kernel), hexact.2.2 (by decide)⟩

/-- the fresh address space, after page 0 is taken -/
def taken : Heap × VmmContext × ℕ :=
  returned (emptyHeap, ⟨0, 0⟩, 0) (removeFreeBlocks .top .atOneMegabyte fresh.1 fresh.2 0 1 true)

/-- **Page 0 is returned just below the first block.** The block gets a page at its end, the first of the block after it, and
page 0 stays taken. -/
theorem merge_with_head :
    ∃ l h' ctx', FreeList taken.1 taken.2.1 l ∧ FreeOk l ∧ AreaOk ⟨0, 1⟩ ∧
      (∀ c ∈ l, c.2.virtualAddr + c.2.pageCount * pageSize ≤ 0 ∨ 0 + 1 * pageSize ≤ c.2.virtualAddr) ∧
      addFreeBlocks .top .atOneMegabyte taken.1 taken.2.1 0 1 = .ok (h', ctx') ∧
      ¬ ∃ l', FreeList h' ctx' l' ∧ ReturnsExactly l 0 1 l' := by
  have hok : removeFreeBlocks .top .atOneMegabyte fresh.1 fresh.2 0 1 true = .ok taken := eq_returned _ (by decide +kernel)
  have hfit : ∀ c, freshBlocks.find? (fun c => suits .atOneMegabyte 0 1 true c.2) = some c → c.2.pageCount = 1 →
      0 = c.2.virtualAddr := by
    decide
  obtain ⟨_, hl, htakes⟩ := takes_of_fit fresh_list freshBlocks_ok (by decide) hfit hok
  have hl' : FreeList taken.1 taken.2.1 [(2, ⟨0x1000, 0xBFFFF⟩), (3, ⟨0xC0000000, 0x100⟩), (4, ⟨0xC0200000, 0x3FA00⟩)] :=
    ⟨by decide +kernel, by decide, by decide +kernel⟩
  have hf : FreeOk [(2, ⟨0x1000, 0xBFFFF⟩), (3, ⟨0xC0000000, 0x100⟩), (4, ⟨0xC0200000, 0x3FA00⟩)] := by
    rw [hl'.unique hl]
    exact htakes.ok
  have ha : AreaOk ⟨0, 1⟩ := ⟨by decide, by decide, by decide⟩
  obtain ⟨h', ctx', hadd, hnot⟩ := @not_returns_of_head .top .atOneMegabyte _ _ _ 0 1 _ hl' hf ha rfl
  exact ⟨_, h', ctx', hl', hf, ha, by decide, hadd, hnot⟩

end Gubos.Vmm
