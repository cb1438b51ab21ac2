/-
An address space as a value, without pointers.

`vmm.c` keeps the free areas in a linked list and the allocations in a tree of linked nodes, and rewires both in place. What a call
does depends on the areas and the records only, not on where their cells are: a `SpaceValue` is a list of areas and a tree of
records, and each function of the VMM has a function on values that it follows, panic by panic. Nothing is assumed of the areas
here: wherever the code goes wrong, its value goes wrong in the same way.

- `SpaceValue.mapPages`, `SpaceValue.unmapPages`, `SpaceValue.findAllocation`, `newContext`: the functions on values;
- `removeFreeBlocks_follows`, `addFreeBlocks_follows`, `addAllocation_follows`: the parts;
- `map_follows`, `unmap_follows`, `find_follows`, `newContext_follows`: the calls.

The branch of `vmm_unmap_pages` that removes a node, which is taken where the number of pages equals the address, is left out: the
nodes it relinks keep wrong parent pointers, which are not part of a value.
-/
import Gubos.Core.Simulation
import Gubos.Core.TreeValue
import Gubos.Mm.CloneList

namespace Gubos.Vmm

open Gubos.Core Gubos.Paging

/-! ## Values -/

structure SpaceValue where
  freeBlocks : List Area
  allocations : BinaryTree VmmAllocation
deriving DecidableEq

section Code

variable (mi : KernelMeminfo)

/-- `remove_free_blocks`, at the area found: what is left of it, and the address -/
def cutArea (virtualAddr pageCount : ℕ) (b : Area) : Except Fault (List Area × ℕ) :=
  if b.pageCount = pageCount then .ok ([], virtualAddr)
  else if pageCount < b.pageCount then
    let pageOffset := if virtualAddr ≠ 0 then u32 (virtualAddr + 2 ^ 32 - b.virtualAddr) / pageSize else 0
    if u32 (b.pageCount + 2 ^ 32 - pageOffset) < pageCount then .error (.panic .outOfMemory)
    else if virtualAddr = 0 ∨ virtualAddr = b.virtualAddr then
      .ok ([⟨u32 (b.virtualAddr + pageCount * pageSize), b.pageCount - pageCount⟩], b.virtualAddr)
    else
      let newBlockPageOffset := u32 (pageOffset + pageCount)
      if newBlockPageOffset < b.pageCount then
        .ok ([⟨b.virtualAddr, pageOffset⟩,
          ⟨u32 (b.virtualAddr + newBlockPageOffset * pageSize), b.pageCount - newBlockPageOffset⟩], virtualAddr)
      else .ok ([⟨b.virtualAddr, b.pageCount - pageCount⟩], virtualAddr)
  else .ok ([b], virtualAddr)

/-- `remove_free_blocks` -/
def takeAreas (virtualAddr pageCount : ℕ) (isUserspace : Bool) (areas : List Area) : Except Fault (List Area × ℕ) :=
  if areas = [] then .error (.panic .noFreeBlocks)
  else
    match areas.dropWhile (fun b => !suits mi virtualAddr pageCount isUserspace b) with
    | [] => .error (.panic (.noConsecutivePages pageCount virtualAddr))
    | b :: rest => do
      let (left, addr) ← cutArea virtualAddr pageCount b
      .ok (areas.takeWhile (fun b => !suits mi virtualAddr pageCount isUserspace b) ++ left ++ rest, addr)

/-- `merge_or_insert_free_blocks`, at the area `b`, the last before the address; `rest` are the areas after it -/
def mergeArea (virtualAddr pageCount : ℕ) (b : Area) (rest : List Area) : List Area :=
  if isAddrInUserRange mi b.virtualAddr b.pageCount = isAddrInUserRange mi virtualAddr pageCount then
    b :: ⟨virtualAddr, pageCount⟩ :: rest
  else
    let blocksMerged : Bool := u32 (b.virtualAddr + pageCount * pageSize) = virtualAddr
    let b := if blocksMerged then ⟨b.virtualAddr, u32 (b.pageCount + pageCount)⟩ else b
    let kept := if blocksMerged then b :: rest else b :: ⟨virtualAddr, pageCount⟩ :: rest
    match rest with
    | [] => kept
    | next :: rest =>
      if u32 (b.virtualAddr + pageCount * pageSize) = next.virtualAddr then
        ⟨b.virtualAddr, u32 (b.pageCount + next.pageCount)⟩ :: rest
      else kept

/-- `add_free_blocks` where all areas are after the address -/
def putFront (virtualAddr pageCount : ℕ) : List Area → List Area
  | [] => [⟨virtualAddr, pageCount⟩]
  | b :: rest =>
    if u32 (virtualAddr + pageCount * pageSize) = b.virtualAddr then ⟨b.virtualAddr, u32 (b.pageCount + pageCount)⟩ :: rest
    else ⟨virtualAddr, pageCount⟩ :: b :: rest

/-- `add_free_blocks` -/
def putAreas (virtualAddr pageCount : ℕ) (areas : List Area) : List Area :=
  let before := areas.takeWhile fun b => b.virtualAddr < virtualAddr
  let after := areas.dropWhile fun b => b.virtualAddr < virtualAddr
  match before.getLast? with
  | none => putFront virtualAddr pageCount after
  | some b => before.dropLast ++ mergeArea mi virtualAddr pageCount b after

/-- `add_allocation` -/
def addRecord (a : VmmAllocation) : BinaryTree VmmAllocation → Except Fault (BinaryTree VmmAllocation)
  | .nil => .error .nullDereference
  | .node b l r =>
    if b.pageCount = 0 then .ok (.node a l r) else .ok (insertValue (insertDir a.virtualAddr) a (.node b l r))

/-- `vmm_map_pages` -/
def SpaceValue.mapPages (v : SpaceValue) (virtualAddr physicalAddr pageCount flags : ℕ) : Except Fault (SpaceValue × ℕ) :=
  if ¬ pagingIsAligned virtualAddr then .error (.panic (.mapUnaligned virtualAddr))
  else if ¬ pagingIsAligned physicalAddr then .error (.panic (.mapToUnaligned physicalAddr))
  else do
    let (areas, addr) ← takeAreas mi virtualAddr pageCount (flags &&& pageFlagUser ≠ 0) v.freeBlocks
    let records ← addRecord ⟨addr, physicalAddr, pageCount, flags⟩ v.allocations
    .ok (⟨areas, records⟩, addr)

/-- `vmm_unmap_pages`, less the branch that removes a node -/
def SpaceValue.unmapPages (v : SpaceValue) (virtualAddr pageCount : ℕ) : Except Fault SpaceValue :=
  if ¬ pagingIsAligned virtualAddr then .error (.panic (.unmapUnaligned virtualAddr))
  else if search (startDir virtualAddr) v.allocations = none then .error (.panic .allocationNotFound)
  else if pageCount < virtualAddr then
    .ok ⟨putAreas mi virtualAddr pageCount v.freeBlocks,
      changeFound (startDir virtualAddr) (fun a => shrunk a pageCount) v.allocations⟩
  else .error (.panic .unmapTooMuch)

/-- `vmm_find_allocation` -/
def SpaceValue.findAllocation (v : SpaceValue) (virtualAddr : ℕ) : VmmAllocation :=
  (search (findDir virtualAddr) v.allocations).getD ⟨0, 0, 0, 0⟩

/-- the loop of `vmm_new_context` over `ADDR_SPACE` -/
def SpaceValue.mapEntries : List AddrSpaceEntry → SpaceValue → Except Fault SpaceValue
  | [], v => .ok v
  | e :: es, v => do
    let (v, _) ← v.mapPages mi e.virtualStart e.physicalStart e.pageCount e.flags
    SpaceValue.mapEntries es v

/-- `vmm_new_context` -/
def newContext (addrSpace : List AddrSpaceEntry) : Except Fault SpaceValue :=
  let userPageCount := mi.higherHalfBase / pageSize
  let kernelPageCount := 2 ^ 32 / pageSize - userPageCount
  let free := putAreas mi mi.higherHalfBase kernelPageCount (putAreas mi 0 userPageCount [])
  SpaceValue.mapEntries mi addrSpace ⟨free, .node ⟨0, 0, 0, 0⟩ .nil .nil⟩

end Code

/-! ## Values in memory -/

/-- the pointers of a context, and the cells that they lead to -/
structure Member where
  ctx : VmmContext
  blocks : List (ℕ × Area)
  nodes : BinaryTree (ℕ × VmmAllocation)

def Member.value (m : Member) : SpaceValue := ⟨m.blocks.map Prod.snd, treeValue m.nodes⟩

def Member.own (m : Member) : List ℕ := Vmm.own m.blocks m.nodes

/-- the cells are in the heap -/
def Member.In (m : Member) (h : Heap) : Prop := Rep h m.ctx m.blocks m.nodes

/-- no space -/
def Member.none : Member := ⟨⟨0, 0⟩, [], .nil⟩

/-- a call on the space `m` in heap `h` leaves the space `m'` in heap `h'`, and nothing else is changed -/
structure Moves (h : Heap) (m : Member) (h' : Heap) (m' : Member) : Prop where
  rep : m'.In h'
  frame : Frame m.own h h' m'.own
  nodes : ∀ p ∉ ptrs (cells m'.nodes), h'.nodes p = h.nodes p
  grows : ∀ p ∈ ptrs (cells m.nodes), p ∈ ptrs (cells m'.nodes)

/-- `kmalloc` has answered NULL, and the code goes on to write there -/
def OutOfHeap (e : Fault) : Prop := e = .nullDereference

section Moves

variable {A : Allocator} {mi : KernelMeminfo} {h h' h'' : Heap} {ctx ctx' : VmmContext} {m m' m'' : Member}
  {l l' l₁ l₂ : List (ℕ × Area)} {t : BinaryTree (ℕ × VmmAllocation)} {c d : ℕ × Area} {va n x : ℕ} {user : Bool}

theorem Moves.refl (hm : m.In h) : Moves h m h m := ⟨hm, .refl fun _ hp => hp, fun _ _ => rfl, fun _ hp => hp⟩

theorem Moves.trans (h₁ : Moves h m h' m') (h₂ : Moves h' m' h'' m'') : Moves h m h'' m'' where
  rep := h₂.rep
  frame := h₁.frame.trans h₂.frame
  nodes := by
    intro p hp
    rw [h₂.nodes p hp, h₁.nodes p fun hp' => hp (h₂.grows p hp')]
  grows := fun p hp => h₂.grows p (h₁.grows p hp)

/-- a change of the free list -/
theorem moves_list (hr : Rep h' ctx' l' t ∧ Frame (own l t) h h' (own l' t)) (hnodes : h'.nodes = h.nodes) :
    Moves h ⟨ctx, l, t⟩ h' ⟨ctx', l', t⟩ :=
  ⟨hr.1, hr.2, fun p _ => congrFun hnodes p, fun _ hp => hp⟩

theorem newBlock_follows (b : VmmFreeBlocks) :
    Follows OutOfHeap (fun x (_ : Unit) => h.newBlock A b = .ok x) (h.newBlock A b) (.ok ()) := by
  cases hnew : h.newBlock A b with
  | ok x => exact .ok rfl
  | error e =>
    unfold Heap.newBlock at hnew
    dsimp only at hnew
    split_ifs at hnew
    cases hnew
    exact .fails _ rfl

theorem unlinkBlock_nodes (p prev : ℕ) : (unlinkBlock h ctx p prev).1.nodes = h.nodes := by
  unfold unlinkBlock
  dsimp only
  split_ifs
  · rfl
  · rfl

/-! ## The free list -/

/-- **Taking pages**, at the block found. -/
theorem takeFreeBlocks_follows (hr : Rep h ctx (l₁ ++ c :: l₂) t) :
    Follows OutOfHeap (fun x y => x.2.2 = y.2 ∧ ∃ k, k.map Prod.snd = y.1 ∧
        Moves h ⟨ctx, l₁ ++ c :: l₂, t⟩ x.1 ⟨x.2.1, l₁ ++ k ++ l₂, t⟩)
      (takeFreeBlocks A h ctx va n c.1 (lastPtr 0 l₁)) (cutArea va n c.2) := by
  have hb := hr.block_eq
  unfold takeFreeBlocks cutArea
  dsimp only
  rw [hb]
  generalize (if va ≠ 0 then u32 (va + 2 ^ 32 - c.2.virtualAddr) / pageSize else 0) = pageOffset
  split_ifs with h1 h2 h3 h4 h5
  · refine .ok ⟨rfl, [], rfl, moves_list ?_ (unlinkBlock_nodes _ _)⟩
    rw [List.append_nil]
    exact hr.unlink_frame
  · exact .error _
  · refine .ok ⟨rfl, [(c.1, _)], rfl, moves_list ?_ rfl⟩
    rw [List.append_assoc]
    exact hr.setArea_frame
  · refine (newBlock_follows _).bind_left ?_
    rintro ⟨h₁, p⟩ hnew
    have hsame := newBlock_area hr hnew
    dsimp only at hsame ⊢
    rw [hsame]
    have hnodes : h₁.nodes = h.nodes := newBlock_nodes hnew
    refine .ok ⟨rfl, [(c.1, _), (p, _)], rfl, moves_list ?_ hnodes⟩
    rw [List.append_assoc]
    exact hr.insertAfter_frame hnew _
  · refine .ok ⟨rfl, [(c.1, _)], rfl, moves_list ?_ rfl⟩
    rw [List.append_assoc]
    exact hr.setArea_frame
  · refine .ok ⟨rfl, [c], rfl, ?_⟩
    rw [List.append_assoc]
    exact .refl hr

theorem Rep.list_length_lt (hr : Rep h ctx l t) : l.length < rounds := (@Rep.freeList h ctx l t ctx.allocations hr).length_lt

theorem Rep.list_nil_iff (hr : Rep h ctx l t) : ctx.freeBlocks = 0 ↔ l.map Prod.snd = [] := by
  rw [List.map_eq_nil_iff]
  cases l with
  | nil => exact iff_of_true hr.list rfl
  | cons c l => exact iff_of_false (hr.list.1 ▸ hr.list.2.1) (List.cons_ne_nil _ _)

/-- **Taking pages.** -/
theorem removeFreeBlocks_follows (hr : Rep h ctx l t) :
    Follows OutOfHeap (fun x y => x.2.2 = y.2 ∧ ∃ l', l'.map Prod.snd = y.1 ∧ Moves h ⟨ctx, l, t⟩ x.1 ⟨x.2.1, l', t⟩)
      (removeFreeBlocks A mi h ctx va n user) (takeAreas mi va n user (l.map Prod.snd)) := by
  unfold removeFreeBlocks takeAreas
  by_cases h0 : ctx.freeBlocks = 0
  · rw [if_pos h0, if_pos (hr.list_nil_iff.1 h0)]
    exact .error _
  rw [if_neg h0, if_neg fun he => h0 (hr.list_nil_iff.2 he)]
  obtain ⟨⟨q, prev⟩, hscan⟩ : ∃ r, scan h.block (suits mi va n user) rounds ctx.freeBlocks 0 = .ok r :=
    scan_returns hr.list hr.list_length_lt
  obtain ⟨l₁, l₂, rfl, hpassed, rfl, hq⟩ := scan_spec hr.list hscan
  have hpass : ∀ b ∈ l₁.map Prod.snd, (!suits mi va n user b) = true := by
    intro b hb
    obtain ⟨c, hc, rfl⟩ := List.mem_map.1 hb
    rw [hpassed c hc]
    rfl
  unfold findFreeBlocks
  rw [hscan, ok_bind, List.map_append, List.dropWhile_append_of_pos hpass, List.takeWhile_append_of_pos hpass]
  dsimp only
  rcases hq with ⟨rfl, rfl⟩ | ⟨c, l₃, rfl, rfl, hstop⟩
  · exact .error _
  · have hc0 : c.1 ≠ 0 := fun hc => hr.list.ne_zero (by simp [hc])
    rw [if_neg hc0, List.map_cons, List.dropWhile_cons_of_neg (by simp [hstop]), List.takeWhile_cons_of_neg (by simp [hstop]),
      List.append_nil]
    refine (takeFreeBlocks_follows hr).bind_right ?_
    rintro ⟨h', ctx', r⟩ ⟨left, r'⟩ ⟨hr', k, hk, hmoves⟩
    refine .ok ⟨hr', l₁ ++ k ++ l₃, ?_, hmoves⟩
    rw [List.map_append, List.map_append, hk]

/-- a new block after `d` -/
theorem insertFreeBlocks_follows (hr : Rep h ctx (l₁ ++ d :: l₂) t) :
    Follows OutOfHeap (fun x y => ∃ k, k.map Prod.snd = y ∧ Moves h ⟨ctx, l₁ ++ d :: l₂, t⟩ x ⟨ctx, l₁ ++ k, t⟩)
      (insertFreeBlocks A h d.1 va n) (.ok (d.2 :: ⟨va, n⟩ :: l₂.map Prod.snd)) := by
  refine (newBlock_follows _).bind_left ?_
  rintro ⟨h₁, p⟩ hnew
  have hnodes : h₁.nodes = h.nodes := newBlock_nodes hnew
  have hsame := newBlock_area hr hnew
  have hins := hr.insertAfter_frame hnew d.2
  rw [← hsame] at hins
  refine .ok ⟨(d.1, (h₁.blocks d.1).toArea) :: (p, ⟨va, n⟩) :: l₂, ?_, moves_list hins hnodes⟩
  rw [List.map_cons, List.map_cons, hsame]

/-- the block after `d` -/
theorem Rep.next_head (hr : Rep h ctx (l₁ ++ d :: l₂) t) : (h.blocks d.1).next = (l₂.head?.map Prod.fst).getD 0 := by
  obtain ⟨_, _, rfl, _, _, hl₂⟩ := seg_append.1 hr.list
  cases l₂ with
  | nil => exact hl₂
  | cons c l₃ => exact hl₂.1

/-- **Returning pages**, at the last block before them. -/
theorem mergeOrInsertFreeBlocks_follows (hr : Rep h ctx (l₁ ++ d :: l₂) t) :
    Follows OutOfHeap (fun x y => ∃ k, k.map Prod.snd = y ∧ Moves h ⟨ctx, l₁ ++ d :: l₂, t⟩ x ⟨ctx, l₁ ++ k, t⟩)
      (mergeOrInsertFreeBlocks A mi h d.1 va n) (.ok (mergeArea mi va n d.2 (l₂.map Prod.snd))) := by
  have hd0 : d.1 ≠ 0 := fun h0 => hr.list.ne_zero (by simp [h0])
  have hb := hr.block_eq
  unfold mergeOrInsertFreeBlocks mergeArea
  rw [if_pos hd0]
  dsimp only
  rw [hb]
  by_cases hmode : isAddrInUserRange mi d.2.virtualAddr d.2.pageCount = isAddrInUserRange mi va n
  · rw [if_pos hmode, if_pos hmode]
    exact insertFreeBlocks_follows hr
  rw [if_neg hmode, if_neg hmode]
  -- the block as it is after the first merge, if there was one
  generalize hmerged : decide (u32 (d.2.virtualAddr + n * pageSize) = va) = merged
  generalize he : (if merged = true then (⟨d.2.virtualAddr, u32 (d.2.pageCount + n)⟩ : Area) else d.2) = e
  obtain ⟨h₁, hh₁, hm₁⟩ : ∃ h₁, h₁ = (if merged = true then
        h.setBlock d.1 ⟨⟨d.2.virtualAddr, u32 (d.2.pageCount + n)⟩, (h.blocks d.1).next⟩ else h) ∧
      Moves h ⟨ctx, l₁ ++ d :: l₂, t⟩ h₁ ⟨ctx, l₁ ++ (d.1, e) :: l₂, t⟩ := by
    refine ⟨_, rfl, ?_⟩
    subst he
    split_ifs
    · exact moves_list hr.setArea_frame rfl
    · exact .refl hr
  rw [← hh₁]
  have hr₁ : Rep h₁ ctx (l₁ ++ (d.1, e) :: l₂) t := hm₁.rep
  have hb₁ : (h₁.blocks d.1).toArea = e := hr₁.block_eq
  rw [hb₁]
  have hkept : Follows OutOfHeap (fun x y => ∃ k, k.map Prod.snd = y ∧ Moves h ⟨ctx, l₁ ++ d :: l₂, t⟩ x ⟨ctx, l₁ ++ k, t⟩)
      (if merged = true then .ok h₁ else insertFreeBlocks A h₁ d.1 va n)
      (.ok (if merged = true then e :: l₂.map Prod.snd else e :: ⟨va, n⟩ :: l₂.map Prod.snd)) := by
    split_ifs
    · exact .ok ⟨(d.1, e) :: l₂, rfl, hm₁⟩
    · refine (insertFreeBlocks_follows hr₁).mono ?_
      rintro h₂ y ⟨k, hk, hm₂⟩
      exact ⟨k, hk, hm₁.trans hm₂⟩
  have hnext := hr₁.next_head
  cases l₂ with
  | nil =>
    rw [if_neg fun hn => hn.1 hnext]
    exact hkept
  | cons c l₃ =>
    have hnext : (h₁.blocks d.1).next = c.1 := hnext
    have hc0 : c.1 ≠ 0 := fun h0 => hr.list.ne_zero (by simp [h0])
    have hc : (h₁.blocks c.1).toArea = c.2 := hr₁.list.contents c (by simp)
    rw [hnext, hc, List.map_cons]
    dsimp only
    by_cases hmeets : u32 (e.virtualAddr + n * pageSize) = c.2.virtualAddr
    · rw [if_pos ⟨hc0, hmeets⟩, if_pos hmeets]
      exact .ok ⟨(d.1, _) :: l₃, rfl, hm₁.trans (moves_list hr₁.absorb_frame rfl)⟩
    · rw [if_neg fun hn => hmeets hn.2, if_neg hmeets]
      exact hkept

/-- a new block in front of the list -/
theorem pushFront_follows {a : Area} (hr : Rep h ctx l t) :
    Follows OutOfHeap (fun x y => ∃ l', l'.map Prod.snd = y ∧ Moves h ⟨ctx, l, t⟩ x.1 ⟨x.2, l', t⟩)
      (h.newBlock A ⟨a, ctx.freeBlocks⟩ >>= fun x => .ok (x.1, { ctx with freeBlocks := x.2 })) (.ok (a :: l.map Prod.snd)) := by
  refine (newBlock_follows _).bind_left ?_
  rintro ⟨h₁, p⟩ hnew
  exact .ok ⟨(p, a) :: l, rfl, moves_list ⟨hr.pushFront hnew, frame_newBlock hnew⟩ (newBlock_nodes hnew)⟩

/-- **Returning pages.** -/
theorem addFreeBlocks_follows (hr : Rep h ctx l t) :
    Follows OutOfHeap (fun x y => ∃ l', l'.map Prod.snd = y ∧ Moves h ⟨ctx, l, t⟩ x.1 ⟨x.2, l', t⟩)
      (addFreeBlocks A mi h ctx va n) (.ok (putAreas mi va n (l.map Prod.snd))) := by
  obtain ⟨⟨q, prev⟩, hseek⟩ : ∃ r, seekFreeBlocks h ctx va = .ok r := scan_returns hr.list hr.list_length_lt
  obtain ⟨hq, rfl⟩ := seekFreeBlocks_spec hr.list hseek
  have hbefore : (l.map Prod.snd).takeWhile (fun b : Area => decide (b.virtualAddr < va)) = (before va l).map Prod.snd :=
    List.takeWhile_map
  have hafter : (l.map Prod.snd).dropWhile (fun b : Area => decide (b.virtualAddr < va)) = (after va l).map Prod.snd :=
    List.dropWhile_map
  unfold addFreeBlocks putAreas
  rw [hseek, ok_bind, hbefore, hafter]
  have hsplit := (before_append_after va l).symm
  generalize before va l = l₁ at hsplit ⊢
  generalize after va l = l₂ at hsplit hq ⊢
  rw [hsplit] at hr ⊢
  unfold putFreeBlocks
  dsimp only
  rcases List.eq_nil_or_concat' l₁ with rfl | ⟨l₀, d, rfl⟩
  · rw [lastPtr_nil, if_neg (not_not.2 rfl)]
    have hhead : ctx.freeBlocks = q := by
      cases l₂ with
      | nil => exact (hr.list : ctx.freeBlocks = 0).trans hq.symm
      | cons c l₂ => exact hr.list.1.trans hq.symm
    subst hhead
    have hfront := pushFront_follows (A := A) (a := ⟨va, n⟩) hr
    cases l₂ with
    | nil =>
      rw [if_neg fun hn => hn.1 hr.list]
      exact hfront
    | cons c l₂ =>
      have hc : ctx.freeBlocks = c.1 := hr.list.1
      have hc0 : c.1 ≠ 0 := hr.list.2.1
      have harea : (h.blocks c.1).toArea = c.2 := @Rep.block_eq h ctx [] l₂ t c hr
      rw [hc] at hfront ⊢
      rw [harea]
      simp only [List.map_nil, List.getLast?_nil, List.map_cons, putFront]
      split_ifs with h1 h2 h2
      · exact .ok ⟨(c.1, _) :: l₂, rfl, moves_list (@Rep.setArea_frame h ctx [] l₂ t c _ hr) rfl⟩
      · exact absurd h1.2 h2
      · exact absurd ⟨hc0, h2⟩ h1
      · exact hfront
  · have hd0 : d.1 ≠ 0 := fun h0 => hr.list.ne_zero (by simp [h0])
    rw [lastPtr_snoc, if_pos hd0]
    simp only [List.map_append, List.map_cons, List.map_nil, List.getLast?_concat, List.dropLast_concat]
    rw [List.append_assoc, List.singleton_append] at hr ⊢
    refine (mergeOrInsertFreeBlocks_follows hr).bind_left ?_
    rintro h₁ ⟨k, hk, hmoves⟩
    refine .ok ⟨l₀ ++ k, ?_, hmoves⟩
    rw [List.map_append, hk]

end Moves

/-! ## The allocation tree -/

section Tree

variable {A : Allocator} {mi : KernelMeminfo} {h h' : Heap} {ctx ctx' : VmmContext} {l : List (ℕ × Area)}
  {t t' : BinaryTree (ℕ × VmmAllocation)} {a : VmmAllocation} {va pa n flags x : ℕ} {es : List AddrSpaceEntry} {m : Member}

theorem newNode_follows (k : VmmAllocationTree) :
    Follows OutOfHeap (fun x (_ : Unit) => h.newNode A k = .ok x) (h.newNode A k) (.ok ()) := by
  cases hnew : h.newNode A k with
  | ok x => exact .ok rfl
  | error e =>
    unfold Heap.newNode at hnew
    dsimp only at hnew
    split_ifs at hnew
    cases hnew
    exact .fails _ rfl

/-- `add_allocation` returns, unless there is no block for a new node -/
theorem addAllocation_ends (hr : Rep h ctx l t) (ht : t ≠ .nil) :
    Follows OutOfHeap (fun x (_ : Unit) => addAllocation A h ctx a = .ok x) (addAllocation A h ctx a) (.ok ()) := by
  have hroot : ctx.allocations ≠ 0 := by
    cases t with
    | nil => exact absurd rfl ht
    | node c tl tr => exact hr.tree.1 ▸ hr.tree.2.1
  unfold addAllocation
  dsimp only
  rw [if_neg hroot]
  by_cases hempty : (h.nodes ctx.allocations).alloc.pageCount = 0
  · rw [if_pos hempty]
    exact .ok rfl
  rw [if_neg hempty]
  obtain ⟨pr, hw⟩ : ∃ pr, Core.walk h.node (insertDir a.virtualAddr) rounds ctx.allocations 0 =
      .ok (((descend (insertDir a.virtualAddr) t).map Prod.fst).getD 0, pr) := walk_eq hr.tree hr.length_lt
  rw [descend_none fun d _ => insertDir_ne_stop _ _] at hw
  have hpr : pr ≠ 0 := by
    rcases walk_prev_mem hr.tree hw with ⟨hnil, _⟩ | hmem
    · exact absurd hnil ht
    · exact fun hz => hr.tree.ne_zero (hz ▸ hmem)
  rw [hw, ok_bind]
  dsimp only
  rw [if_neg hpr]
  refine (newNode_follows _).bind_left ?_
  rintro ⟨h₁, p⟩ hnew
  rw [hnew, ok_bind]
  dsimp only
  split_ifs
  · exact .ok rfl
  · exact .ok rfl

/-- nodes that are not in the new tree are as they were -/
theorem addAllocation_nodes (hr : Rep h ctx l t) (hok : addAllocation A h ctx a = .ok h') (hr' : Rep h' ctx l t')
    (hcells : ∀ p ∈ ptrs (cells t), p ∈ ptrs (cells t')) : ∀ p ∉ ptrs (cells t'), h'.nodes p = h.nodes p := by
  intro p hp
  have hpt : p ∉ ptrs (cells t) := fun hm => hp (hcells p hm)
  obtain ⟨hroot, ⟨_, rfl⟩ | ⟨_, prev, h₁, q, hw, hprev, hnew, rfl⟩⟩ := addAllocation_cases hr hok
  · exact setNode_nodes_of_ne _ fun he => hpt (he ▸ hr.tree.root_mem hroot)
  · have hleaf := hr.addLeaf hroot hw hnew
    obtain rfl := hr'.tree.unique hleaf.tree
    have hq : q ∈ ptrs (cells (insertLeaf (insertDir a.virtualAddr) (q, a) t)) :=
      mem_ptrs ((cells_insertLeaf _ (q, a) t).mem_iff.2 List.mem_cons_self)
    have hmem : prev ∈ ptrs (cells t) := (walk_prev_mem hr.tree hw).resolve_left fun hn => hprev hn.2
    have hne : p ≠ prev := fun he => hpt (he ▸ hmem)
    rw [setNode_nodes_of_ne _ hne]
    exact (newNode_ok hnew).2.2.2.2.1 p fun he => hp (he ▸ hq)

/-- the new tree has the records that `addRecord` gives -/
theorem Grown.value (hg : Grown t a t') (ht : t ≠ .nil) : addRecord a (treeValue t) = .ok (treeValue t') := by
  cases hg with
  | root hc h0 =>
    subst hc
    rw [treeValue_node, addRecord, if_pos h0]
    rfl
  | leaf _ hne =>
    rw [insertLeaf_value]
    cases t with
    | nil => exact absurd rfl ht
    | node c tl tr =>
      rw [treeValue_node, addRecord, if_neg (hne c tl tr rfl)]

theorem Grown.cells_subset (hg : Grown t a t') : ∀ p ∈ ptrs (cells t), p ∈ ptrs (cells t') := by
  intro p hp
  cases hg with
  | root hc _ =>
    subst hc
    exact hp
  | @leaf q _ _ =>
    have hperm : (ptrs (cells (insertLeaf (insertDir a.virtualAddr) (q, a) t))).Perm (q :: ptrs (cells t)) :=
      (cells_insertLeaf _ (q, a) t).map Prod.fst
    exact hperm.mem_iff.2 (List.mem_cons_of_mem _ hp)

/-- **Adding a record.** -/
theorem addAllocation_follows (hr : Rep h ctx l t) :
    Follows OutOfHeap (fun x y => ∃ t', treeValue t' = y ∧ Moves h ⟨ctx, l, t⟩ x ⟨ctx, l, t'⟩)
      (addAllocation A h ctx a) (addRecord a (treeValue t)) := by
  by_cases ht : t = .nil
  · subst ht
    have hroot : ctx.allocations = 0 := hr.tree
    unfold addAllocation
    dsimp only
    rw [if_pos hroot]
    exact .error _
  · have hends := addAllocation_ends (A := A) (a := a) hr ht
    generalize hadd : addAllocation A h ctx a = result at hends ⊢
    cases hends with
    | fails _ he => exact .fails _ he
    | @ok h' _ _ =>
      obtain ⟨t', hr', hgrown, hframe⟩ := addAllocation_spec hr hadd
      rw [hgrown.value ht]
      exact .ok ⟨t', rfl, hr', hframe, addAllocation_nodes hr hadd hr' hgrown.cells_subset, hgrown.cells_subset⟩

/-! ## The calls -/

/-- **Mapping.** -/
theorem map_follows (hr : Rep h ctx l t) :
    Follows OutOfHeap (fun x y => x.2.2 = y.2 ∧ ∃ m, m.ctx = x.2.1 ∧ m.value = y.1 ∧ Moves h ⟨ctx, l, t⟩ x.1 m)
      (vmmMapPages A mi h ctx va pa n flags)
      (SpaceValue.mapPages mi ⟨l.map Prod.snd, treeValue t⟩ va pa n flags) := by
  unfold vmmMapPages SpaceValue.mapPages
  dsimp only
  by_cases hva : ¬ pagingIsAligned va = true
  · rw [if_pos hva, if_pos hva]
    exact .error _
  rw [if_neg hva, if_neg hva]
  by_cases hpa : ¬ pagingIsAligned pa = true
  · rw [if_pos hpa, if_pos hpa]
    exact .error _
  rw [if_neg hpa, if_neg hpa]
  by_cases hnull : ctx.freeBlocks = 0
  · -- the check is repeated in `remove_free_blocks`
    rw [if_pos hnull, takeAreas, if_pos (hr.list_nil_iff.1 hnull)]
    exact .error _
  rw [if_neg hnull]
  refine (removeFreeBlocks_follows hr).bind ?_
  rintro ⟨h₁, ctx₁, r⟩ ⟨areas, r'⟩ ⟨hrr, l', hl', hm₁⟩
  dsimp only at hrr hl' hm₁ ⊢
  subst hrr hl'
  refine (addAllocation_follows hm₁.rep).bind ?_
  rintro h₂ records ⟨t', ht', hm₂⟩
  subst ht'
  exact .ok ⟨rfl, ⟨ctx₁, l', t'⟩, rfl, rfl, hm₁.trans hm₂⟩

/-- **Looking up.** -/
theorem find_follows (hr : Rep h ctx l t) :
    vmmFindAllocation h ctx x = .ok (SpaceValue.findAllocation ⟨l.map Prod.snd, treeValue t⟩ x) := by
  rw [vmmFindAllocation_eq hr]
  unfold SpaceValue.findAllocation
  rw [descend_value]
  cases descend (findDir x) t with
  | none => rfl
  | some c => rfl

/-- **Unmapping.** -/
theorem unmap_follows (hr : Rep h ctx l t) (hne : n ≠ va) :
    Follows OutOfHeap (fun x y => ∃ m, m.ctx = x.2 ∧ m.value = y ∧ Moves h ⟨ctx, l, t⟩ x.1 m)
      (vmmUnmapPages A mi h ctx va n) (SpaceValue.unmapPages mi ⟨l.map Prod.snd, treeValue t⟩ va n) := by
  unfold vmmUnmapPages SpaceValue.unmapPages
  dsimp only
  by_cases hva : ¬ pagingIsAligned va = true
  · rw [if_pos hva, if_pos hva]
    exact .error _
  rw [if_neg hva, if_neg hva]
  refine (addFreeBlocks_follows hr).bind_left ?_
  rintro ⟨h₁, ctx₁⟩ ⟨l', hl', hm₁⟩
  have hr₁ : Rep h₁ ctx₁ l' t := hm₁.rep
  obtain ⟨pr, hwalk⟩ : ∃ pr, seekAllocation h₁ ctx₁ va = .ok (((descend (startDir va) t).map Prod.fst).getD 0, pr) :=
    walk_eq hr₁.tree hr₁.length_lt
  dsimp only
  rw [hwalk, ok_bind, descend_value]
  cases hfound : descend (startDir va) t with
  | none => exact .error _
  | some c =>
    obtain ⟨hc, hstop⟩ := descend_some hfound
    have hc0 : c.1 ≠ 0 := fun h0 => hr₁.tree.ne_zero (h0 ▸ mem_ptrs hc)
    have hrecord : (h₁.nodes c.1).alloc = c.2 := hr₁.tree.contents c hc
    have hcva : c.2.virtualAddr = va := startDir_stop.1 hstop
    simp only [Option.map_some, Option.getD_some, if_neg hc0, reduceCtorEq, if_false]
    unfold shrinkAllocation
    dsimp only
    rw [hrecord, hcva]
    by_cases hlt : n < va
    · rw [if_pos hlt, if_pos hlt]
      have hown : own l' (t.map (setCell c.1 (shrunk c.2 n))) = own l' t := by
        unfold own
        rw [cells_map, ptrs_map_setCell]
      have hcells : ptrs (cells (t.map (setCell c.1 (shrunk c.2 n)))) = ptrs (cells t) := by
        rw [cells_map, ptrs_map_setCell]
      have hm₂ : Moves h₁ ⟨ctx₁, l', t⟩ (h₁.setNode c.1 { h₁.nodes c.1 with alloc := shrunk c.2 n })
          ⟨ctx₁, l', t.map (setCell c.1 (shrunk c.2 n))⟩ := by
        refine ⟨hr₁.setRecord, ?_, fun p hp => ?_, fun p hp => hcells.symm ▸ hp⟩
        · unfold Member.own
          dsimp only
          rw [hown]
          exact frame_setNode (List.mem_append_right _ (mem_ptrs hc))
        · refine setNode_nodes_of_ne _ fun he => hp ?_
          rw [hcells, he]
          exact mem_ptrs hc
      have hshrunk : (⟨u32 (va + pageSize * n), c.2.physicalAddr, u32 (c.2.pageCount + 2 ^ 32 - n), c.2.flags⟩ : VmmAllocation) =
          shrunk c.2 n := by
        unfold shrunk
        rw [hcva]
      rw [hshrunk]
      refine .ok ⟨_, rfl, ?_, hm₁.trans hm₂⟩
      have hchanged := setCell_value (f := fun a => shrunk a n) hr₁.nodup_tree hfound
      unfold Member.value
      dsimp only
      rw [hl', hchanged]
    · rw [if_neg hlt, if_neg hlt, if_neg hne]
      exact .error _

/-- the loop over `ADDR_SPACE` -/
theorem mapAddrSpace_follows (hm : m.In h) :
    Follows OutOfHeap (fun x y => ∃ m', m'.ctx = x.2 ∧ m'.value = y ∧ Moves h m x.1 m')
      (mapAddrSpace A mi es h m.ctx) (SpaceValue.mapEntries mi es m.value) := by
  induction es generalizing h m with
  | nil => exact .ok ⟨m, rfl, rfl, .refl hm⟩
  | cons e es ih =>
    refine (map_follows hm).bind ?_
    rintro ⟨h₁, ctx₁, r⟩ ⟨v, r'⟩ ⟨_, m₁, hctx, hv, hm₁⟩
    dsimp only at hctx hv hm₁ ⊢
    subst hctx hv
    refine (ih hm₁.rep).mono ?_
    rintro ⟨h₂, ctx₂⟩ v₂ ⟨m₂, hctx₂, hv₂, hm₂⟩
    exact ⟨m₂, hctx₂, hv₂, hm₁.trans hm₂⟩

/-- the first node of a new space -/
theorem newNode_moves {r : ℕ} (hnew : h.newNode A ⟨⟨0, 0, 0, 0⟩, 0, 0, 0⟩ = .ok (h', r)) :
    Moves h .none h' ⟨⟨r, 0⟩, [], .node (r, ⟨0, 0, 0, 0⟩) .nil .nil⟩ := by
  have hempty : createEmptyCtx A h = .ok (h', ⟨r, 0⟩) := bind_ok.2 ⟨_, hnew, rfl⟩
  obtain ⟨_, hrep⟩ := createEmptyCtx_rep hempty
  obtain rfl : _ = r := hrep.tree.1.symm
  refine ⟨hrep, frame_newNode hnew, fun p hp => ?_, fun p hp => absurd hp List.not_mem_nil⟩
  refine (newNode_ok hnew).2.2.2.2.1 p fun he => hp ?_
  rw [he]
  exact List.mem_cons_self

/-- **A new space.** -/
theorem newContext_follows :
    Follows OutOfHeap (fun x y => ∃ m, m.ctx = x.2 ∧ m.value = y ∧ Moves h .none x.1 m)
      (vmmNewContext A mi es h) (newContext mi es) := by
  unfold vmmNewContext createEmptyCtx newContext
  dsimp only
  rw [bind_assoc]
  refine (newNode_follows _).bind_left ?_
  rintro ⟨h₁, r⟩ hnew
  have hm₁ := newNode_moves hnew
  rw [ok_bind]
  refine (addFreeBlocks_follows hm₁.rep).bind_left ?_
  rintro ⟨h₂, ctx₂⟩ ⟨l₂, hl₂, hm₂⟩
  refine (addFreeBlocks_follows hm₂.rep).bind_left ?_
  rintro ⟨h₃, ctx₃⟩ ⟨l₃, hl₃, hm₃⟩
  have hvalue : (⟨ctx₃, l₃, .node (r, ⟨0, 0, 0, 0⟩) .nil .nil⟩ : Member).value =
      ⟨putAreas mi mi.higherHalfBase (2 ^ 32 / pageSize - mi.higherHalfBase / pageSize)
        (putAreas mi 0 (mi.higherHalfBase / pageSize) []), .node ⟨0, 0, 0, 0⟩ .nil .nil⟩ := by
    unfold Member.value
    dsimp only
    rw [hl₃, hl₂]
    rfl
  rw [← hvalue]
  refine (mapAddrSpace_follows hm₃.rep).mono ?_
  rintro ⟨h₄, ctx₄⟩ v ⟨m₄, hctx, hv, hm₄⟩
  exact ⟨m₄, hctx, hv, ((hm₁.trans hm₂).trans hm₃).trans hm₄⟩

end Tree

end Gubos.Vmm
