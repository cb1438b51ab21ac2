/-
Cloning a free list (`clone_free_blocks`, `vmm_clone_context` in `mm/vmm.c`).

The loop asks for the block of the next node at the end of each round, before it looks whether there is a next node. So the last
round asks for one block too many: it is written by nobody and linked nowhere.

- `copyList`: the nodes of the copy in the blocks that `kmalloc` hands out, and the block that is left over;
- `cloneFreeBlocksLoop_spec`: what the loop leaves, by induction on the rest of the list;
- `clone_without_waste_iff`: the clone is a copy in new blocks and nothing else is handed out, exactly if the list is empty, or if
  the heap is used up by the copy; wherever the heap has a block more, that one is lost;
- `cloneContext_loses_block`: the block that is lost is in neither of the two contexts;
- `clone_loses_block`: a list of one block.
-/
import Gubos.Mm.CloneTree
import Gubos.Mm.FreeExact

namespace Gubos.Vmm

open Gubos.Core Gubos.Paging

/-! ## The code -/

/-- `kmalloc` of a free block, which may be NULL -/
def Heap.kmallocBlock (A : Allocator) (h : Heap) : Heap × ℕ :=
  let (p, arena) := h.arena.alloc A
  ({ h with arena := arena }, p)

/-- the loop of `clone_free_blocks` -/
def cloneFreeBlocksLoop (A : Allocator) : ℕ → Heap → ℕ → ℕ → ℕ → Except Fault Heap
  | 0, _, _, _, _ => .error .diverges
  | fuel + 1, h, origFreeBlocks, prev, current =>
    if origFreeBlocks ≠ 0 then
      let h := if prev ≠ 0 then h.setBlock prev { h.blocks prev with next := current } else h
      if current = 0 then .error .nullDereference
      else
        let h := h.setBlock current ⟨(h.blocks origFreeBlocks).toArea, 0⟩
        let (h, next) := h.kmallocBlock A
        cloneFreeBlocksLoop A fuel h (h.blocks origFreeBlocks).next current next
    else .ok h

/-- `clone_free_blocks` -/
def cloneFreeBlocks (A : Allocator) (h : Heap) (origFreeBlocks : ℕ) : Except Fault (Heap × ℕ) :=
  if origFreeBlocks = 0 then .ok (h, 0)
  else do
    let (h, freeBlocks) := h.kmallocBlock A
    let h ← cloneFreeBlocksLoop A rounds h origFreeBlocks 0 freeBlocks
    .ok (h, freeBlocks)

/-- `vmm_clone_context` -/
def vmmCloneContext (A : Allocator) (h : Heap) (origVmmContext : VmmContext) : Except Fault (Heap × VmmContext) := do
  let (h, freeBlocks) ← cloneFreeBlocks A h origVmmContext.freeBlocks
  let (h, allocations) ← cloneAllocations A h origVmmContext.allocations
  .ok (h, ⟨allocations, freeBlocks⟩)

/-! ## The nodes of the copy -/

/-- the areas of a list in the block `p` and the blocks that are handed out after it; then the block that is left over, and the
arena after that -/
def copyList (A : Allocator) : ℕ → List (ℕ × Area) → Arena → List (ℕ × Area) × ℕ × Arena
  | p, [], a => ([], p, a)
  | p, c :: l, a =>
    let (q, a) := a.alloc A
    let (l', rest) := copyList A q l a
    ((p, c.2) :: l', rest)

section Copy

variable {A : Allocator} {a : Arena} {l : List (ℕ × Area)} {p : ℕ}

theorem copyList_areas : (copyList A p l a).1.map Prod.snd = l.map Prod.snd := by
  induction l generalizing p a with
  | nil => rfl
  | cons c l ih => simp only [copyList, List.map_cons, ih]

/-- the blocks of the copy and the one that is left over are the answers of the heap -/
theorem copyList_answers : p :: a.answers A l.length = ptrs (copyList A p l a).1 ++ [(copyList A p l a).2.1] := by
  induction l generalizing p a with
  | nil => rfl
  | cons c l ih => simp only [copyList, Arena.answers, List.length_cons, ptrs_cons, List.cons_append, ih]

/-- nothing else is handed out -/
theorem copyList_live (h0 : 0 ∉ ptrs (copyList A p l a).1) :
    (Arena.given p ++ (copyList A p l a).2.2.live).Perm
      (Arena.given (copyList A p l a).2.1 ++ (ptrs (copyList A p l a).1 ++ a.live)) := by
  induction l generalizing p a with
  | nil => exact List.Perm.refl _
  | cons c l ih =>
    simp only [copyList, ptrs_cons, List.mem_cons, not_or] at h0 ⊢
    have hp : Arena.given p = [p] := if_neg (Ne.symm h0.1)
    have hrest := ih h0.2
    rw [a.alloc_live_eq A] at hrest
    rw [hp]
    -- the block of the next node is handed out in this round, and given to the next
    refine List.perm_iff_count.2 fun x => ?_
    have hcount := List.perm_iff_count.1 hrest x
    simp only [List.count_append, List.count_cons, List.count_nil] at hcount ⊢
    omega

/-- the blocks of the copy are new ones, from the first on, and so is the one that is left over -/
theorem copyList_fresh (h0 : 0 ∉ ptrs (copyList A (a.alloc A).1 l (a.alloc A).2).1) :
    (∀ q ∈ ptrs (copyList A (a.alloc A).1 l (a.alloc A).2).1, q ∉ a.live) ∧
      (ptrs (copyList A (a.alloc A).1 l (a.alloc A).2).1).Nodup ∧
      ((copyList A (a.alloc A).1 l (a.alloc A).2).2.1 ≠ 0 →
        (copyList A (a.alloc A).1 l (a.alloc A).2).2.1 ∉ ptrs (copyList A (a.alloc A).1 l (a.alloc A).2).1 ++ a.live) := by
  induction l generalizing a with
  | nil => exact ⟨fun q hq => absurd hq List.not_mem_nil, List.nodup_nil, a.alloc_fresh A⟩
  | cons c l ih =>
    simp only [copyList, ptrs_cons, List.mem_cons, not_or] at h0 ⊢
    have hne : (a.alloc A).1 ≠ 0 := Ne.symm h0.1
    obtain ⟨hfresh, hnodup, hlost⟩ := ih h0.2
    simp only [a.alloc_live A hne, List.mem_cons, List.mem_append, not_or] at hfresh hlost
    refine ⟨?_, List.nodup_cons.2 ⟨fun hmem => (hfresh _ hmem).1 rfl, hnodup⟩, fun hq => ?_⟩
    · rintro q (rfl | hq)
      · exact a.alloc_fresh A hne
      · exact (hfresh q hq).2
    · obtain ⟨hrest, hfirst, hold⟩ := hlost hq
      simp only [List.cons_append, List.mem_cons, List.mem_append, not_or]
      exact ⟨hfirst, hrest, hold⟩

end Copy

/-! ## The loop -/

/-- the list `l` is still to be copied, the first node of it to `current`; `prev` is the last node of the copy so far -/
structure ToClone (h : Heap) (orig prev current : ℕ) (l : List (ℕ × Area)) : Prop where
  list : Seg h.block orig l 0
  live : ∀ p ∈ ptrs l, p ∈ h.arena.live
  target : current ≠ 0 → current ∈ h.arena.live ∧ current ∉ ptrs l
  last : prev ≠ 0 → prev ≠ current ∧ prev ∈ h.arena.live ∧ prev ∉ ptrs l ∧ (h.blocks prev).next = 0

/-- where the copy of a list starts -/
def cloneHead (current : ℕ) (l : List (ℕ × Area)) : ℕ := if l = [] then 0 else current

/-- the list `l` has been copied and linked to `prev` -/
structure ListCopied (A : Allocator) (h : Heap) (prev current : ℕ) (l : List (ℕ × Area)) (h' : Heap) : Prop where
  arena : h'.arena = (copyList A current l h.arena).2.2
  nodes : h'.nodes = h.nodes
  list : Seg h'.block (cloneHead current l) (copyList A current l h.arena).1 0
  link : prev ≠ 0 → h'.blocks prev = ⟨(h.blocks prev).toArea, cloneHead current l⟩
  frame : ∀ p, (prev ≠ 0 → p ≠ prev) → p ∉ ptrs (copyList A current l h.arena).1 → h'.blocks p = h.blocks p

/-- one round, before the next block is asked for -/
def cloneRound (h : Heap) (orig prev current : ℕ) : Heap :=
  let h := if prev ≠ 0 then h.setBlock prev { h.blocks prev with next := current } else h
  h.setBlock current ⟨(h.blocks orig).toArea, 0⟩

section Loop

variable {A : Allocator} {h h' : Heap} {ctx : VmmContext} {l : List (ℕ × Area)} {c : ℕ × Area} {orig prev current fuel p : ℕ}

theorem cloneFreeBlocksLoop_succ (horig : orig ≠ 0) (hcurrent : current ≠ 0) :
    cloneFreeBlocksLoop A (fuel + 1) h orig prev current =
      cloneFreeBlocksLoop A fuel ((cloneRound h orig prev current).kmallocBlock A).1
        ((cloneRound h orig prev current).blocks orig).next current ((cloneRound h orig prev current).kmallocBlock A).2 := by
  rw [cloneFreeBlocksLoop, if_pos horig, if_neg hcurrent]
  rfl

theorem cloneRound_arena : (cloneRound h orig prev current).arena = h.arena := by
  unfold cloneRound
  split_ifs
  · rfl
  · rfl

theorem cloneRound_nodes : (cloneRound h orig prev current).nodes = h.nodes := by
  unfold cloneRound
  split_ifs
  · rfl
  · rfl

theorem cloneRound_frame (hprev : prev ≠ 0 → p ≠ prev) (hcurrent : p ≠ current) :
    (cloneRound h orig prev current).blocks p = h.blocks p := by
  unfold cloneRound
  dsimp only
  split_ifs with hp
  · simp only [Heap.setBlock, Function.update_of_ne hcurrent, Function.update_of_ne (hprev hp)]
  · simp only [Heap.setBlock, Function.update_of_ne hcurrent]

theorem cloneRound_link (hs : ToClone h orig prev current (c :: l)) (hprev : prev ≠ 0) :
    (cloneRound h orig prev current).blocks prev = ⟨(h.blocks prev).toArea, current⟩ := by
  unfold cloneRound
  simp only [if_pos hprev, Heap.setBlock, Function.update_of_ne (hs.last hprev).1, Function.update_self]

theorem cloneRound_copy (hs : ToClone h orig prev current (c :: l)) :
    (cloneRound h orig prev current).blocks current = ⟨c.2, 0⟩ := by
  obtain ⟨rfl, _, harea, _⟩ := hs.list
  have harea : (h.blocks c.1).toArea = c.2 := harea
  unfold cloneRound
  dsimp only
  split_ifs with hprev
  · have hne : c.1 ≠ prev := by
      rintro rfl
      exact (hs.last hprev).2.2.1 List.mem_cons_self
    simp only [Heap.setBlock, Function.update_self, Function.update_of_ne hne, harea]
  · simp only [Heap.setBlock, Function.update_self, harea]

/-- the nodes that are not copied yet are as they were -/
theorem cloneRound_orig (hs : ToClone h orig prev current (c :: l)) (hcurrent : current ≠ 0) (hp : p ∈ ptrs (c :: l)) :
    (cloneRound h orig prev current).blocks p = h.blocks p := by
  apply cloneRound_frame
  · rintro hprev rfl
    exact (hs.last hprev).2.2.1 hp
  · rintro rfl
    exact (hs.target hcurrent).2 hp

theorem kmallocBlock_cloneRound :
    ((cloneRound h orig prev current).kmallocBlock A).1.arena = (h.arena.alloc A).2 ∧
      ((cloneRound h orig prev current).kmallocBlock A).2 = (h.arena.alloc A).1 := by
  unfold Heap.kmallocBlock
  rw [cloneRound_arena]
  exact ⟨rfl, rfl⟩

/-- **One round.** -/
theorem ToClone.next (hs : ToClone h orig prev current (c :: l)) (hcurrent : current ≠ 0) :
    ToClone ((cloneRound h orig prev current).kmallocBlock A).1 ((cloneRound h orig prev current).blocks orig).next current
      (h.arena.alloc A).1 l := by
  have harena := (@kmallocBlock_cloneRound A h orig prev current).1
  have hmore : ∀ q, q ∈ h.arena.live → q ∈ (h.arena.alloc A).2.live := by
    intro q hq
    rw [h.arena.alloc_live_eq A]
    exact List.mem_append_right _ hq
  have hlive : ∀ q ∈ ptrs l, q ∈ h.arena.live := fun q hq => hs.live q (List.mem_cons_of_mem _ hq)
  obtain ⟨htarget, hapart⟩ := hs.target hcurrent
  refine ⟨?_, ?_, ?_, ?_⟩
  · obtain ⟨rfl, _, _, hrest⟩ := hs.list
    rw [cloneRound_orig hs hcurrent List.mem_cons_self]
    refine hrest.congr fun q hq => ?_
    unfold Heap.block
    exact congrArg (fun b : VmmFreeBlocks => (b.toArea, b.next)) (cloneRound_orig hs hcurrent (List.mem_cons_of_mem _ hq))
  · intro q hq
    rw [harena]
    exact hmore q (hlive q hq)
  · intro hnext
    rw [harena, h.arena.alloc_live A hnext]
    exact ⟨List.mem_cons_self, fun hmem => h.arena.alloc_fresh A hnext (hlive _ hmem)⟩
  · intro _
    refine ⟨?_, ?_, fun hmem => hapart (List.mem_cons_of_mem _ hmem), ?_⟩
    · intro he
      have hnext : (h.arena.alloc A).1 ≠ 0 := he ▸ hcurrent
      exact h.arena.alloc_fresh A hnext (he ▸ htarget)
    · rw [harena]
      exact hmore current htarget
    · exact congrArg VmmFreeBlocks.next (cloneRound_copy hs)

/-- **The rest of the list**, by induction on it. -/
theorem cloneFreeBlocksLoop_spec (hs : ToClone h orig prev current l) (hfuel : l.length < fuel)
    (h0 : 0 ∉ ptrs (copyList A current l h.arena).1) :
    ∃ h', cloneFreeBlocksLoop A fuel h orig prev current = .ok h' ∧ ListCopied A h prev current l h' := by
  induction l generalizing h orig prev current fuel with
  | nil =>
    obtain ⟨fuel, rfl⟩ : ∃ k, fuel = k + 1 := Nat.exists_eq_succ_of_ne_zero (by omega)
    have horig : orig = 0 := hs.list
    refine ⟨h, ?_, rfl, rfl, rfl, fun hprev => ?_, fun _ _ _ => rfl⟩
    · rw [cloneFreeBlocksLoop, if_neg (not_not.2 horig)]
    · rw [cloneHead, if_pos rfl, ← (hs.last hprev).2.2.2]
  | cons c l ih =>
    obtain ⟨fuel, rfl⟩ : ∃ k, fuel = k + 1 := Nat.exists_eq_succ_of_ne_zero (by omega)
    simp only [copyList, ptrs_cons, List.mem_cons, not_or] at h0
    have hcurrent : current ≠ 0 := Ne.symm h0.1
    have horig : orig ≠ 0 := hs.list.1 ▸ hs.list.2.1
    have hnext := @ToClone.next A h l c orig prev current hs hcurrent
    obtain ⟨harena, hblock⟩ := @kmallocBlock_cloneRound A h orig prev current
    obtain ⟨h', hok, hdone⟩ := ih hnext (Nat.lt_of_succ_lt_succ hfuel) (by rw [harena]; exact h0.2)
    -- the block of the next node was not handed out before
    have hfresh := (copyList_fresh h0.2).1
    have hold : ∀ q ∈ h.arena.live, q ∉ ptrs (copyList A (h.arena.alloc A).1 l (h.arena.alloc A).2).1 :=
      fun q hq hmem => hfresh q hmem hq
    have hhead : cloneHead current (c :: l) = current := if_neg (List.cons_ne_nil _ _)
    have hdonearena := hdone.arena
    have hdonelist := hdone.list
    have hdoneframe := hdone.frame
    rw [harena] at hdonearena hdonelist hdoneframe
    refine ⟨h', ?_, hdonearena, ?_, ?_, fun hprev => ?_, fun q hprev hq => ?_⟩
    · rw [cloneFreeBlocksLoop_succ horig hcurrent, hblock]
      exact hok
    · rw [hdone.nodes]
      exact @cloneRound_nodes h orig prev current
    · have hcopy : h'.block current = (c.2, cloneHead (h.arena.alloc A).1 l) := by
        unfold Heap.block
        rw [hdone.link hcurrent]
        exact congrArg (fun b : VmmFreeBlocks => (b.toArea, cloneHead (h.arena.alloc A).1 l)) (cloneRound_copy hs)
      rw [hhead]
      refine ⟨rfl, hcurrent, ?_, ?_⟩
      · rw [hcopy]
      · rw [hcopy]
        exact hdonelist
    · obtain ⟨hne, hlive, _, _⟩ := hs.last hprev
      rw [hdoneframe prev (fun _ => hne) (hold prev hlive), hhead]
      exact cloneRound_link hs hprev
    · simp only [copyList, ptrs_cons, List.mem_cons, not_or] at hq
      rw [hdoneframe q (fun _ => hq.1) hq.2]
      exact cloneRound_frame hprev hq.1

/-- a request that is answered with NULL ends in a write through it, if a node is to be copied there -/
theorem cloneFreeBlocksLoop_null (hs : ToClone h orig prev current l) (h0 : 0 ∈ ptrs (copyList A current l h.arena).1) :
    ¬ ∃ h', cloneFreeBlocksLoop A fuel h orig prev current = .ok h' := by
  induction l generalizing h orig prev current fuel with
  | nil => exact absurd h0 List.not_mem_nil
  | cons c l ih =>
    have horig : orig ≠ 0 := hs.list.1 ▸ hs.list.2.1
    rintro ⟨h', hok⟩
    cases fuel with
    | zero => cases hok
    | succ fuel =>
      by_cases hcurrent : current = 0
      · rw [cloneFreeBlocksLoop, if_pos horig, if_pos hcurrent] at hok
        cases hok
      · simp only [copyList, ptrs_cons, List.mem_cons] at h0
        obtain ⟨harena, hblock⟩ := @kmallocBlock_cloneRound A h orig prev current
        rw [cloneFreeBlocksLoop_succ horig hcurrent, hblock] at hok
        apply ih (hs.next hcurrent) _ ⟨h', hok⟩
        rw [harena]
        exact h0.resolve_left (Ne.symm hcurrent)

end Loop

/-! ## Clones without waste -/

/-- a NULL-terminated list of the same areas in new nodes, where everything that was handed out before is as it was -/
structure ListClone (h : Heap) (l : List (ℕ × Area)) (h' : Heap) (p : ℕ) (l' : List (ℕ × Area)) : Prop where
  copy : Seg h'.block p l' 0
  areas : l'.map Prod.snd = l.map Prod.snd
  nodup : (ptrs l').Nodup
  fresh : ∀ q ∈ ptrs l', q ∉ h.arena.live
  original : ∀ q ∈ h.arena.live, h'.blocks q = h.blocks q ∧ h'.nodes q = h.nodes q

/-- `clone_free_blocks` returns a clone, and the blocks it has obtained are the nodes of the clone -/
def ClonesWithoutWaste (A : Allocator) (h : Heap) (orig : ℕ) (l : List (ℕ × Area)) : Prop :=
  ∃ h' p l', cloneFreeBlocks A h orig = .ok (h', p) ∧ ListClone h l h' p l' ∧
    h'.arena.live.Perm (ptrs l' ++ h.arena.live)

/-- the heap answers `n` requests, and has no block for one more -/
def UsedUpAfter (A : Allocator) (a : Arena) (n : ℕ) : Prop := ∃ ps, a.answers A (n + 1) = ps ++ [0] ∧ 0 ∉ ps

section Clone

variable {A : Allocator} {h : Heap} {ctx : VmmContext} {l : List (ℕ × Area)}

/-- the first block has been handed out -/
theorem FreeList.toClone (hl : FreeList h ctx l) :
    ToClone (h.kmallocBlock A).1 ctx.freeBlocks 0 (h.arena.alloc A).1 l where
  list := hl.list
  live := fun p hp => by
    show p ∈ (h.arena.alloc A).2.live
    rw [h.arena.alloc_live_eq A]
    exact List.mem_append_right _ (hl.live p hp)
  target := fun hne => by
    show (h.arena.alloc A).1 ∈ (h.arena.alloc A).2.live ∧ _
    rw [h.arena.alloc_live A hne]
    exact ⟨List.mem_cons_self, fun hmem => h.arena.alloc_fresh A hne (hl.live _ hmem)⟩
  last := fun hne => absurd rfl hne

/-- **A list that is not empty** is cloned if every node gets a block, and one more is asked for. -/
theorem cloneFreeBlocks_spec (hl : FreeList h ctx l) (hne : l ≠ []) {ps : List ℕ} {q : ℕ}
    (hanswers : h.arena.answers A (l.length + 1) = ps ++ [q]) (h0 : 0 ∉ ps) :
    ∃ h' p l', cloneFreeBlocks A h ctx.freeBlocks = .ok (h', p) ∧ ListClone h l h' p l' ∧
      h'.arena = (copyList A (h.arena.alloc A).1 l (h.arena.alloc A).2).2.2 ∧
      h'.arena.live.Perm (Arena.given q ++ (ptrs l' ++ h.arena.live)) ∧
      (q ≠ 0 → q ∉ ptrs l' ++ h.arena.live) := by
  let p := (h.arena.alloc A).1
  let a := (h.arena.alloc A).2
  have hsplit : ptrs (copyList A p l a).1 ++ [(copyList A p l a).2.1] = ps ++ [q] := copyList_answers.symm.trans hanswers
  obtain ⟨hps, hq⟩ := List.append_inj' hsplit rfl
  have hq : (copyList A p l a).2.1 = q := List.head_eq_of_cons_eq hq
  have hnull : 0 ∉ ptrs (copyList A p l a).1 := by rwa [hps]
  obtain ⟨h', hok, hdone⟩ := @cloneFreeBlocksLoop_spec A (h.kmallocBlock A).1 l ctx.freeBlocks 0 p rounds
    (hl.toClone) hl.length_lt hnull
  obtain ⟨hfresh, hnodup, hlost⟩ := copyList_fresh hnull
  have hroot : ctx.freeBlocks ≠ 0 := by
    obtain ⟨c, rest, rfl⟩ := List.exists_cons_of_ne_nil hne
    exact hl.list.1 ▸ hl.list.2.1
  have hhead : cloneHead p l = p := if_neg hne
  have hlist := hdone.list
  rw [hhead] at hlist
  refine ⟨h', p, (copyList A p l a).1, ?_, ⟨hlist, copyList_areas, hnodup, hfresh, fun x hx => ⟨?_, ?_⟩⟩,
    hdone.arena, ?_, fun hq0 => ?_⟩
  · unfold cloneFreeBlocks
    rw [if_neg hroot]
    exact bind_ok.2 ⟨h', hok, rfl⟩
  · exact hdone.frame x (fun hne => absurd rfl hne) fun hmem => hfresh x hmem hx
  · rw [hdone.nodes]
    rfl
  · have hlive : (Arena.given p ++ h'.arena.live).Perm
        (Arena.given q ++ (ptrs (copyList A p l a).1 ++ (Arena.given p ++ h.arena.live))) := by
      rw [← h.arena.alloc_live_eq A, ← hq, show h'.arena = (copyList A p l a).2.2 from hdone.arena]
      exact copyList_live hnull
    refine List.perm_iff_count.2 fun x => ?_
    have hcount := List.perm_iff_count.1 hlive x
    simp only [List.count_append] at hcount ⊢
    omega
  · rw [← hq] at hq0 ⊢
    exact hlost hq0

/-- without a block for every node there is no clone -/
theorem cloneFreeBlocks_null (hl : FreeList h ctx l) {ps : List ℕ} {q : ℕ}
    (hanswers : h.arena.answers A (l.length + 1) = ps ++ [q]) (h0 : 0 ∈ ps) :
    ¬ ∃ h' p, cloneFreeBlocks A h ctx.freeBlocks = .ok (h', p) := by
  have hsplit := List.append_inj' (copyList_answers.symm.trans hanswers) rfl
  rintro ⟨h', p, hok⟩
  have hroot : ctx.freeBlocks ≠ 0 := by
    intro hnull
    cases l with
    | nil =>
      rw [← hsplit.1] at h0
      exact absurd h0 List.not_mem_nil
    | cons c l => exact hl.list.2.1 (hl.list.1.symm.trans hnull)
  unfold cloneFreeBlocks at hok
  rw [if_neg hroot] at hok
  obtain ⟨h₁, hloop, _⟩ := bind_ok.1 hok
  have hmem : 0 ∈ ptrs (copyList A (h.arena.alloc A).1 l (h.arena.alloc A).2).1 := by
    rw [hsplit.1]
    exact h0
  exact cloneFreeBlocksLoop_null hl.toClone hmem ⟨h₁, hloop⟩

/-- the empty list is its own clone -/
theorem cloneFreeBlocks_nil (hl : FreeList h ctx []) : ClonesWithoutWaste A h ctx.freeBlocks [] := by
  have hroot : ctx.freeBlocks = 0 := hl.list
  refine ⟨h, 0, [], ?_, ⟨rfl, rfl, List.nodup_nil, ?_, fun _ _ => ⟨rfl, rfl⟩⟩, List.Perm.refl _⟩
  · unfold cloneFreeBlocks
    rw [if_pos hroot]
  · intro q hq
    exact absurd hq List.not_mem_nil

/-- a block that is handed out is either one of the copy or lost -/
theorem given_perm_iff {q : ℕ} {ps live : List ℕ} (h : live.Perm (Arena.given q ++ ps)) : live.Perm ps ↔ q = 0 := by
  constructor
  · intro hperm
    have hlen := (h.symm.trans hperm).length_eq
    by_contra hq
    simp [Arena.given, hq] at hlen
  · rintro rfl
    exact h

/-- **Cloning the free list.** The clone is a copy and its nodes are all that was obtained, if and only if the list is empty, or
the heap has a block for every node and none for one more. A list that is not empty, on a heap that has one more, is cloned
with the loss of that block. -/
theorem clone_without_waste_iff (hl : FreeList h ctx l) :
    (ClonesWithoutWaste A h ctx.freeBlocks l ↔ l = [] ∨ UsedUpAfter A h.arena l.length) ∧
    (l ≠ [] → 0 ∉ h.arena.answers A (l.length + 1) →
      ∃ h' p l' lost, cloneFreeBlocks A h ctx.freeBlocks = .ok (h', p) ∧ ListClone h l h' p l' ∧
        lost ∉ ptrs l' ++ h.arena.live ∧ h'.arena.live.Perm (lost :: (ptrs l' ++ h.arena.live))) := by
  obtain ⟨ps, q, hanswers⟩ : ∃ ps q, h.arena.answers A (l.length + 1) = ps ++ [q] :=
    (List.eq_nil_or_concat' _).resolve_left (List.cons_ne_nil _ _)
  refine ⟨⟨?_, ?_⟩, ?_⟩
  · rintro ⟨h', p, l', hok, hclone, hperm⟩
    by_cases hnil : l = []
    · exact Or.inl hnil
    by_cases h0 : 0 ∈ ps
    · exact absurd ⟨h', p, hok⟩ (cloneFreeBlocks_null hl hanswers h0)
    · obtain ⟨h₁, p₁, l₁, hok₁, hclone₁, _, hlive, hlost⟩ := cloneFreeBlocks_spec hl hnil hanswers h0
      rw [hok₁] at hok
      cases hok
      obtain rfl : l₁ = l' := hclone₁.copy.unique hclone.copy hclone₁.copy.ne_zero hclone.copy.ne_zero
      obtain rfl := (given_perm_iff hlive).1 hperm
      exact Or.inr ⟨ps, hanswers, h0⟩
  · intro hcond
    by_cases hnil : l = []
    · subst hnil
      exact cloneFreeBlocks_nil hl
    · obtain ⟨ps', hused, h0⟩ := hcond.resolve_left hnil
      obtain ⟨h₁, p₁, l₁, hok₁, hclone₁, _, hlive, hlost⟩ := cloneFreeBlocks_spec hl hnil hused h0
      exact ⟨h₁, p₁, l₁, hok₁, hclone₁, (given_perm_iff hlive).2 rfl⟩
  · intro hnil h0
    rw [hanswers, List.mem_append, List.mem_singleton, not_or] at h0
    obtain ⟨h₁, p₁, l₁, hok₁, hclone₁, _, hlive, hlost⟩ := cloneFreeBlocks_spec hl hnil hanswers h0.1
    have hq : Arena.given q = [q] := if_neg (Ne.symm h0.2)
    rw [hq] at hlive
    exact ⟨h₁, p₁, l₁, q, hok₁, hclone₁, hlost (Ne.symm h0.2), hlive⟩

/-- the original is as it was -/
theorem ListClone.rep {h' : Heap} {p : ℕ} {l' bs : List (ℕ × Area)} {t : BinaryTree (ℕ × VmmAllocation)}
    (hc : ListClone h l h' p l') (hlive : ∀ q ∈ h.arena.live, q ∈ h'.arena.live) (hr : Rep h ctx bs t) : Rep h' ctx bs t := by
  refine ⟨hr.list.congr fun q hq => ?_, hr.tree.congr fun q hq => ?_, hr.nodup, fun q hq => hlive q (hr.live q hq)⟩
  · unfold Heap.block
    rw [(hc.original q (hr.live q (List.mem_append_left _ hq))).1]
  · unfold Heap.node
    rw [(hc.original q (hr.live q (List.mem_append_right _ hq))).2]

/-- **Cloning a context.** The block that is lost with the free list is in neither of the two contexts. -/
theorem cloneContext_loses_block {t : BinaryTree (ℕ × VmmAllocation)} (hr : Rep h ctx l t) (hne : l ≠ [])
    (h0 : 0 ∉ h.arena.answers A (l.length + 1))
    (htree : 0 ∉ ptrs (cells (copyOf A t (copyList A (h.arena.alloc A).1 l (h.arena.alloc A).2).2.2).1)) :
    ∃ h' ctx' l' lost, vmmCloneContext A h ctx = .ok (h', ctx') ∧ ListClone h l h' ctx'.freeBlocks l' ∧
      lost ∈ h'.arena.live ∧ lost ∉ ptrs l' ++ h.arena.live ∧
      lost ∉ ptrs (cells (copyOf A t (copyList A (h.arena.alloc A).1 l (h.arena.alloc A).2).2.2).1) := by
  have hl : FreeList h ctx l := @Rep.freeList h ctx l t ctx.allocations hr
  obtain ⟨ps, lost, hanswers⟩ : ∃ ps q, h.arena.answers A (l.length + 1) = ps ++ [q] :=
    (List.eq_nil_or_concat' _).resolve_left (List.cons_ne_nil _ _)
  rw [hanswers, List.mem_append, List.mem_singleton, not_or] at h0
  obtain ⟨h₁, p, l', hok, hclone, harena, hlive, hlost⟩ := cloneFreeBlocks_spec hl hne hanswers h0.1
  have hgiven : Arena.given lost = [lost] := if_neg (Ne.symm h0.2)
  rw [hgiven, List.singleton_append] at hlive
  have hmore : ∀ q ∈ h.arena.live, q ∈ h₁.arena.live := fun q hq =>
    hlive.mem_iff.2 (List.mem_cons_of_mem _ (List.mem_append_right _ hq))
  rw [← harena] at htree ⊢
  obtain ⟨h₂, hok₂, harena₂, hblocks, _, hframe⟩ := cloneAllocations_spec (hclone.rep hmore hr) htree
  have hout := handedOut_copyOf htree
  have hlost₁ : lost ∈ h₁.arena.live := hlive.mem_iff.2 List.mem_cons_self
  refine ⟨h₂, ⟨rootOr 0 (copyOf A t h₁.arena).1, p⟩, l', lost, ?_, ?_, ?_, hlost (Ne.symm h0.2), fun hmem => hout.fresh lost hmem hlost₁⟩
  · exact bind_ok.2 ⟨_, hok, bind_ok.2 ⟨_, hok₂, rfl⟩⟩
  · -- the tree is copied to other blocks
    refine ⟨hclone.copy.congr fun q _ => ?_, hclone.areas, hclone.nodup, hclone.fresh, fun q hq => ?_⟩
    · unfold Heap.block
      rw [hblocks]
    · rw [hblocks, hframe q fun hmem => hout.fresh q hmem (hmore q hq)]
      exact hclone.original q hq
  · rw [harena₂]
    exact (hout.live lost).2 (Or.inr hlost₁)

end Clone

/-! ### Concrete lists -/

section Concrete

/-- a list of one area, in block 1 -/
def oneBlock : Heap where
  blocks := fun _ => ⟨⟨0x400000, 1⟩, 0⟩
  nodes := fun _ => ⟨⟨0, 0, 0, 0⟩, 0, 0, 0⟩
  arena := staleHeap.arena

/-- a heap that has block 2 and nothing else -/
def onlyTwo : Allocator where
  pick _ live := if 2 ∈ live then 0 else 2
  pick_lt _ live := by split_ifs <;> decide
  fresh _ live := by
    split_ifs with h
    · intro h0
      exact absurd rfl h0
    · intro _
      exact h

theorem oneBlock_list : FreeList oneBlock ⟨0, 1⟩ [(1, ⟨0x400000, 1⟩)] := ⟨by decide, by decide, by decide⟩

theorem clone_without_waste_iff_used_up :
    UsedUpAfter onlyTwo oneBlock.arena 1 ∧ ClonesWithoutWaste onlyTwo oneBlock 1 [(1, ⟨0x400000, 1⟩)] := by
  have hused : UsedUpAfter onlyTwo oneBlock.arena 1 := ⟨[2], by decide, by decide⟩
  exact ⟨hused, (clone_without_waste_iff oneBlock_list).1.2 (Or.inr hused)⟩

/-- **A block is lost.** The copy of the one node is in block 2, and block 3 is handed out as well. -/
theorem clone_loses_block :
    ∃ h', cloneFreeBlocks .top oneBlock 1 = .ok (h', 2) ∧ readList h'.block 4 2 = [(2, ⟨0x400000, 1⟩)] ∧
      h'.arena.live = [3, 2, 1] ∧ ¬ ClonesWithoutWaste .top oneBlock 1 [(1, ⟨0x400000, 1⟩)] := by
  have hok : cloneFreeBlocks .top oneBlock 1 = .ok ((returned (oneBlock, 0) (cloneFreeBlocks .top oneBlock 1)).1, 2) :=
    eq_returned_pair (oneBlock, 0) (by decide +kernel) (by decide +kernel)
  have hlive : (returned (oneBlock, 0) (cloneFreeBlocks .top oneBlock 1)).1.arena.live = [3, 2, 1] := by decide +kernel
  refine ⟨_, hok, by decide +kernel, hlive, ?_⟩
  rintro ⟨h', p, l', hok', hclone, hperm⟩
  rw [hok] at hok'
  cases hok'
  -- one node, but two blocks
  have hlength := congrArg List.length hclone.areas
  have hblocks := hperm.length_eq
  rw [hlive] at hblocks
  simp [ptrs, oneBlock, staleHeap] at hlength hblocks
  omega

end Concrete

end Gubos.Vmm
