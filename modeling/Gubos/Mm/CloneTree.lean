/-
Cloning an allocation tree (`clone_allocations` in `mm/vmm.c`).

`kmalloc` does not clear the blocks it hands out, and `clone_allocation_tree` writes the links of a copied node only where the
original has a child. Where it has none the copy keeps what was in the block before, and so does the parent link of the root.

- `copyOf`: the nodes of the copy, as `kmalloc` hands them out;
- `cloneChild_spec`: what the recursion leaves in them, by induction on the tree;
- `clone_faithful_iff`: the clone is a faithful one exactly if the blocks had NULL links in the places that are not written;
- `stale_left_link`: a block with an old left link.

Premise: no request is answered with NULL.
-/
import Gubos.Mm.Totality

namespace Gubos.Vmm

open Gubos.Core Gubos.Paging

/-! ## The code -/

/-- `kmalloc` of a tree node, which has the old content of its block -/
def Heap.kmallocNode (A : Allocator) (h : Heap) : Except Fault (Heap × ℕ) :=
  let (p, arena) := h.arena.alloc A
  if p = 0 then .error .nullDereference else .ok ({ h with arena := arena }, p)

/-- a child in `clone_allocation_tree`: `link` writes the left or the right link, `clone` is the recursive call -/
def cloneChild (A : Allocator) (clone : Heap → ℕ → ℕ → Except Fault Heap)
    (link : VmmAllocationTree → ℕ → VmmAllocationTree) (h : Heap) (origChild allocations : ℕ) : Except Fault Heap :=
  if origChild ≠ 0 then do
    let (h, child) ← h.kmallocNode A
    let h := h.setNode allocations (link (h.nodes allocations) child)
    let h := h.setNode child { h.nodes child with parent := allocations }
    clone h origChild child
  else .ok h

/-- `clone_allocation_tree` -/
def cloneAllocationTree (A : Allocator) : ℕ → Heap → ℕ → ℕ → Except Fault Heap
  | 0, _, _, _ => .error .diverges
  | fuel + 1, h, origAllocations, allocations =>
    if origAllocations = 0 then .ok h
    else do
      let h := h.setNode allocations { h.nodes allocations with alloc := (h.nodes origAllocations).alloc }
      let h ← cloneChild A (cloneAllocationTree A fuel) (fun n p => { n with left := p }) h
        (h.nodes origAllocations).left allocations
      cloneChild A (cloneAllocationTree A fuel) (fun n p => { n with right := p }) h
        (h.nodes origAllocations).right allocations

/-- `clone_allocations` -/
def cloneAllocations (A : Allocator) (h : Heap) (origAllocations : ℕ) : Except Fault (Heap × ℕ) :=
  if origAllocations = 0 then .ok (h, 0)
  else do
    let (h, allocations) ← h.kmallocNode A
    let h ← cloneAllocationTree A rounds h origAllocations allocations
    .ok (h, allocations)

/-! ## The nodes of the copy -/

/-- the tree with the records of `t` in the blocks that `kmalloc` hands out for it, and the arena after that -/
def copyOf (A : Allocator) : BinaryTree (ℕ × VmmAllocation) → Arena → BinaryTree (ℕ × VmmAllocation) × Arena
  | .nil, a => (.nil, a)
  | .node c l r, a =>
    let (p, a) := a.alloc A
    let (l', a) := copyOf A l a
    let (r', a) := copyOf A r a
    (.node (p, c.2) l' r', a)

/-- the pointer to a subtree, or what is in the link already -/
def rootOr (old : ℕ) : BinaryTree (ℕ × VmmAllocation) → ℕ
  | .nil => old
  | .node c _ _ => c.1

/-- the nodes in memory are those of the tree, under a node `parent`; links that have no child are as they were -/
def Copied (old new : ℕ → VmmAllocationTree) (parent : ℕ) : BinaryTree (ℕ × VmmAllocation) → Prop
  | .nil => True
  | .node c l r => new c.1 = ⟨c.2, rootOr (old c.1).left l, rootOr (old c.1).right r, parent⟩ ∧
      Copied old new c.1 l ∧ Copied old new c.1 r

section Copy

variable {A : Allocator} {a : Arena} {t : BinaryTree (ℕ × VmmAllocation)} {old old' new new' : ℕ → VmmAllocationTree}
  {p parent : ℕ}

@[simp] theorem ptrs_cells_node {c : ℕ × VmmAllocation} {l r : BinaryTree (ℕ × VmmAllocation)} :
    ptrs (cells (.node c l r)) = c.1 :: (ptrs (cells l) ++ ptrs (cells r)) := by
  rw [cells_node, ptrs_cons, ptrs_append]

theorem copyOf_records : (copyOf A t a).1.map Prod.snd = t.map Prod.snd := by
  induction t generalizing a with
  | nil => rfl
  | node c l r ihl ihr => simp only [copyOf, BinaryTree.map, ihl, ihr]

/-- only what is in the blocks of the copy matters -/
theorem Copied.congr (hc : Copied old new parent t)
    (hold : ∀ p ∈ ptrs (cells t), (old' p).left = (old p).left ∧ (old' p).right = (old p).right)
    (hnew : ∀ p ∈ ptrs (cells t), new' p = new p) : Copied old' new' parent t := by
  induction t generalizing parent with
  | nil => trivial
  | node c l r ihl ihr =>
    obtain ⟨hroot, hl, hr⟩ := hc
    simp only [ptrs_cells_node, List.mem_cons, List.mem_append] at hold hnew
    refine ⟨?_, ihl hl (fun p hp => hold p (Or.inr (Or.inl hp))) fun p hp => hnew p (Or.inr (Or.inl hp)),
      ihr hr (fun p hp => hold p (Or.inr (Or.inr hp))) fun p hp => hnew p (Or.inr (Or.inr hp))⟩
    rw [(hold c.1 (Or.inl rfl)).1, (hold c.1 (Or.inl rfl)).2, hnew c.1 (Or.inl rfl)]
    exact hroot

/-- what the heap hands out for a tree: new blocks, each once -/
structure HandedOut (a : Arena) (t' : BinaryTree (ℕ × VmmAllocation)) (a' : Arena) : Prop where
  live : ∀ p, p ∈ a'.live ↔ p ∈ ptrs (cells t') ∨ p ∈ a.live
  fresh : ∀ p ∈ ptrs (cells t'), p ∉ a.live
  nodup : (ptrs (cells t')).Nodup

theorem handedOut_copyOf (h0 : 0 ∉ ptrs (cells (copyOf A t a).1)) : HandedOut a (copyOf A t a).1 (copyOf A t a).2 := by
  induction t generalizing a with
  | nil => exact ⟨by simp [copyOf], by simp [copyOf], by simp [copyOf]⟩
  | node c l r ihl ihr =>
    simp only [copyOf, ptrs_cells_node, List.mem_cons, List.mem_append, not_or] at h0
    have hp0 : (a.alloc A).1 ≠ 0 := Ne.symm h0.1
    have hp := a.alloc_fresh A hp0
    have hlive : ∀ q, q ∈ (a.alloc A).2.live ↔ q = (a.alloc A).1 ∨ q ∈ a.live := by
      intro q
      rw [a.alloc_live A hp0, List.mem_cons]
    have hl := ihl h0.2.1
    have hr := ihr h0.2.2
    refine ⟨fun q => ?_, fun q hq => ?_, ?_⟩
    · simp only [copyOf, ptrs_cells_node, List.mem_cons, List.mem_append, hr.live, hl.live, hlive]
      tauto
    · simp only [copyOf, ptrs_cells_node, List.mem_cons, List.mem_append] at hq
      rcases hq with rfl | hq | hq
      · exact hp
      · exact fun hmem => hl.fresh q hq ((hlive q).2 (Or.inr hmem))
      · exact fun hmem => hr.fresh q hq ((hl.live q).2 (Or.inr ((hlive q).2 (Or.inr hmem))))
    · simp only [copyOf, ptrs_cells_node, List.nodup_cons, List.mem_append, not_or, List.nodup_append]
      refine ⟨⟨fun hmem => hl.fresh _ hmem ((hlive _).2 (Or.inl rfl)), fun hmem => ?_⟩, hl.nodup, hr.nodup,
        fun x hx y hy hxy => hr.fresh y hy ((hl.live y).2 (Or.inl (hxy ▸ hx)))⟩
      exact hr.fresh _ hmem ((hl.live _).2 (Or.inr ((hlive _).2 (Or.inl rfl))))

end Copy

/-! ## The recursion -/

/-- a node with the link to a child -/
def relinked (link : VmmAllocationTree → ℕ → VmmAllocationTree) (n : VmmAllocationTree) :
    BinaryTree (ℕ × VmmAllocation) → VmmAllocationTree
  | .nil => n
  | .node c _ _ => link n c.1

/-- the subtree `s` has been copied, and linked to node `q` -/
structure ChildCopied (A : Allocator) (link : VmmAllocationTree → ℕ → VmmAllocationTree) (h : Heap) (q : ℕ)
    (s : BinaryTree (ℕ × VmmAllocation)) (h' : Heap) : Prop where
  arena : h'.arena = (copyOf A s h.arena).2
  blocks : h'.blocks = h.blocks
  node : h'.nodes q = relinked link (h.nodes q) (copyOf A s h.arena).1
  copied : Copied h.nodes h'.nodes q (copyOf A s h.arena).1
  frame : ∀ p, p ≠ q → p ∉ ptrs (cells (copyOf A s h.arena).1) → h'.nodes p = h.nodes p

/-- the tree `s`, in live nodes other than `q`, which is to be the node above its copy -/
structure ToCopy (h : Heap) (orig q : ℕ) (s : BinaryTree (ℕ × VmmAllocation)) : Prop where
  tree : TreeAt h.node orig s
  live : ∀ p ∈ ptrs (cells s), p ∈ h.arena.live
  target : q ∈ h.arena.live
  apart : q ∉ ptrs (cells s)

/-- the two subtrees of `c` have been copied, and `q` is the copy of `c` -/
structure NodeCopied (A : Allocator) (h : Heap) (q : ℕ) (c : ℕ × VmmAllocation) (l r : BinaryTree (ℕ × VmmAllocation))
    (h' : Heap) : Prop where
  arena : h'.arena = (copyOf A r (copyOf A l h.arena).2).2
  blocks : h'.blocks = h.blocks
  copied : Copied h.nodes h'.nodes (h.nodes q).parent
    (.node (q, c.2) (copyOf A l h.arena).1 (copyOf A r (copyOf A l h.arena).2).1)
  frame : ∀ p, p ≠ q → p ∉ ptrs (cells (copyOf A l h.arena).1) →
    p ∉ ptrs (cells (copyOf A r (copyOf A l h.arena).2).1) → h'.nodes p = h.nodes p

/-- a child is copied if it is there -/
def CopiesChild (A : Allocator) (s : BinaryTree (ℕ × VmmAllocation)) : Prop :=
  ∀ link fuel h orig q, (cells s).length < fuel → ToCopy h orig q s → 0 ∉ ptrs (cells (copyOf A s h.arena).1) →
    ∃ h', cloneChild A (cloneAllocationTree A fuel) link h orig q = .ok h' ∧ ChildCopied A link h q s h'

section Clone

variable {A : Allocator} {h h' : Heap} {t l r : BinaryTree (ℕ × VmmAllocation)} {c : ℕ × VmmAllocation} {orig p q fuel : ℕ}

theorem relinked_left (n : VmmAllocationTree) (t : BinaryTree (ℕ × VmmAllocation)) :
    relinked (fun n p => { n with left := p }) n t = { n with left := rootOr n.left t } := by
  cases t <;> rfl

theorem relinked_right (n : VmmAllocationTree) (t : BinaryTree (ℕ × VmmAllocation)) :
    relinked (fun n p => { n with right := p }) n t = { n with right := rootOr n.right t } := by
  cases t <;> rfl

@[simp] theorem setNode_nodes (n : VmmAllocationTree) : (h.setNode q n).nodes q = n := Function.update_self ..

theorem setNode_nodes_of_ne (n : VmmAllocationTree) (hp : p ≠ q) : (h.setNode q n).nodes p = h.nodes p :=
  Function.update_of_ne hp ..

/-- a tree is as it was if no node of it is written -/
theorem ToCopy.frame (hs : ToCopy h orig q t) (hnodes : ∀ p ∈ ptrs (cells t), h'.nodes p = h.nodes p)
    (hlive : ∀ p ∈ h.arena.live, p ∈ h'.arena.live) : ToCopy h' orig q t where
  tree := hs.tree.congr fun p hp => by
    unfold Heap.node
    rw [hnodes p hp]
  live := fun p hp => hlive p (hs.live p hp)
  target := hlive q hs.target
  apart := hs.apart

/-- **A node**, from its subtrees. -/
theorem cloneAllocationTree_spec (hl : CopiesChild A l) (hr : CopiesChild A r)
    (hfuel : (cells l).length + (cells r).length < fuel) (hs : ToCopy h orig q (.node c l r))
    (hl0 : 0 ∉ ptrs (cells (copyOf A l h.arena).1)) (hr0 : 0 ∉ ptrs (cells (copyOf A r (copyOf A l h.arena).2).1)) :
    ∃ h', cloneAllocationTree A (fuel + 1) h orig q = .ok h' ∧ NodeCopied A h q c l r h' := by
  obtain ⟨htree, hlive, hq, hapart⟩ := hs
  obtain ⟨rfl, hc0, hrec, hleft, hright⟩ := htree
  simp only [ptrs_cells_node, List.mem_cons, List.mem_append, not_or] at hlive hapart
  obtain ⟨hqc, hql, hqr⟩ := hapart
  have hout := handedOut_copyOf hl0
  have hout' := handedOut_copyOf hr0
  -- the record
  let h₁ := h.setNode q { h.nodes q with alloc := (h.nodes c.1).alloc }
  have hne₁ : ∀ {p}, p ≠ q → h₁.nodes p = h.nodes p := fun hp => setNode_nodes_of_ne _ hp
  have hself₁ : h₁.nodes q = ⟨c.2, (h.nodes q).left, (h.nodes q).right, (h.nodes q).parent⟩ := by
    rw [setNode_nodes, ← hrec]
    rfl
  have hl₁ : ToCopy h₁ (h₁.nodes c.1).left q l := by
    rw [hne₁ (Ne.symm hqc)]
    refine ToCopy.frame ⟨hleft, fun p hp => hlive p (Or.inr (Or.inl hp)), hq, hql⟩ (fun p hp => hne₁ ?_) fun p hp => hp
    exact fun he => hql (he ▸ hp)
  -- the left subtree
  obtain ⟨h₂, hok₂, hleft₂⟩ := hl (fun n p => { n with left := p }) fuel h₁ _ q (by omega) hl₁ hl0
  have hne₂ : ∀ {p}, p ∈ h.arena.live → p ≠ q → h₂.nodes p = h.nodes p := fun hp hpq =>
    (hleft₂.frame _ hpq fun hmem => hout.fresh _ hmem hp).trans (hne₁ hpq)
  have hself₂ := hleft₂.node
  rw [relinked_left, hself₁] at hself₂
  have hlive₂ : ∀ p, p ∈ h₂.arena.live ↔ p ∈ ptrs (cells (copyOf A l h.arena).1) ∨ p ∈ h.arena.live := by
    rw [hleft₂.arena]
    exact hout.live
  have hr₂ : ToCopy h₂ (h₂.nodes c.1).right q r := by
    rw [hne₂ (hlive c.1 (Or.inl rfl)) (Ne.symm hqc)]
    refine ToCopy.frame ⟨hright, fun p hp => hlive p (Or.inr (Or.inr hp)), hq, hqr⟩
      (fun p hp => hne₂ (hlive p (Or.inr (Or.inr hp))) ?_) fun p hp => (hlive₂ p).2 (Or.inr hp)
    exact fun he => hqr (he ▸ hp)
  -- the right subtree
  have harena : h₂.arena = (copyOf A l h.arena).2 := hleft₂.arena
  obtain ⟨h₃, hok₃, hright₃⟩ := hr (fun n p => { n with right := p }) fuel h₂ _ q (by omega) hr₂ (harena ▸ hr0)
  have hself₃ := hright₃.node
  rw [relinked_right, hself₂, harena] at hself₃
  have hfresh : ∀ p ∈ ptrs (cells (copyOf A r h₂.arena).1), p ∉ ptrs (cells (copyOf A l h.arena).1) ∧ p ∉ h.arena.live := by
    rw [harena]
    exact fun p hp => ⟨fun hmem => hout'.fresh p hp ((hout.live p).2 (Or.inl hmem)),
      fun hmem => hout'.fresh p hp ((hout.live p).2 (Or.inr hmem))⟩
  have hok : cloneAllocationTree A (fuel + 1) h c.1 q = .ok h₃ := by
    rw [cloneAllocationTree, if_neg hc0]
    exact bind_ok.2 ⟨h₂, hok₂, hok₃⟩
  have hnotq : ∀ {p}, p ∉ h.arena.live → p ≠ q := fun hp he => hp (he ▸ hq)
  refine ⟨h₃, hok, ?_, hright₃.blocks.trans hleft₂.blocks, ⟨hself₃, ?_, ?_⟩, fun p hpq hpl hpr => ?_⟩
  · rw [hright₃.arena, harena]
  · refine hleft₂.copied.congr (fun p hp => ?_) fun p hp => ?_
    · rw [hne₁ (hnotq (hout.fresh p hp))]
      exact ⟨rfl, rfl⟩
    · exact hright₃.frame p (hnotq (hout.fresh p hp)) fun hmem => (hfresh p hmem).1 hp
  · rw [← harena]
    refine hright₃.copied.congr (fun p hp => ?_) fun p hp => rfl
    have hpq := hnotq (hfresh p hp).2
    rw [hleft₂.frame p hpq (hfresh p hp).1, hne₁ hpq]
    exact ⟨rfl, rfl⟩
  · rw [← harena] at hpr
    exact (hright₃.frame p hpq hpr).trans ((hleft₂.frame p hpq hpl).trans (hne₁ hpq))

theorem kmallocNode_ok (hp : (h.arena.alloc A).1 ≠ 0) :
    h.kmallocNode A = .ok ({ h with arena := (h.arena.alloc A).2 }, (h.arena.alloc A).1) := by
  unfold Heap.kmallocNode
  dsimp only
  rw [if_neg hp]

/-- **A child**, by induction on its tree. -/
theorem cloneChild_spec (t : BinaryTree (ℕ × VmmAllocation)) : CopiesChild A t := by
  induction t with
  | nil =>
    intro link fuel h orig q _ hs _
    have h0 : orig = 0 := hs.tree
    refine ⟨h, ?_, rfl, rfl, rfl, trivial, fun _ _ _ => rfl⟩
    unfold cloneChild
    rw [if_neg (not_not.2 h0)]
  | node c l r ihl ihr =>
    intro link fuel h orig q hfuel hs h0
    obtain ⟨fuel, rfl⟩ : ∃ k, fuel = k + 1 := Nat.exists_eq_succ_of_ne_zero (by omega)
    have horig : orig ≠ 0 := hs.tree.1 ▸ hs.tree.2.1
    simp only [copyOf, ptrs_cells_node, List.mem_cons, List.mem_append, not_or] at h0
    obtain ⟨hp0, hl0, hr0⟩ := h0
    have hp0 := Ne.symm hp0
    let p := (h.arena.alloc A).1
    have hpnew : p ∉ h.arena.live := h.arena.alloc_fresh A hp0
    have hpq : p ≠ q := fun he => hpnew (he ▸ hs.target)
    have hlive : ∀ {x}, x ∈ (h.arena.alloc A).2.live ↔ x = p ∨ x ∈ h.arena.live := by
      rw [h.arena.alloc_live A hp0]
      exact List.mem_cons
    have hfresh : ∀ {x}, x ∈ h.arena.live → x ≠ p := fun hx he => hpnew (he ▸ hx)
    -- the links between the node and its new child
    let h₁ : Heap := { h with arena := (h.arena.alloc A).2 }.setNode q (link (h.nodes q) p)
    let h₂ := h₁.setNode p { h₁.nodes p with parent := q }
    have hnode₁ : h₁.nodes p = h.nodes p := setNode_nodes_of_ne _ hpq
    have hself₂ : h₂.nodes p = { h.nodes p with parent := q } := by rw [setNode_nodes, hnode₁]
    have hq₂ : h₂.nodes q = link (h.nodes q) p := by
      rw [setNode_nodes_of_ne _ (Ne.symm hpq), setNode_nodes]
    have hne₂ : ∀ {x}, x ≠ p → x ≠ q → h₂.nodes x = h.nodes x := fun hxp hxq => by
      rw [setNode_nodes_of_ne _ hxp, setNode_nodes_of_ne _ hxq]
    have hs₂ : ToCopy h₂ orig p (.node c l r) := by
      refine ⟨hs.tree.congr fun x hx => ?_, fun x hx => hlive.2 (Or.inr (hs.live x hx)), hlive.2 (Or.inl rfl),
        fun hmem => hfresh (hs.live p hmem) rfl⟩
      unfold Heap.node
      rw [hne₂ (hfresh (hs.live x hx)) fun he => hs.apart (he ▸ hx)]
    have hlen : (cells l).length + (cells r).length < fuel := by
      simp only [cells_node, List.length_cons, List.length_append] at hfuel
      omega
    obtain ⟨h', hok, hdone⟩ := cloneAllocationTree_spec ihl ihr hlen hs₂ hl0 hr0
    have hout := handedOut_copyOf hl0
    have hout' := handedOut_copyOf hr0
    have hql : q ∉ ptrs (cells (copyOf A l (h.arena.alloc A).2).1) := fun hmem =>
      hout.fresh q hmem (hlive.2 (Or.inr hs.target))
    have hqr : q ∉ ptrs (cells (copyOf A r (copyOf A l (h.arena.alloc A).2).2).1) := fun hmem =>
      hout'.fresh q hmem ((hout.live q).2 (Or.inr (hlive.2 (Or.inr hs.target))))
    refine ⟨h', ?_, hdone.arena, hdone.blocks, ?_, ?_, fun x hxq hx => ?_⟩
    · unfold cloneChild
      rw [if_pos horig]
      exact bind_ok.2 ⟨_, kmallocNode_ok hp0, hok⟩
    · rw [hdone.frame q (Ne.symm hpq) hql hqr, hq₂]
      rfl
    · have hcopied := hdone.copied
      rw [hself₂] at hcopied
      refine hcopied.congr (fun x hx => ?_) fun _ _ => rfl
      by_cases hxp : x = p
      · rw [hxp, hself₂]
        exact ⟨rfl, rfl⟩
      · rw [hne₂ hxp]
        · exact ⟨rfl, rfl⟩
        · rintro rfl
          simp only [ptrs_cells_node, List.mem_cons, List.mem_append] at hx
          exact hx.elim hxp fun hx => hx.elim hql hqr
    · simp only [copyOf, ptrs_cells_node, List.mem_cons, List.mem_append, not_or] at hx
      rw [hdone.frame x hx.1 hx.2.1 hx.2.2, hne₂ hx.1 hxq]

/-- the parent link that is in the root's block -/
def rootParent (nodes : ℕ → VmmAllocationTree) : BinaryTree (ℕ × VmmAllocation) → ℕ
  | .nil => 0
  | .node c _ _ => (nodes c.1).parent

/-- **The whole tree.** -/
theorem cloneAllocations_spec {ctx : VmmContext} {bs : List (ℕ × Area)} (hr : Rep h ctx bs t)
    (h0 : 0 ∉ ptrs (cells (copyOf A t h.arena).1)) :
    ∃ h', cloneAllocations A h ctx.allocations = .ok (h', rootOr 0 (copyOf A t h.arena).1) ∧
      h'.arena = (copyOf A t h.arena).2 ∧ h'.blocks = h.blocks ∧
      Copied h.nodes h'.nodes (rootParent h.nodes (copyOf A t h.arena).1) (copyOf A t h.arena).1 ∧
      ∀ p ∉ ptrs (cells (copyOf A t h.arena).1), h'.nodes p = h.nodes p := by
  cases t with
  | nil =>
    have hroot : ctx.allocations = 0 := hr.tree
    refine ⟨h, ?_, rfl, rfl, trivial, fun _ _ => rfl⟩
    unfold cloneAllocations
    rw [if_pos hroot]
    rfl
  | node c l r =>
    have hroot : ctx.allocations ≠ 0 := hr.tree.1 ▸ hr.tree.2.1
    have hsize := hr.length_lt
    simp only [copyOf, ptrs_cells_node, List.mem_cons, List.mem_append, not_or] at h0
    obtain ⟨hp0, hl0, hr0⟩ := h0
    have hp0 := Ne.symm hp0
    have hlive : ∀ {x}, x ∈ (h.arena.alloc A).2.live ↔ x = (h.arena.alloc A).1 ∨ x ∈ h.arena.live := by
      rw [h.arena.alloc_live A hp0]
      exact List.mem_cons
    have hold : ∀ x ∈ ptrs (cells (.node c l r)), x ∈ h.arena.live := fun x hx => hr.live x (List.mem_append_right _ hx)
    have hs : ToCopy { h with arena := (h.arena.alloc A).2 } ctx.allocations (h.arena.alloc A).1 (.node c l r) :=
      ⟨hr.tree, fun x hx => hlive.2 (Or.inr (hold x hx)), hlive.2 (Or.inl rfl),
        fun hmem => h.arena.alloc_fresh A hp0 (hold _ hmem)⟩
    have hlen : (cells l).length + (cells r).length < 2 ^ 32 := by
      simp only [cells_node, List.length_cons, List.length_append, rounds] at hsize
      omega
    obtain ⟨h', hok, hdone⟩ := cloneAllocationTree_spec (cloneChild_spec l) (cloneChild_spec r) hlen hs hl0 hr0
    refine ⟨h', ?_, hdone.arena, hdone.blocks, hdone.copied, fun p hp => ?_⟩
    · unfold cloneAllocations
      rw [if_neg hroot]
      exact bind_ok.2 ⟨_, kmallocNode_ok hp0, bind_ok.2 ⟨h', hok, rfl⟩⟩
    · simp only [copyOf, ptrs_cells_node, List.mem_cons, List.mem_append, not_or] at hp
      exact hdone.frame p hp.1 hp.2.1 hp.2.2

end Clone

/-! ## Faithful clones -/

/-- every node has its parent's pointer -/
def ParentsAt (nodes : ℕ → VmmAllocationTree) (parent : ℕ) : BinaryTree (ℕ × VmmAllocation) → Prop
  | .nil => True
  | .node c l r => (nodes c.1).parent = parent ∧ ParentsAt nodes c.1 l ∧ ParentsAt nodes c.1 r

/-- a tree of the same shape with the same records, in new nodes with parent links, NULL at the root, and so the same lookups -/
structure Faithful (h h' : Heap) (ctx : VmmContext) (t : BinaryTree (ℕ × VmmAllocation)) (p : ℕ) : Prop where
  copy : ∃ t', TreeAt h'.node p t' ∧ t'.map Prod.snd = t.map Prod.snd ∧ (ptrs (cells t')).Nodup ∧
    (∀ q ∈ ptrs (cells t'), q ∉ h.arena.live ∧ q ∈ h'.arena.live) ∧ ParentsAt h'.nodes 0 t'
  lookups : ∀ x, vmmFindAllocation h' { ctx with allocations := p } x = vmmFindAllocation h' ctx x

/-- blocks have NULL links where the tree has no child -/
def NullLinks (nodes : ℕ → VmmAllocationTree) : BinaryTree (ℕ × VmmAllocation) → Prop
  | .nil => True
  | .node c l r => (l = .nil → (nodes c.1).left = 0) ∧ (r = .nil → (nodes c.1).right = 0) ∧
      NullLinks nodes l ∧ NullLinks nodes r

/-- the blocks handed out for the copy have NULL in the links that are not written -/
def StaleOk (A : Allocator) (h : Heap) (t : BinaryTree (ℕ × VmmAllocation)) : Prop :=
  NullLinks h.nodes (copyOf A t h.arena).1 ∧ rootParent h.nodes (copyOf A t h.arena).1 = 0

section Faithful

variable {A : Allocator} {h h' : Heap} {ctx : VmmContext} {bs : List (ℕ × Area)} {t t' : BinaryTree (ℕ × VmmAllocation)}
  {old : ℕ → VmmAllocationTree} {go : VmmAllocation → Dir} {p parent k : ℕ}

theorem rootOr_eq (hk : t = .nil → k = 0) : rootOr k t = rootOr 0 t := by
  cases t with
  | nil => exact hk rfl
  | node c l r => rfl

/-- with NULL links the nodes in memory are a tree -/
theorem Copied.treeAt (hc : Copied old h'.nodes parent t) (hnull : NullLinks old t) (h0 : 0 ∉ ptrs (cells t)) :
    TreeAt h'.node (rootOr 0 t) t ∧ ParentsAt h'.nodes parent t := by
  induction t generalizing parent with
  | nil => exact ⟨rfl, trivial⟩
  | node c l r ihl ihr =>
    obtain ⟨hroot, hl, hr⟩ := hc
    obtain ⟨hnl, hnr, hnulll, hnullr⟩ := hnull
    simp only [ptrs_cells_node, List.mem_cons, List.mem_append, not_or] at h0
    obtain ⟨htl, hpl⟩ := ihl hl hnulll h0.2.1
    obtain ⟨htr, hpr⟩ := ihr hr hnullr h0.2.2
    have hnode : h'.node c.1 = (c.2, rootOr 0 l, rootOr 0 r) := by
      unfold Heap.node
      rw [hroot, rootOr_eq hnl, rootOr_eq hnr]
    refine ⟨⟨rfl, Ne.symm h0.1, ?_, ?_, ?_⟩, ?_, hpl, hpr⟩
    · rw [hnode]
    · rw [hnode]
      exact htl
    · rw [hnode]
      exact htr
    · rw [hroot]

theorem map_eq_nil {f : ℕ × VmmAllocation → VmmAllocation} (ht : t.map f = .nil) : t = .nil := by
  cases t with
  | nil => rfl
  | node c l r => cases ht

/-- a tree of the shape of the copy has NULL where the copy has no child -/
theorem Copied.nullLinks (hc : Copied old h'.nodes parent t) (ht : TreeAt h'.node (rootOr k t) t')
    (hrec : t'.map Prod.snd = t.map Prod.snd) : NullLinks old t ∧ (t = .nil → k = 0) := by
  induction t generalizing parent t' k with
  | nil =>
    obtain rfl := map_eq_nil hrec
    exact ⟨trivial, fun _ => ht⟩
  | node c l r ihl ihr =>
    obtain ⟨hroot, hl, hr⟩ := hc
    cases t' with
    | nil => cases hrec
    | node d l' r' =>
      obtain ⟨hcd, _, _, htl, htr⟩ := ht
      have hcd : c.1 = d.1 := hcd
      simp only [BinaryTree.map, BinaryTree.node.injEq] at hrec
      unfold Heap.node at htl htr
      rw [← hcd, hroot] at htl htr
      obtain ⟨hnulll, hnl⟩ := ihl hl htl hrec.2.1
      obtain ⟨hnullr, hnr⟩ := ihr hr htr hrec.2.2
      exact ⟨⟨hnl, hnr, hnulll, hnullr⟩, fun he => by cases he⟩

/-- a search sees only the records -/
theorem descend_records (hrec : t'.map Prod.snd = t.map Prod.snd) : found (descend go t') = found (descend go t) := by
  induction t generalizing t' with
  | nil =>
    rw [map_eq_nil hrec]
  | node c l r ihl ihr =>
    cases t' with
    | nil => cases hrec
    | node d l' r' =>
      simp only [BinaryTree.map, BinaryTree.node.injEq] at hrec
      obtain ⟨hcd, hl, hr⟩ := hrec
      unfold descend
      rw [hcd]
      cases go c.2 with
      | stop => exact hcd
      | left => exact ihl hl
      | right => exact ihr hr

/-- **Cloning.** Where no request is answered with NULL the clone is made, and it is a faithful one if and only if the blocks
had NULL in the child links that the copy does not have and in the parent link of the root. -/
theorem clone_faithful_iff (hr : Rep h ctx bs t) (h0 : 0 ∉ ptrs (cells (copyOf A t h.arena).1)) :
    ∃ h' p, cloneAllocations A h ctx.allocations = .ok (h', p) ∧ (Faithful h h' ctx t p ↔ StaleOk A h t) := by
  obtain ⟨h', hok, harena, hblocks, hcopied, hframe⟩ := cloneAllocations_spec hr h0
  have hout := handedOut_copyOf h0
  refine ⟨h', _, hok, fun hf => ?_, fun ⟨hnull, hparent⟩ => ?_⟩
  · obtain ⟨t', htree, hrec, _, _, hpar⟩ := hf.copy
    have hrec : t'.map Prod.snd = (copyOf A t h.arena).1.map Prod.snd := hrec.trans copyOf_records.symm
    refine ⟨(hcopied.nullLinks htree hrec).1, ?_⟩
    -- the root has the parent link of its block
    cases hcopy : (copyOf A t h.arena).1 with
    | nil => rfl
    | node c l r =>
      rw [hcopy] at hcopied htree hrec
      cases t' with
      | nil => cases hrec
      | node d l' r' =>
        have hcd : c.1 = d.1 := htree.1
        have hzero : (h'.nodes c.1).parent = 0 := hcd ▸ hpar.1
        rw [hcopied.1] at hzero
        exact hzero
  · rw [hparent] at hcopied
    obtain ⟨htree, hpar⟩ := hcopied.treeAt hnull h0
    have hlive : ∀ q, q ∈ h'.arena.live ↔ q ∈ ptrs (cells (copyOf A t h.arena).1) ∨ q ∈ h.arena.live := by
      rw [harena]
      exact hout.live
    refine ⟨⟨_, htree, copyOf_records, hout.nodup, fun q hq => ⟨hout.fresh q hq, (hlive q).2 (Or.inl hq)⟩, hpar⟩, fun x => ?_⟩
    -- the original is as it was
    have hkeep : Rep h' ctx bs t := by
      refine ⟨?_, hr.tree.congr fun q hq => ?_, hr.nodup, fun q hq => (hlive q).2 (Or.inr (hr.live q hq))⟩
      · have hblock : h'.block = h.block := by
          unfold Heap.block
          rw [hblocks]
        rw [hblock]
        exact hr.list
      · unfold Heap.node
        rw [hframe q fun hmem => hout.fresh q hmem (hr.live q (List.mem_append_right _ hq))]
    have hclone : Rep h' ⟨rootOr 0 (copyOf A t h.arena).1, 0⟩ [] (copyOf A t h.arena).1 :=
      ⟨rfl, htree, hout.nodup, fun q hq => (hlive q).2 (Or.inl hq)⟩
    calc vmmFindAllocation h' { ctx with allocations := rootOr 0 (copyOf A t h.arena).1 } x
        = .ok (found (descend (findDir x) (copyOf A t h.arena).1)) := vmmFindAllocation_eq hclone x
      _ = .ok (found (descend (findDir x) t)) := by rw [descend_records copyOf_records]
      _ = vmmFindAllocation h' ctx x := (vmmFindAllocation_eq hkeep x).symm

end Faithful

/-! ### Concrete heaps -/

section Concrete

instance decNullLinks (nodes : ℕ → VmmAllocationTree) : ∀ t, Decidable (NullLinks nodes t)
  | .nil => .isTrue trivial
  | .node c l r =>
    haveI := decNullLinks nodes l
    haveI := decNullLinks nodes r
    inferInstanceAs (Decidable ((l = .nil → (nodes c.1).left = 0) ∧ (r = .nil → (nodes c.1).right = 0) ∧
      NullLinks nodes l ∧ NullLinks nodes r))

instance (A : Allocator) (h : Heap) (t : BinaryTree (ℕ × VmmAllocation)) : Decidable (StaleOk A h t) :=
  inferInstanceAs (Decidable (_ ∧ _))

/-- the tree of a new address space is cloned, on a heap that was zero -/
theorem clone_faithful_iff_fresh :
    StaleOk .top fresh.1 (treeOf ⟨fresh.1, fresh.2⟩) ∧
      ∃ h' p, cloneAllocations .top fresh.1 fresh.2.allocations = .ok (h', p) ∧
        Faithful fresh.1 h' fresh.2 (treeOf ⟨fresh.1, fresh.2⟩) p := by
  have hstale : StaleOk .top fresh.1 (treeOf ⟨fresh.1, fresh.2⟩) := by decide +kernel
  obtain ⟨h', p, hok, hiff⟩ := clone_faithful_iff (A := .top) fresh_rep (by decide +kernel)
  exact ⟨hstale, h', p, hok, hiff.2 hstale⟩

/-- a tree of one node, at 1; the block that is handed out next, at 2, was a node with a left child -/
def staleHeap : Heap where
  blocks := fun _ => ⟨⟨0, 0⟩, 0⟩
  nodes := fun p =>
    if p = 1 then ⟨⟨0x400000, 0x800000, 2, 7⟩, 0, 0, 0⟩
    else if p = 2 then ⟨⟨0x300000, 0x600000, 1, 7⟩, 3, 0, 0⟩
    else ⟨⟨0x100000, 0x700000, 1, 7⟩, 0, 0, 0⟩
  arena := ⟨[1], 1, by decide⟩

/-- the tree of the clone, and what a lookup gives -/
def staleClone : Heap × ℕ := returned (staleHeap, 0) (cloneAllocations .top staleHeap 1)

/-- **An old left link** becomes a child of the copy, and its record is found. -/
theorem stale_left_link :
    Rep staleHeap ⟨1, 0⟩ [] (.node (1, ⟨0x400000, 0x800000, 2, 7⟩) .nil .nil) ∧
      cloneAllocations .top staleHeap 1 = .ok staleClone ∧
      vmmFindAllocation staleClone.1 ⟨1, 0⟩ 0x100000 = .ok ⟨0, 0, 0, 0⟩ ∧
      vmmFindAllocation staleClone.1 ⟨staleClone.2, 0⟩ 0x100000 = .ok ⟨0x100000, 0x700000, 1, 7⟩ ∧
      ¬ Faithful staleHeap staleClone.1 ⟨1, 0⟩ (.node (1, ⟨0x400000, 0x800000, 2, 7⟩) .nil .nil) staleClone.2 := by
  have horig : vmmFindAllocation staleClone.1 ⟨1, 0⟩ 0x100000 = .ok ⟨0, 0, 0, 0⟩ := by decide +kernel
  have hclone : vmmFindAllocation staleClone.1 ⟨staleClone.2, 0⟩ 0x100000 = .ok ⟨0x100000, 0x700000, 1, 7⟩ := by
    decide +kernel
  refine ⟨⟨by decide, by decide, by decide, by decide⟩, eq_returned _ (by decide +kernel), horig, hclone, fun hf => ?_⟩
  have hsame := hf.lookups 0x100000
  rw [horig] at hsame
  have hne := hclone.symm.trans hsame
  cases hne

end Concrete

end Gubos.Vmm
