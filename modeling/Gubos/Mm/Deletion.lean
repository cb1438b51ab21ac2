/-
Taking a node out of the allocation tree (`remove_allocation` in `mm/vmm.c`).

The left child takes the place of the node, and the right subtree is hung at the right end of that. A node without a left child
is not provided for: the loop to the right end then starts at NULL. Nor are the parent links: the children of the node keep
its pointer, and it is freed. A later removal of one of them writes through that pointer.

- `addAllocations_linked`: in the trees that `add_allocation` builds every node has its parent's pointer;
- `removeAllocation_relinked`: what a removal does to the links;
- `removal_never_exact`: so the removal of a node is never exact. Without a left child it reads through NULL, and with one the
  records and their order are right, and all parent links but those of the children;
- `removed_parent_named`: a tree of three nodes.
-/
import Gubos.Core.SearchTree
import Gubos.Mm.CloneTree
import Gubos.Mm.OrderedTree

namespace Gubos.Vmm

open Gubos.Core Gubos.Paging

/-- an allocation tree by virtual address, with the parent's pointer in every node -/
structure LinkedTree (h : Heap) (ctx : VmmContext) (bs : List (ℕ × Area)) (t : BinaryTree (ℕ × VmmAllocation)) : Prop where
  rep : Rep h ctx bs t
  order : SearchTree VmmAllocation.virtualAddr t
  parents : ParentsAt h.nodes 0 t

/-! ## Parent links -/

section Parents

variable {A : Allocator} {h h' h₀ h₁ : Heap} {ctx : VmmContext} {bs : List (ℕ × Area)} {t t' : BinaryTree (ℕ × VmmAllocation)}
  {c : ℕ × VmmAllocation} {a : VmmAllocation} {as : List VmmAllocation} {nodes nodes' : ℕ → VmmAllocationTree}
  {go : VmmAllocation → Dir} {p q root parent prev fuel : ℕ}

/-- a node with a parent's pointer is the root, or a child of the node that the pointer names -/
theorem ParentsAt.link (hp : ParentsAt h.nodes parent t) (ht : TreeAt h.node root t) (hc : c ∈ cells t) :
    c.1 = root ∧ (h.nodes c.1).parent = parent ∨
      (h.nodes c.1).parent ∈ ptrs (cells t) ∧
        ((h.nodes (h.nodes c.1).parent).left = c.1 ∨ (h.nodes (h.nodes c.1).parent).right = c.1) := by
  induction t generalizing root parent with
  | nil => cases hc
  | node d l r ihl ihr =>
    obtain ⟨hroot, hl, hr⟩ := hp
    obtain ⟨rfl, _, _, htl, htr⟩ := ht
    simp only [cells_node, List.mem_cons, List.mem_append, ptrs_cons, ptrs_append] at hc ⊢
    rcases hc with rfl | hc | hc
    · exact Or.inl ⟨rfl, hroot⟩
    · refine Or.inr ?_
      rcases ihl hl htl hc with ⟨hchild, hparent⟩ | ⟨hmem, hchild⟩
      · rw [hparent]
        exact ⟨Or.inl rfl, Or.inl hchild.symm⟩
      · exact ⟨Or.inr (Or.inl hmem), hchild⟩
    · refine Or.inr ?_
      rcases ihr hr htr hc with ⟨hchild, hparent⟩ | ⟨hmem, hchild⟩
      · rw [hparent]
        exact ⟨Or.inl rfl, Or.inr hchild.symm⟩
      · exact ⟨Or.inr (Or.inr hmem), hchild⟩

theorem ParentsAt.parentOk (hp : ParentsAt h.nodes 0 t) (ht : TreeAt h.node ctx.allocations t) (hc : c ∈ cells t) :
    ParentOk h ctx t c.1 := by
  unfold ParentOk
  rcases hp.link ht hc with ⟨hroot, hparent⟩ | ⟨hmem, hchild⟩
  · rw [if_pos hparent, hroot]
  · have hne : (h.nodes c.1).parent ≠ 0 := fun h0 => ht.ne_zero (h0 ▸ hmem)
    rw [if_neg hne]
    exact ⟨hmem, hchild⟩

/-- the left child of a node has its pointer -/
theorem ParentsAt.left (hp : ParentsAt h.nodes parent t) (ht : TreeAt h.node root t) (hc : c ∈ cells t)
    (hleft : (h.nodes c.1).left ≠ 0) : (h.nodes (h.nodes c.1).left).parent = c.1 := by
  induction t generalizing root parent with
  | nil => cases hc
  | node d l r ihl ihr =>
    obtain ⟨_, hl, hr⟩ := hp
    obtain ⟨_, _, _, htl, htr⟩ := ht
    simp only [cells_node, List.mem_cons, List.mem_append] at hc
    rcases hc with rfl | hc | hc
    · cases l with
      | nil => exact absurd htl hleft
      | node e l₁ l₂ =>
        have he : (h.nodes c.1).left = e.1 := htl.1
        rw [he]
        exact hl.1
    · exact ihl hl htl hc
    · exact ihr hr htr hc

/-! ### Trees that are built -/

theorem ParentsAt.congr (hp : ParentsAt nodes parent t) (h : ∀ q ∈ ptrs (cells t), (nodes' q).parent = (nodes q).parent) :
    ParentsAt nodes' parent t := by
  induction t generalizing parent with
  | nil => trivial
  | node c l r ihl ihr =>
    obtain ⟨hroot, hl, hr⟩ := hp
    simp only [cells_node, List.mem_cons, List.mem_append, ptrs_cons, ptrs_append] at h
    exact ⟨(h c.1 (Or.inl rfl)).trans hroot, ihl hl fun q hq => h q (Or.inr (Or.inl hq)),
      ihr hr fun q hq => h q (Or.inr (Or.inr hq))⟩

/-- only the pointers of a tree matter -/
theorem ParentsAt.set (hp : ParentsAt nodes parent t) : ParentsAt nodes parent (t.map (setCell q a)) := by
  induction t generalizing parent with
  | nil => trivial
  | node c l r ihl ihr =>
    obtain ⟨hroot, hl, hr⟩ := hp
    have hc : (setCell q a c).1 = c.1 := by
      unfold setCell
      split_ifs with hq
      · exact hq.symm
      · rfl
    simp only [BinaryTree.map, ParentsAt, hc]
    exact ⟨hroot, ihl hl, ihr hr⟩

/-- a leaf has the pointer of the node at which the search for it fell out of the tree -/
theorem ParentsAt.insertLeaf (hp : ParentsAt h.nodes parent t) (ht : TreeAt h.node root t) (hgo : ∀ b, go b ≠ .stop)
    (hw : Core.walk h.node go fuel root parent = .ok (0, prev)) (hleaf : (nodes' p).parent = prev)
    (hsame : ∀ q ∈ ptrs (cells t), (nodes' q).parent = (h.nodes q).parent) :
    ParentsAt nodes' parent (insertLeaf go (p, a) t) := by
  induction t generalizing root parent fuel with
  | nil =>
    cases fuel with
    | zero => cases hw
    | succ fuel =>
      rw [Core.walk, if_pos (treeAt_nil.1 ht)] at hw
      cases hw
      exact ⟨hleaf, trivial, trivial⟩
  | node c l r ihl ihr =>
    obtain ⟨hroot, hl, hr⟩ := hp
    obtain ⟨rfl, hc0, hrec, htl, htr⟩ := ht
    simp only [cells_node, List.mem_cons, List.mem_append, ptrs_cons, ptrs_append] at hsame
    have hroot' := (hsame c.1 (Or.inl rfl)).trans hroot
    have hsamel : ∀ q ∈ ptrs (cells l), (nodes' q).parent = (h.nodes q).parent := fun q hq => hsame q (Or.inr (Or.inl hq))
    have hsamer : ∀ q ∈ ptrs (cells r), (nodes' q).parent = (h.nodes q).parent := fun q hq => hsame q (Or.inr (Or.inr hq))
    cases fuel with
    | zero => cases hw
    | succ fuel =>
      rw [Core.walk, if_neg hc0, hrec] at hw
      unfold Core.insertLeaf
      cases hdir : go c.2 with
      | stop => exact absurd hdir (hgo c.2)
      | left =>
        rw [hdir] at hw
        exact ⟨hroot', ihl hl htl hw hsamel, hr.congr hsamer⟩
      | right =>
        rw [hdir] at hw
        exact ⟨hroot', hl.congr hsamel, ihr hr htr hw hsamer⟩

theorem newNode_nodes {n : VmmAllocationTree} (hnew : h.newNode A n = .ok (h₁, p)) : h₁.nodes p = n := by
  unfold Heap.newNode at hnew
  dsimp only at hnew
  split_ifs at hnew
  cases hnew
  exact setNode_nodes n

theorem linkLeaf_parent (x leaf : ℕ) (n : VmmAllocationTree) : (linkLeaf x leaf n).parent = n.parent := by
  unfold linkLeaf
  split_ifs
  · rfl
  · rfl

/-- a write to a node that is not to its parent link -/
theorem setNode_parent {n : VmmAllocationTree} (hn : n.parent = (h.nodes q).parent) :
    ((h.setNode q n).nodes p).parent = (h.nodes p).parent := by
  by_cases hp : p = q
  · rw [hp, setNode_nodes, hn]
  · rw [setNode_nodes_of_ne _ hp]

/-- the parent links after a record is added -/
theorem addAllocation_parents (hr : Rep h ctx bs t) (hp : ParentsAt h.nodes 0 t) (hok : addAllocation A h ctx a = .ok h')
    (ht' : TreeAt h'.node ctx.allocations t') : ParentsAt h'.nodes 0 t' := by
  obtain ⟨hroot, ⟨_, rfl⟩ | ⟨_, prev, h₁, p, hw, _, hnew, rfl⟩⟩ := addAllocation_cases hr hok
  · have hset := @Rep.setRecord h ctx bs t a ctx.allocations hr
    rw [ht'.unique hset.tree]
    exact hp.set.congr fun q _ => setNode_parent rfl
  · rw [ht'.unique (hr.addLeaf hroot hw hnew).tree]
    obtain ⟨_, hfresh, _, _, hold, _⟩ := newNode_ok hnew
    refine hp.insertLeaf hr.tree (insertDir_ne_stop _) hw ?_ fun q hq => ?_
    · rw [setNode_parent (linkLeaf_parent _ _ _), newNode_nodes hnew]
    · have hqp : q ≠ p := fun he => hfresh (he ▸ hr.live q (List.mem_append_right _ hq))
      rw [setNode_parent (linkLeaf_parent _ _ _), hold q hqp]

/-- a root without pages has no children -/
def EmptyRootAlone (t : BinaryTree (ℕ × VmmAllocation)) : Prop :=
  ∀ c l r, t = .node c l r → c.2.pageCount = 0 → l = .nil ∧ r = .nil

theorem Grown.emptyRootAlone (hg : Grown t a t') (ha : 0 < a.pageCount) : EmptyRootAlone t' := by
  intro c l r ht' hc
  cases hg with
  | root _ _ =>
    cases ht'
    exact absurd hc ha.ne'
  | leaf _ hfull =>
    cases t with
    | nil =>
      cases ht'
      exact ⟨rfl, rfl⟩
    | node d l₁ r₁ =>
      have hd := hfull d l₁ r₁ rfl
      unfold Core.insertLeaf at ht'
      split at ht'
      · cases ht'
        exact absurd hc hd
      · cases ht'
        exact absurd hc hd

/-- **One insertion.** -/
theorem LinkedTree.add (ht : LinkedTree h ctx bs t) (halone : EmptyRootAlone t) (ha : 0 < a.pageCount)
    (hok : addAllocation A h ctx a = .ok h') : ∃ t', LinkedTree h' ctx bs t' ∧ EmptyRootAlone t' := by
  obtain ⟨t', hr, hgrown, _⟩ := addAllocation_spec ht.rep hok
  have hparents := addAllocation_parents ht.rep ht.parents hok hr.tree
  refine ⟨t', ⟨hr, ?_, hparents⟩, hgrown.emptyRootAlone ha⟩
  cases hgrown with
  | @root c l r hnode hc =>
    obtain ⟨rfl, rfl⟩ := halone c l r hnode hc
    exact searchTree_leaf _
  | leaf _ _ =>
    refine ht.order.insertLeaf (fun d hd => ?_) fun d hd => ?_
    · unfold insertDir at hd
      split_ifs at hd with hlt
      exact hlt
    · unfold insertDir at hd
      split_ifs at hd with hlt
      · exact absurd rfl hd
      · exact not_lt.1 hlt

/-- **All insertions.** Every tree of an address space that records are added to, one after the other, is a linked one. -/
theorem addAllocations_linked (hempty : createEmptyCtx A h₀ = .ok (h, ctx)) (has : ∀ a ∈ as, 0 < a.pageCount)
    (hbuild : addAllocations A ctx as h = .ok h') : ∃ t, LinkedTree h' ctx [] t := by
  -- from any linked tree
  have hrun : ∀ {h t}, LinkedTree h ctx [] t → EmptyRootAlone t → addAllocations A ctx as h = .ok h' →
      ∃ t', LinkedTree h' ctx [] t' := by
    clear hempty hbuild
    induction as with
    | nil =>
      intro h t ht _ hok
      cases hok
      exact ⟨t, ht⟩
    | cons a as ih =>
      intro h t ht halone hok
      obtain ⟨h₂, hadd, hok⟩ := bind_ok.1 hok
      obtain ⟨t₂, ht₂, halone₂⟩ := ht.add halone (has a List.mem_cons_self) hadd
      exact ih (fun b hb => has b (List.mem_cons_of_mem _ hb)) ht₂ halone₂ hok
  obtain ⟨r, hr⟩ := createEmptyCtx_rep hempty
  obtain ⟨⟨h₁, p⟩, hnew, hok⟩ := bind_ok.1 hempty
  cases hok
  have hroot : p = r := hr.tree.1
  refine hrun ⟨hr, searchTree_leaf _, ?_, trivial, trivial⟩ (fun c l r' he _ => ?_) hbuild
  · rw [← hroot, newNode_nodes hnew]
  · cases he
    exact ⟨rfl, rfl⟩

end Parents

/-! ## The removal -/

/-- what a removal does to the links: no parent link is written, and the other links to nodes that stay lead to them still -/
structure Relinked (h : Heap) (ctx : VmmContext) (q : ℕ) (h' : Heap) (ctx' : VmmContext) : Prop where
  parents : ∀ p, (h'.nodes p).parent = (h.nodes p).parent
  children : ∀ p x, x ≠ 0 → x ≠ q → (h.nodes p).left = x ∨ (h.nodes p).right = x →
    (h'.nodes p).left = x ∨ (h'.nodes p).right = x
  root : (h.nodes q).parent ≠ 0 → ctx'.allocations = ctx.allocations

section Removal

variable {h h' h₁ : Heap} {ctx ctx' ctx₁ : VmmContext} {bs : List (ℕ × Area)} {t : BinaryTree (ℕ × VmmAllocation)}
  {c : ℕ × VmmAllocation} {p q : ℕ}

theorem Relinked.trans (h1 : Relinked h ctx q h₁ ctx₁) (h2 : Relinked h₁ ctx₁ q h' ctx') : Relinked h ctx q h' ctx' where
  parents := fun p => (h2.parents p).trans (h1.parents p)
  children := fun p x hx0 hxq hx => h2.children p x hx0 hxq (h1.children p x hx0 hxq hx)
  root := fun hne => (h2.root fun h0 => hne ((h1.parents q).symm.trans h0)).trans (h1.root hne)

/-- a link of node `p` is written that leads to `q` or nowhere -/
theorem relinked_setNode {n : VmmAllocationTree} (hparent : n.parent = (h.nodes p).parent)
    (hchildren : ∀ x, x ≠ 0 → x ≠ q → (h.nodes p).left = x ∨ (h.nodes p).right = x → n.left = x ∨ n.right = x) :
    Relinked h ctx q (h.setNode p n) ctx := by
  refine ⟨fun _ => setNode_parent hparent, fun p' x hx0 hxq hx => ?_, fun _ => rfl⟩
  by_cases hp : p' = p
  · subst hp
    rw [setNode_nodes]
    exact hchildren x hx0 hxq hx
  · rw [setNode_nodes_of_ne _ hp]
    exact hx

/-- the left child takes the place of node `q` -/
theorem promoteLeft_relinked (hq : (h.nodes q).parent ≠ 0 → (h.nodes (h.nodes q).parent).left = q ∨
    (h.nodes (h.nodes q).parent).right = q) : Relinked h ctx q (promoteLeft h ctx q).1 (promoteLeft h ctx q).2 := by
  unfold promoteLeft
  dsimp only
  by_cases hpar : (h.nodes q).parent = 0
  · rw [if_neg (not_not.2 hpar)]
    exact ⟨fun _ => rfl, fun _ _ _ _ hx => hx, fun hne => absurd hpar hne⟩
  rw [if_pos hpar]
  have hchild := hq hpar
  split_ifs with hleft
  · exact relinked_setNode rfl fun x _ hxq hx => Or.inr (hx.resolve_left fun he => hxq (he.symm.trans hleft))
  · exact relinked_setNode rfl fun x _ hxq hx =>
      Or.inl (hx.resolve_right fun he => hxq (he.symm.trans (hchild.resolve_left hleft)))

/-- **The links after a removal.** -/
theorem removeAllocation_relinked (hq : (h.nodes q).parent ≠ 0 → (h.nodes (h.nodes q).parent).left = q ∨
    (h.nodes (h.nodes q).parent).right = q) (hok : removeAllocation h ctx q = .ok (h', ctx')) : Relinked h ctx q h' ctx' := by
  obtain ⟨m, hm, hok⟩ := bind_ok.1 hok
  cases hok
  have hend : ((promoteLeft h ctx q).1.nodes m).right = 0 := rightEnd_right hm
  have hhang := @relinked_setNode (promoteLeft h ctx q).1 (promoteLeft h ctx q).2 m q
    { (promoteLeft h ctx q).1.nodes m with right := ((promoteLeft h ctx q).1.nodes q).right } rfl
    fun x hx0 _ hx => Or.inl (hx.resolve_right fun he => hx0 (he.symm.trans hend))
  have hall := (promoteLeft_relinked hq).trans hhang
  exact ⟨hall.parents, hall.children, hall.root⟩

/-- a removal of a node without a left child reads through NULL -/
theorem removeAllocation_null (hr : Rep h ctx bs t) (hc : c ∈ cells t) (hp : ParentOk h ctx t c.1)
    (hleft : (h.nodes c.1).left = 0) : removeAllocation h ctx c.1 = .error .nullDereference := by
  unfold removeAllocation
  dsimp only
  rw [(hr.promoteLeft_below hc hp).1, hleft]
  rfl

end Removal

/-! ## Exact removals -/

/-- the records of a tree, from left to right -/
def records (t : BinaryTree (ℕ × VmmAllocation)) : List VmmAllocation := (inOrder t).map Prod.snd

/-- the tree `t'` is in memory, has the records of `t` in sequence but for that of `c`, and is in order -/
structure Without (h' : Heap) (ctx' : VmmContext) (t : BinaryTree (ℕ × VmmAllocation)) (c : ℕ × VmmAllocation)
    (t' : BinaryTree (ℕ × VmmAllocation)) : Prop where
  tree : TreeAt h'.node ctx'.allocations t'
  sequence : ∃ before after, inOrder t = before ++ c :: after ∧ records t' = (before ++ after).map Prod.snd
  order : SearchTree VmmAllocation.virtualAddr t'

/-- `remove_allocation` returns, and has taken out node `c` of the tree; every node has its parent's pointer, NULL at the root -/
def RemovesExactly (h : Heap) (ctx : VmmContext) (t : BinaryTree (ℕ × VmmAllocation)) (c : ℕ × VmmAllocation) : Prop :=
  ∃ h' ctx' t', removeAllocation h ctx c.1 = .ok (h', ctx') ∧ Without h' ctx' t c t' ∧ ParentsAt h'.nodes 0 t'

section Exact

variable {h h' : Heap} {ctx ctx' : VmmContext} {bs : List (ℕ × Area)} {t : BinaryTree (ℕ × VmmAllocation)}
  {c d : ℕ × VmmAllocation}

theorem LinkedTree.parentOk (ht : LinkedTree h ctx bs t) (hc : c ∈ cells t) : ParentOk h ctx t c.1 :=
  ht.parents.parentOk ht.rep.tree hc

/-- the records and their order after a removal that returns -/
theorem LinkedTree.without (ht : LinkedTree h ctx bs t) (hc : c ∈ cells t)
    (hok : removeAllocation h ctx c.1 = .ok (h', ctx')) : Without h' ctx' t c (removeCell c.1 t) := by
  have hr := removeAllocation_spec ht.rep hc (ht.parentOk hc) hok
  obtain ⟨before, after, hseq, hrem⟩ := inOrder_removeCell ht.rep.nodup_tree hc
  refine ⟨hr.tree, ⟨before, after, hseq, ?_⟩, ht.order.removeCell⟩
  unfold records
  rw [hrem]

/-- the node is out of the tree, and all others are in it -/
theorem LinkedTree.mem_removeCell (ht : LinkedTree h ctx bs t) (hc : c ∈ cells t) {q : ℕ} :
    q ∈ ptrs (cells (removeCell c.1 t)) ↔ q ∈ ptrs (cells t) ∧ q ≠ c.1 := by
  have hperm : (c.1 :: ptrs (cells (removeCell c.1 t))).Perm (ptrs (cells t)) :=
    (cells_removeCell ht.rep.nodup_tree hc).map Prod.fst
  have hnd := List.nodup_cons.1 (hperm.nodup_iff.2 ht.rep.nodup_tree)
  rw [← hperm.mem_iff, List.mem_cons]
  constructor
  · intro hq
    exact ⟨Or.inr hq, fun he => hnd.1 (he ▸ hq)⟩
  · rintro ⟨hq, hne⟩
    exact hq.resolve_left hne

theorem LinkedTree.relinked (ht : LinkedTree h ctx bs t) (hc : c ∈ cells t)
    (hok : removeAllocation h ctx c.1 = .ok (h', ctx')) : Relinked h ctx c.1 h' ctx' := by
  refine removeAllocation_relinked (fun hpar => ?_) hok
  have hlink := ht.parentOk hc
  unfold ParentOk at hlink
  rw [if_neg hpar] at hlink
  exact hlink.2

/-- **The parent links after a removal.** The children of the node name it still, and every other link is right. -/
theorem LinkedTree.parentOk_iff (ht : LinkedTree h ctx bs t) (hc : c ∈ cells t)
    (hok : removeAllocation h ctx c.1 = .ok (h', ctx')) (hd : d ∈ cells (removeCell c.1 t)) :
    ParentOk h' ctx' (removeCell c.1 t) d.1 ↔ (h.nodes d.1).parent ≠ c.1 := by
  have hc0 : c.1 ≠ 0 := fun h0 => ht.rep.tree.ne_zero (h0 ▸ mem_ptrs hc)
  obtain ⟨hdt, hdc⟩ := (ht.mem_removeCell hc).1 (mem_ptrs hd)
  have hd0 : d.1 ≠ 0 := fun h0 => ht.rep.tree.ne_zero (h0 ▸ hdt)
  have hcok := ht.parentOk hc
  have hdok := ht.parentOk (mem_cells_removeCell hd)
  have hlinks := ht.relinked hc hok
  unfold ParentOk at hcok hdok ⊢
  rw [hlinks.parents]
  by_cases hpar : (h.nodes d.1).parent = 0
  · -- the root is another node than `c`
    rw [if_pos hpar] at hdok ⊢
    refine iff_of_true ?_ fun he => hc0 (he.symm.trans hpar)
    rw [hlinks.root fun h0 => ?_]
    · exact hdok
    · rw [if_pos h0] at hcok
      exact hdc (hdok.symm.trans hcok)
  · rw [if_neg hpar] at hdok ⊢
    rw [ht.mem_removeCell hc]
    constructor
    · intro hlink
      exact hlink.1.2
    · intro hne
      exact ⟨⟨hdok.1, hne⟩, hlinks.children _ _ hd0 hdc hdok.2⟩

/-- **Removals.** In a tree in order with right parent links, no removal is exact, of whatever node. A node without a left
child makes it read through NULL. Otherwise the tree is in memory without the node, and its records are in order, but the
left child names the node that is no longer in the tree; the links that are wrong are those of the node's children. -/
theorem removal_never_exact (ht : LinkedTree h ctx bs t) (hc : c ∈ cells t) :
    ¬ RemovesExactly h ctx t c ∧
    ((h.nodes c.1).left = 0 → removeAllocation h ctx c.1 = .error .nullDereference) ∧
    ((h.nodes c.1).left ≠ 0 → ∃ h' ctx' t', removeAllocation h ctx c.1 = .ok (h', ctx') ∧ Without h' ctx' t c t' ∧
      (h.nodes c.1).left ∈ ptrs (cells t') ∧ (h'.nodes (h.nodes c.1).left).parent = c.1 ∧ c.1 ∉ ptrs (cells t') ∧
      ∀ d ∈ cells t', ParentOk h' ctx' t' d.1 ↔ (h.nodes d.1).parent ≠ c.1) := by
  have hreturns := removeAllocation_returns_iff ht.rep hc (ht.parentOk hc) ht.rep.length_lt
  -- the left child stays in the tree
  have hchild : (h.nodes c.1).left ≠ 0 →
      (h.nodes c.1).left ∈ ptrs (cells (removeCell c.1 t)) ∧ (h.nodes (h.nodes c.1).left).parent = c.1 := by
    intro hleft
    obtain ⟨s, hs, hin⟩ := ht.rep.tree.child ht.rep.nodup_tree (mem_ptrs hc) (Or.inl rfl)
    exact ⟨(ht.mem_removeCell hc).2 (hin _ (hs.root_mem hleft)), ht.parents.left ht.rep.tree hc hleft⟩
  have hout : c.1 ∉ ptrs (cells (removeCell c.1 t)) := fun hmem => ((ht.mem_removeCell hc).1 hmem).2 rfl
  refine ⟨?_, removeAllocation_null ht.rep hc (ht.parentOk hc), fun hleft => ?_⟩
  · rintro ⟨h', ctx', t', hok, hwithout, hparents⟩
    obtain rfl : t' = removeCell c.1 t := hwithout.tree.unique (ht.without hc hok).tree
    obtain ⟨hmem, hparent⟩ := hchild (hreturns.1 ⟨_, hok⟩)
    obtain ⟨d, hd, hleft⟩ := List.mem_map.1 hmem
    rw [← hleft] at hparent
    exact (ht.parentOk_iff hc hok hd).1 (hparents.parentOk hwithout.tree hd) hparent
  · obtain ⟨⟨h', ctx'⟩, hok⟩ := hreturns.2 hleft
    obtain ⟨hmem, hparent⟩ := hchild hleft
    exact ⟨h', ctx', removeCell c.1 t, hok, ht.without hc hok, hmem, ((ht.relinked hc hok).parents _).trans hparent, hout,
      fun d hd => ht.parentOk_iff hc hok hd⟩

end Exact

/-! ### Concrete trees -/

section Concrete

instance decParentsAt (nodes : ℕ → VmmAllocationTree) : ∀ parent t, Decidable (ParentsAt nodes parent t)
  | _, .nil => .isTrue trivial
  | parent, .node c l r =>
    haveI := decParentsAt nodes c.1 l
    haveI := decParentsAt nodes c.1 r
    inferInstanceAs (Decidable ((nodes c.1).parent = parent ∧ ParentsAt nodes c.1 l ∧ ParentsAt nodes c.1 r))

/-- the three ranges as `add_allocation` links them: the first is the root, in block 1 -/
def threeNodes : BinaryTree (ℕ × VmmAllocation) :=
  .node (1, ⟨0x400000, 0x800000, 2, 7⟩) (.node (2, ⟨0x100000, 0x900000, 1, 7⟩) .nil .nil)
    (.node (3, ⟨0xC0000000, 0, 256, 3⟩) .nil .nil)

/-- without the root, the node in block 2 is the root -/
def twoNodes : BinaryTree (ℕ × VmmAllocation) :=
  .node (2, ⟨0x100000, 0x900000, 1, 7⟩) .nil (.node (3, ⟨0xC0000000, 0, 256, 3⟩) .nil .nil)

theorem threeNodes_linked : LinkedTree (built threeRanges) emptySpace.2 [] threeNodes :=
  ⟨⟨by decide +kernel, by decide +kernel, by decide, by decide +kernel⟩, by decide, by decide +kernel⟩

theorem removal_never_exact_root :
    LinkedTree (built threeRanges) emptySpace.2 [] threeNodes ∧
      ¬ RemovesExactly (built threeRanges) emptySpace.2 threeNodes (1, ⟨0x400000, 0x800000, 2, 7⟩) :=
  ⟨threeNodes_linked, (removal_never_exact threeNodes_linked (by decide)).1⟩

/-- the heap after the removal of the root -/
def rootRemoved : Heap :=
  (returned (built threeRanges, emptySpace.2) (removeAllocation (built threeRanges) emptySpace.2 1)).1

/-- **A node that is gone is named.** Without the root, its left child is the root and has the link to it still; and the left
child itself, a leaf, cannot be removed. -/
theorem removed_parent_named :
    LinkedTree (built threeRanges) emptySpace.2 [] threeNodes ∧
    removeAllocation (built threeRanges) emptySpace.2 2 = .error .nullDereference ∧
    ¬ RemovesExactly (built threeRanges) emptySpace.2 threeNodes (2, ⟨0x100000, 0x900000, 1, 7⟩) ∧
    removeAllocation (built threeRanges) emptySpace.2 1 = .ok (rootRemoved, ⟨2, 0⟩) ∧ TreeAt rootRemoved.node 2 twoNodes ∧
    (rootRemoved.nodes 2).parent = 1 ∧
    ¬ RemovesExactly (built threeRanges) emptySpace.2 threeNodes (1, ⟨0x400000, 0x800000, 2, 7⟩) := by
  have hmem : (2, ⟨0x100000, 0x900000, 1, 7⟩) ∈ cells threeNodes := by decide
  have hnone : ((built threeRanges).nodes 2).left = 0 := by decide +kernel
  have hleaf := removeAllocation_null threeNodes_linked.rep hmem (threeNodes_linked.parentOk hmem) hnone
  have hroot : removeAllocation (built threeRanges) emptySpace.2 1 = .ok (rootRemoved, ⟨2, 0⟩) :=
    eq_returned_pair (built threeRanges, emptySpace.2) (by decide +kernel) (by decide +kernel)
  have htree : TreeAt rootRemoved.node 2 twoNodes := by decide +kernel
  have hparent : (rootRemoved.nodes 2).parent = 1 := by decide +kernel
  refine ⟨threeNodes_linked, hleaf, ?_, hroot, htree, hparent, ?_⟩
  · rintro ⟨h₁, ctx₁, t₁, hok, _⟩
    rw [hleaf] at hok
    cases hok
  · rintro ⟨h₁, ctx₁, t₁, hok, hwithout, hparents⟩
    rw [hroot] at hok
    cases hok
    rw [hwithout.tree.unique htree] at hparents
    exact absurd (hparent.symm.trans hparents.1) (by decide)

end Concrete

end Gubos.Vmm
