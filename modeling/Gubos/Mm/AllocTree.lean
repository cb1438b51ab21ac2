/-
The allocation tree of an address space: what adding, shrinking and removing a record does to the allocated pages.
-/
import Gubos.Mm.Frame

namespace Gubos.Vmm

open Gubos.Core Gubos.Paging

/-- how many records of the tree contain page `p` -/
def allocCover (t : BinaryTree (ℕ × VmmAllocation)) (p : ℕ) : ℕ := Tiling.cover ((cells t).map fun c => allocSpan c.2) p

/-- a record: page-aligned, and inside the 32-bit address space unless it is empty -/
structure AllocOk (a : VmmAllocation) : Prop where
  aligned : a.virtualAddr % pageSize = 0
  fits : 0 < a.pageCount → a.virtualAddr + a.pageCount * pageSize ≤ 2 ^ 32

section Cover

variable {t t' : BinaryTree (ℕ × VmmAllocation)} {c : ℕ × VmmAllocation} {a : VmmAllocation} {x : ℕ}

theorem allocCover_perm {m : List (ℕ × VmmAllocation)} (h : (cells t).Perm m) :
    allocCover t x = Tiling.cover (m.map fun c => allocSpan c.2) x :=
  Tiling.cover_perm (h.map _)

theorem hit_empty (h : a.pageCount = 0) : Tiling.hit (allocSpan a) x = 0 := by
  rw [Tiling.hit_eq, if_neg]
  rw [allocSpan, h]
  omega

/-- the record of one cell is replaced -/
theorem allocCover_setCell (hnd : (ptrs (cells t)).Nodup) (hc : c ∈ cells t) :
    allocCover (t.map (setCell c.1 a)) x + Tiling.hit (allocSpan c.2) x = allocCover t x + Tiling.hit (allocSpan a) x := by
  obtain ⟨l₁, l₂, hl⟩ := List.append_of_mem hc
  unfold allocCover
  rw [hl] at hnd
  rw [cells_map, hl, map_setCell hnd]
  simp only [List.map_append, List.map_cons, Tiling.cover_append, Tiling.cover_cons]
  omega

theorem allocCover_removeCell (hnd : (ptrs (cells t)).Nodup) (hc : c ∈ cells t) :
    allocCover (removeCell c.1 t) x + Tiling.hit (allocSpan c.2) x = allocCover t x := by
  rw [allocCover_perm (cells_removeCell hnd hc).symm, List.map_cons, Tiling.cover_cons, Nat.add_comm]
  rfl

end Cover

/-! ## Changes of the tree -/

section Rep

variable {A : Allocator} {h h' : Heap} {ctx ctx' : VmmContext} {l : List (ℕ × Area)}
  {t : BinaryTree (ℕ × VmmAllocation)} {c : ℕ × VmmAllocation} {a : VmmAllocation} {q : ℕ}

/-- the record of one node changes -/
theorem Rep.setRecord (hr : Rep h ctx l t) :
    Rep (h.setNode q { h.nodes q with alloc := a }) ctx l (t.map (setCell q a)) := by
  have hp : ptrs (cells (t.map (setCell q a))) = ptrs (cells t) := by rw [cells_map, ptrs_map_setCell]
  refine ⟨hr.list, hr.tree.set (fun p hp => setNode_node_ne hp) setNode_node_self, ?_, ?_⟩
  · rw [hp]
    exact hr.nodup
  · rw [hp]
    exact hr.live

/-- the tree after a record is added to it: an empty root takes it, else a new leaf -/
inductive Grown (t : BinaryTree (ℕ × VmmAllocation)) (a : VmmAllocation) : BinaryTree (ℕ × VmmAllocation) → Prop
  | root {c : ℕ × VmmAllocation} {tl tr : BinaryTree (ℕ × VmmAllocation)} :
      t = .node c tl tr → c.2.pageCount = 0 → Grown t a (.node (c.1, a) tl tr)
  | leaf {p : ℕ} : p ∉ ptrs (cells t) → (∀ c tl tr, t = .node c tl tr → c.2.pageCount ≠ 0) →
      Grown t a (insertLeaf (insertDir a.virtualAddr) (p, a) t)

theorem Grown.cover {t' : BinaryTree (ℕ × VmmAllocation)} (hg : Grown t a t') (x : ℕ) :
    allocCover t' x = allocCover t x + Tiling.hit (allocSpan a) x := by
  cases hg with
  | root ht hc =>
    subst ht
    unfold allocCover
    simp only [cells_node, List.map_cons, Tiling.cover_cons, hit_empty hc, Nat.zero_add]
    exact Nat.add_comm _ _
  | leaf _ _ =>
    rw [allocCover_perm (cells_insertLeaf _ _ _), List.map_cons, Tiling.cover_cons, Nat.add_comm]
    rfl

theorem Grown.mem {t' : BinaryTree (ℕ × VmmAllocation)} (hg : Grown t a t') :
    ∀ c ∈ cells t', c.2 = a ∨ c ∈ cells t := by
  intro c hc
  cases hg with
  | root ht _ =>
    subst ht
    rcases List.mem_cons.1 hc with rfl | hc
    · exact Or.inl rfl
    · exact Or.inr (List.mem_cons_of_mem _ hc)
  | leaf _ _ =>
    rcases List.mem_cons.1 ((cells_insertLeaf _ _ _).mem_iff.1 hc) with rfl | hc
    · exact Or.inl rfl
    · exact Or.inr hc

theorem Grown.has {t' : BinaryTree (ℕ × VmmAllocation)} (hg : Grown t a t') : ∃ c ∈ cells t', c.2 = a := by
  cases hg with
  | @root d tl tr _ _ => exact ⟨(d.1, a), List.mem_cons_self, rfl⟩
  | @leaf p _ _ => exact ⟨(p, a), (cells_insertLeaf _ _ _).mem_iff.2 List.mem_cons_self, rfl⟩

/-- a node with the link to a new leaf -/
def linkLeaf (virtualAddr leaf : ℕ) (n : VmmAllocationTree) : VmmAllocationTree :=
  if virtualAddr < n.alloc.virtualAddr then { n with left := leaf } else { n with right := leaf }

/-- the insertion search never stops at a node -/
theorem insertDir_ne_stop (x : ℕ) (b : VmmAllocation) : insertDir x b ≠ .stop := by
  unfold insertDir
  split_ifs
  · decide
  · decide

/-- **What `add_allocation` does**: it fills an empty root, or links a new leaf where the search fell out of the tree -/
theorem addAllocation_cases (hr : Rep h ctx l t) (hok : addAllocation A h ctx a = .ok h') : ctx.allocations ≠ 0 ∧
    ((h.nodes ctx.allocations).alloc.pageCount = 0 ∧
        h' = h.setNode ctx.allocations { h.nodes ctx.allocations with alloc := a } ∨
      (h.nodes ctx.allocations).alloc.pageCount ≠ 0 ∧ ∃ prev h₁ p,
        walk h.node (insertDir a.virtualAddr) rounds ctx.allocations 0 = .ok (0, prev) ∧ prev ≠ 0 ∧
        h.newNode A ⟨a, 0, 0, prev⟩ = .ok (h₁, p) ∧ h' = h₁.setNode prev (linkLeaf a.virtualAddr p (h₁.nodes prev))) := by
  unfold addAllocation at hok
  dsimp only at hok
  by_cases hroot : ctx.allocations = 0
  · rw [if_pos hroot] at hok
    cases hok
  rw [if_neg hroot] at hok
  refine ⟨hroot, ?_⟩
  by_cases hempty : (h.nodes ctx.allocations).alloc.pageCount = 0
  · rw [if_pos hempty] at hok
    cases hok
    exact Or.inl ⟨hempty, rfl⟩
  · rw [if_neg hempty] at hok
    obtain ⟨⟨q, prev⟩, hw, hok⟩ := bind_ok.1 hok
    have hq : q = 0 := by
      rcases walk_spec hr.tree hw with ⟨h0, _⟩ | ⟨b, hb⟩
      · exact h0
      · exact absurd (descend_some hb).2 (insertDir_ne_stop _ _)
    subst hq
    dsimp only at hok
    split_ifs at hok with hprev
    obtain ⟨⟨h₁, p⟩, hnew, hok⟩ := bind_ok.1 hok
    refine Or.inr ⟨hempty, prev, h₁, p, hw, hprev, hnew, ?_⟩
    unfold linkLeaf
    dsimp only at hok
    split_ifs at hok ⊢
    · cases hok
      rfl
    · cases hok
      rfl

/-- a new leaf is linked where the search fell out of the tree -/
theorem Rep.addLeaf {prev p : ℕ} {h₁ : Heap} (hr : Rep h ctx l t) (hroot : ctx.allocations ≠ 0)
    (hw : walk h.node (insertDir a.virtualAddr) rounds ctx.allocations 0 = .ok (0, prev))
    (hnew : h.newNode A ⟨a, 0, 0, prev⟩ = .ok (h₁, p)) :
    Rep (h₁.setNode prev (linkLeaf a.virtualAddr p (h₁.nodes prev))) ctx l
      (insertLeaf (insertDir a.virtualAddr) (p, a) t) := by
  obtain ⟨hp0, hp, hlive, hnode, hsame, hblock⟩ := newNode_ok hnew
  have hpl : p ∉ ptrs l := fun hm => hp (hr.live p (List.mem_append_left _ hm))
  have hpt : p ∉ ptrs (cells t) := fun hm => hp (hr.live p (List.mem_append_right _ hm))
  have ht : t ≠ .nil := by
    rintro rfl
    exact hroot hr.tree
  have hprev : prev ∈ ptrs (cells t) := (walk_prev_mem hr.tree hw).resolve_left fun hn => ht hn.1
  have hne : prev ≠ p := fun e => hpt (e ▸ hprev)
  have hperm : (ptrs (cells (insertLeaf (insertDir a.virtualAddr) (p, a) t))).Perm (p :: ptrs (cells t)) :=
    (cells_insertLeaf _ (p, a) t).map Prod.fst
  have hall := hperm.append_left (ptrs l)
  refine ⟨?_, ?_, ?_, ?_⟩
  · rw [setNode_block, hblock]
    exact hr.list
  · refine hr.tree.insert ht hw hr.nodup_tree hp0 hpt ?_ ?_ fun q hq hqp => ?_
    · rw [setNode_node_ne (Ne.symm hne), hnode]
    · -- the link that is set is the one the search would have followed
      rw [setNode_node_self, hsame prev hne]
      unfold Heap.node insertDir linkLeaf
      by_cases hlt : a.virtualAddr < (h.nodes prev).alloc.virtualAddr
      · simp only [if_pos hlt, if_true]
      · simp only [if_neg hlt, reduceCtorEq, if_false]
    · rw [setNode_node_ne hq]
      unfold Heap.node
      rw [hsame q hqp]
  · refine hall.nodup_iff.2 (List.perm_middle.nodup_iff.2 (List.nodup_cons.2 ⟨?_, hr.nodup⟩))
    simp only [List.mem_append, not_or]
    exact ⟨hpl, hpt⟩
  · intro q hq
    rw [setNode_arena, hlive]
    have hq' := List.perm_middle.mem_iff.1 (hall.mem_iff.1 hq)
    rcases List.mem_cons.1 hq' with rfl | hq'
    · exact List.mem_cons_self
    · exact List.mem_cons_of_mem _ (hr.live q hq')

/-- **Adding a record.** -/
theorem addAllocation_spec (hr : Rep h ctx l t) (hok : addAllocation A h ctx a = .ok h') :
    ∃ t', Rep h' ctx l t' ∧ Grown t a t' ∧ Frame (own l t) h h' (own l t') := by
  obtain ⟨hroot, ⟨hempty, rfl⟩ | ⟨hempty, prev, h₁, p, hw, hprev, hnew, rfl⟩⟩ := addAllocation_cases hr hok
  · cases t with
    | nil => exact absurd hr.tree hroot
    | node c tl tr =>
      obtain ⟨hc, _, hc2, _, _⟩ := hr.tree
      have hset := hr.setRecord (q := c.1) (a := a)
      have hnd := hr.nodup_tree
      simp only [cells_node, ptrs_cons, ptrs_append, List.nodup_cons, List.mem_append, not_or] at hnd
      rw [BinaryTree.map, setCell, if_pos rfl, map_setCell_of_notMem hnd.1.1, map_setCell_of_notMem hnd.1.2] at hset
      rw [hc] at hempty ⊢
      have hmem : c.1 ∈ own l (.node c tl tr) := List.mem_append_right _ List.mem_cons_self
      exact ⟨_, hset, .root rfl (hc2 ▸ hempty), (frame_setNode hmem).mono fun _ hp => hp⟩
  · have hp := (newNode_ok hnew).2.1
    refine ⟨_, hr.addLeaf hroot hw hnew, .leaf (fun hm => hp (hr.live p (List.mem_append_right _ hm)))
      fun c tl tr ht hc => hempty ?_, ?_⟩
    · obtain ⟨hroot', _, hc2, _⟩ := ht ▸ hr.tree
      have hc2' : (h.nodes c.1).alloc = c.2 := hc2
      rw [hroot', hc2']
      exact hc
    · have hprevmem : prev ∈ own l t := by
        refine List.mem_append_right _ ((walk_prev_mem hr.tree hw).resolve_left fun hn => ?_)
        exact hprev hn.2
      have hnewf : Frame (own l t) h h₁ (p :: own l t) := frame_newNode hnew
      refine (hnewf.trans (frame_setNode (List.mem_cons_of_mem _ hprevmem))).mono fun q hq => ?_
      rcases List.mem_append.1 hq with hq | hq
      · exact List.mem_cons_of_mem _ (List.mem_append_left _ hq)
      · obtain ⟨d, hd, rfl⟩ := List.mem_map.1 hq
        rcases List.mem_cons.1 ((cells_insertLeaf _ _ _).mem_iff.1 hd) with rfl | hd
        · exact List.mem_cons_self
        · exact List.mem_cons_of_mem _ (List.mem_append_right _ (mem_ptrs hd))

/-- the parent link of node `q` names the node above it, and is NULL at the root -/
def ParentOk (h : Heap) (ctx : VmmContext) (t : BinaryTree (ℕ × VmmAllocation)) (q : ℕ) : Prop :=
  if (h.nodes q).parent = 0 then ctx.allocations = q
  else (h.nodes q).parent ∈ ptrs (cells t) ∧
    ((h.nodes (h.nodes q).parent).left = q ∨ (h.nodes (h.nodes q).parent).right = q)

theorem Rep.kfree (hr : Rep h ctx l t) (hq : q ∉ ptrs l ++ ptrs (cells t)) : Rep (h.kfree q) ctx l t where
  list := hr.list
  tree := hr.tree
  nodup := hr.nodup
  live := fun p hp => (List.mem_erase_of_ne fun (e : p = q) => hq (e ▸ hp)).2 (hr.live p hp)

/-- the tree is replaced by one on some of its cells -/
theorem Rep.subtree {t' : BinaryTree (ℕ × VmmAllocation)} (hr : Rep h ctx l t)
    (hperm : (c :: cells t').Perm (cells t)) (hblock : h'.block = h.block) (harena : h'.arena = h.arena)
    (hctx : ctx'.freeBlocks = ctx.freeBlocks) (htree : TreeAt h'.node ctx'.allocations t') :
    Rep (h'.kfree c.1) ctx' l t' := by
  have hall : (c.1 :: (ptrs l ++ ptrs (cells t'))).Perm (ptrs l ++ ptrs (cells t)) :=
    List.perm_middle.symm.trans ((hperm.map Prod.fst).append_left (ptrs l))
  have hnd := List.nodup_cons.1 (hall.nodup_iff.2 hr.nodup)
  refine Rep.kfree ⟨?_, htree, hnd.2, fun p hp => ?_⟩ hnd.1
  · rw [hblock, hctx]
    exact hr.list
  · rw [harena]
    exact hr.live p (hall.mem_iff.1 (List.mem_cons_of_mem _ hp))

theorem promoteLeft_root (hp : (h.nodes q).parent = 0) :
    promoteLeft h ctx q = (h, { ctx with allocations := (h.nodes q).left }) := by
  simp only [promoteLeft, hp, ne_eq, not_true, if_false]

/-- the link of the parent that led to node `q` -/
theorem promoteLeft_child (ctx : VmmContext) {d : ℕ} (hd : (h.nodes q).parent = d) (hd0 : d ≠ 0) :
    ∃ nd : VmmAllocationTree, promoteLeft h ctx q = (h.setNode d nd, ctx) ∧
      (nd.alloc, nd.left, nd.right) = if (h.node d).2.1 = q then ((h.node d).1, (h.node q).2.1, (h.node d).2.2)
        else ((h.node d).1, (h.node d).2.1, (h.node q).2.1) := by
  unfold promoteLeft Heap.node
  dsimp only
  rw [hd, if_pos hd0]
  split_ifs
  · exact ⟨_, rfl, rfl⟩
  · exact ⟨_, rfl, rfl⟩

/-- a write to the parent of node `q` leaves the node and the search below it alone: the parent is not in the subtree of `q` -/
theorem Rep.setParent (hr : Rep h ctx l t) (hq : q ≠ 0) {d : ℕ} (hd : d ∈ ptrs (cells t))
    (hdq : (h.nodes d).left = q ∨ (h.nodes d).right = q) (nd : VmmAllocationTree) :
    (h.setNode d nd).nodes q = h.nodes q ∧
      rightEnd (h.setNode d nd).node rounds (h.nodes q).left = rightEnd h.node rounds (h.nodes q).left ∧
      ∀ m, rightEnd h.node rounds (h.nodes q).left = .ok m → m ≠ d := by
  obtain ⟨s, hs, hin⟩ := hr.tree.child hr.nodup_tree hd hdq
  have hsame : (h.setNode d nd).nodes q = h.nodes q := Function.update_of_ne (hin q (hs.root_mem hq)).2 _ _
  obtain ⟨e, a, b, rfl⟩ : ∃ e a b, s = .node e a b := by
    cases s with
    | nil => exact absurd hs hq
    | node e a b => exact ⟨e, a, b, rfl⟩
  obtain ⟨hqe, _, _, hleft, _⟩ := hs
  rw [← hqe] at hleft
  refine ⟨hsame, rightEnd_congr hleft fun x hx => setNode_node_ne (hin x (by simp [hx])).2, fun m hm => ?_⟩
  exact (hin m (by simp [rightEnd_mem hleft hm])).2

/-- **Removing a record.** A node whose parent link is right is taken out, if it has a left child. -/
theorem removeAllocation_spec (hr : Rep h ctx l t) (hc : c ∈ cells t) (hp : ParentOk h ctx t c.1)
    (hok : removeAllocation h ctx c.1 = .ok (h', ctx')) : Rep h' ctx' l (removeCell c.1 t) := by
  have hperm := cells_removeCell hr.nodup_tree hc
  have hc0 : c.1 ≠ 0 := fun h0 => hr.tree.ne_zero (h0 ▸ mem_ptrs hc)
  unfold removeAllocation at hok
  unfold ParentOk at hp
  by_cases hpar : (h.nodes c.1).parent = 0
  · rw [if_pos hpar] at hp
    rw [promoteLeft_root hpar] at hok
    obtain ⟨m, hm, hok⟩ := bind_ok.1 hok
    cases hok
    refine hr.subtree hperm rfl rfl rfl ?_
    exact TreeAt.remove_root (hp ▸ hr.tree) hc0 hr.nodup_tree hm setNode_node_self fun q _ _ hqm => setNode_node_ne hqm
  · rw [if_neg hpar] at hp
    obtain ⟨hd, hdq⟩ := hp
    generalize hdef : (h.nodes c.1).parent = d at hpar hd hdq
    obtain ⟨nd, hprom, hnd⟩ := promoteLeft_child ctx hdef hpar
    obtain ⟨hnode, hsame, hend⟩ := hr.setParent hc0 hd hdq nd
    rw [hprom] at hok
    dsimp only at hok
    rw [hnode, hsame] at hok
    obtain ⟨m, hm, hok⟩ := bind_ok.1 hok
    cases hok
    have hmd : m ≠ d := hend m hm
    refine hr.subtree hperm rfl rfl rfl ?_
    refine hr.tree.remove_child hr.nodup_tree hc0 hd hdq hm ?_ ?_ fun x _ hxd _ hxm => ?_
    · rw [setNode_node_self]
      simp only [Heap.setNode, Function.update_of_ne hmd]
      rfl
    · rw [setNode_node_ne (Ne.symm hmd), setNode_node_self]
      exact hnd
    · rw [setNode_node_ne hxm, setNode_node_ne hxd]

/-- what is written for the left child to take the place of a node is neither in the node nor below it -/
theorem Rep.promoteLeft_below (hr : Rep h ctx l t) (hc : c ∈ cells t) (hp : ParentOk h ctx t c.1) :
    (promoteLeft h ctx c.1).1.nodes c.1 = h.nodes c.1 ∧
      rightEnd (promoteLeft h ctx c.1).1.node rounds (h.nodes c.1).left = rightEnd h.node rounds (h.nodes c.1).left := by
  have hc0 : c.1 ≠ 0 := fun h0 => hr.tree.ne_zero (h0 ▸ mem_ptrs hc)
  unfold ParentOk at hp
  by_cases hpar : (h.nodes c.1).parent = 0
  · rw [promoteLeft_root hpar]
    exact ⟨rfl, rfl⟩
  · rw [if_neg hpar] at hp
    obtain ⟨nd, hprom, _⟩ := promoteLeft_child ctx rfl hpar
    obtain ⟨hnode, hsame, _⟩ := hr.setParent hc0 hp.1 hp.2 nd
    rw [hprom]
    exact ⟨hnode, hsame⟩

/-- the removal of a node whose parent link is right returns exactly if the node has a left child -/
theorem removeAllocation_returns_iff (hr : Rep h ctx l t) (hc : c ∈ cells t) (hp : ParentOk h ctx t c.1)
    (hlen : (cells t).length < rounds) : (∃ r, removeAllocation h ctx c.1 = .ok r) ↔ (h.nodes c.1).left ≠ 0 := by
  obtain ⟨a, ha, hsize⟩ := hr.tree.left_of_mem hc
  have hend := rightEnd_returns_iff ha (hsize.trans hlen)
  obtain ⟨hnode, hsame⟩ := hr.promoteLeft_below hc hp
  refine Iff.trans ?_ hend
  unfold removeAllocation
  dsimp only
  rw [hnode, hsame]
  constructor
  · rintro ⟨r, hok⟩
    obtain ⟨q, hq, _⟩ := bind_ok.1 hok
    exact ⟨q, hq⟩
  · rintro ⟨q, hq⟩
    exact ⟨_, bind_ok.2 ⟨q, hq, rfl⟩⟩

end Rep

end Gubos.Vmm
