/-
The free list of an address space: what taking and returning pages does to the free pages.
-/
import Gubos.Core.Run
import Gubos.Core.Tiling
import Gubos.Mm.Vmm

namespace Gubos.Vmm

open Gubos.Core Gubos.Paging

/-! ## The structures in memory -/

/-- the free list and the allocation tree of a context, in cells of their own that are handed out -/
structure Rep (h : Heap) (ctx : VmmContext) (l : List (ℕ × Area)) (t : BinaryTree (ℕ × VmmAllocation)) : Prop where
  list : Seg h.block ctx.freeBlocks l 0
  tree : TreeAt h.node ctx.allocations t
  nodup : (ptrs l ++ ptrs (cells t)).Nodup
  live : ∀ p ∈ ptrs l ++ ptrs (cells t), p ∈ h.arena.live

/-- the pages of a free area, and of an allocation: number of the first, and how many -/
def span (a : Area) : ℕ × ℕ := (a.virtualAddr / pageSize, a.pageCount)
def allocSpan (a : VmmAllocation) : ℕ × ℕ := (a.virtualAddr / pageSize, a.pageCount)

/-- how many areas of the free list contain page `p` -/
def freeCover (l : List (ℕ × Area)) (p : ℕ) : ℕ := Tiling.cover (l.map fun c => span c.2) p

/-- a free area: page-aligned, not empty, inside the 32-bit address space -/
structure AreaOk (a : Area) : Prop where
  aligned : a.virtualAddr % pageSize = 0
  nonempty : 0 < a.pageCount
  fits : a.virtualAddr + a.pageCount * pageSize ≤ 2 ^ 32

/-- the areas are proper, and sorted by address without overlap -/
structure FreeOk (l : List (ℕ × Area)) : Prop where
  area : ∀ c ∈ l, AreaOk c.2
  sorted : l.Pairwise fun c d => c.2.virtualAddr + c.2.pageCount * pageSize ≤ d.2.virtualAddr

section Cells

variable {A : Allocator} {h h' : Heap} {p q : ℕ} {b : VmmFreeBlocks} {n : VmmAllocationTree}

@[simp] theorem setBlock_block_self : (h.setBlock p b).block p = (b.toArea, b.next) := by
  simp [Heap.setBlock, Heap.block]

theorem setBlock_block_ne (hq : q ≠ p) : (h.setBlock p b).block q = h.block q := by
  simp [Heap.setBlock, Heap.block, Function.update_of_ne hq]

@[simp] theorem setBlock_node : (h.setBlock p b).node = h.node := rfl
@[simp] theorem setBlock_arena : (h.setBlock p b).arena = h.arena := rfl
@[simp] theorem kfree_block : (h.kfree p).block = h.block := rfl
@[simp] theorem setNode_block : (h.setNode p n).block = h.block := rfl
@[simp] theorem setNode_arena : (h.setNode p n).arena = h.arena := rfl

@[simp] theorem setNode_node_self : (h.setNode p n).node p = (n.alloc, n.left, n.right) := by
  simp [Heap.setNode, Heap.node]

theorem setNode_node_ne (hq : q ≠ p) : (h.setNode p n).node q = h.node q := by
  simp [Heap.setNode, Heap.node, Function.update_of_ne hq]

/-- a new block is one that was not handed out -/
theorem newBlock_ok (hok : h.newBlock A b = .ok (h', p)) :
    p ≠ 0 ∧ p ∉ h.arena.live ∧ h'.arena.live = p :: h.arena.live ∧ h'.block p = (b.toArea, b.next) ∧
      (∀ q, q ≠ p → h'.block q = h.block q) ∧ h'.node = h.node := by
  unfold Heap.newBlock at hok
  simp only at hok
  split_ifs at hok with h0
  cases hok
  exact ⟨h0, h.arena.alloc_fresh A h0, h.arena.alloc_live A h0, setBlock_block_self, fun q hq => setBlock_block_ne hq, rfl⟩

/-- a new node is one that was not handed out -/
theorem newNode_ok (hok : h.newNode A n = .ok (h', p)) :
    p ≠ 0 ∧ p ∉ h.arena.live ∧ h'.arena.live = p :: h.arena.live ∧ h'.node p = (n.alloc, n.left, n.right) ∧
      (∀ q, q ≠ p → h'.nodes q = h.nodes q) ∧ h'.block = h.block := by
  unfold Heap.newNode at hok
  simp only at hok
  split_ifs at hok with h0
  cases hok
  exact ⟨h0, h.arena.alloc_fresh A h0, h.arena.alloc_live A h0, setNode_node_self,
    fun q hq => Function.update_of_ne hq _ _, rfl⟩

end Cells

/-! ## Changes of the list -/

section Rep

variable {A : Allocator} {h h' : Heap} {ctx : VmmContext} {l l₁ l₂ : List (ℕ × Area)}
  {t : BinaryTree (ℕ × VmmAllocation)} {c : ℕ × Area} {a : Area} {p : ℕ}

theorem Rep.nodup_list (hr : Rep h ctx l t) : (ptrs l).Nodup := (List.nodup_append.1 hr.nodup).1

theorem Rep.nodup_tree (hr : Rep h ctx l t) : (ptrs (cells t)).Nodup := (List.nodup_append.1 hr.nodup).2.1

/-- the other cells are not the cell `c` -/
theorem Rep.ne_of_mem (hr : Rep h ctx (l₁ ++ c :: l₂) t) : ∀ a ∈ ptrs (l₁ ++ l₂), a ≠ c.1 := by
  have hnd := hr.nodup_list
  rw [ptrs_append, ptrs_cons, List.nodup_middle, List.nodup_cons, ← ptrs_append] at hnd
  exact fun a ha he => hnd.1 (he ▸ ha)

theorem Rep.block_eq (hr : Rep h ctx (l₁ ++ c :: l₂) t) : (h.blocks c.1).toArea = c.2 :=
  hr.list.contents c (by simp)

/-- the area of one block changes -/
theorem Rep.setArea (hr : Rep h ctx (l₁ ++ c :: l₂) t) :
    Rep (h.setBlock c.1 ⟨a, (h.blocks c.1).next⟩) ctx (l₁ ++ (c.1, a) :: l₂) t := by
  refine ⟨hr.list.set setBlock_block_self fun q hq => setBlock_block_ne (hr.ne_of_mem q hq), hr.tree, ?_, ?_⟩
  · have := hr.nodup
    simpa using this
  · have := hr.live
    simpa using this

/-- a new block leaves the blocks of the list as they are -/
theorem newBlock_area {b : VmmFreeBlocks} (hr : Rep h ctx (l₁ ++ c :: l₂) t) (hok : h.newBlock A b = .ok (h', p)) :
    (h'.blocks c.1).toArea = c.2 := by
  obtain ⟨_, hp, _, _, hsame, _⟩ := newBlock_ok hok
  have hne : c.1 ≠ p := fun he => hp (he ▸ hr.live c.1 (by simp))
  exact (congrArg Prod.fst (hsame c.1 hne)).trans hr.block_eq

/-- a new block is linked after `c`, whose area may change -/
theorem Rep.insertAfter (hr : Rep h ctx (l₁ ++ c :: l₂) t)
    (hok : h.newBlock A ⟨a, (h.blocks c.1).next⟩ = .ok (h', p)) (c' : Area) :
    Rep (h'.setBlock c.1 ⟨c', p⟩) ctx (l₁ ++ (c.1, c') :: (p, a) :: l₂) t := by
  obtain ⟨hp0, hp, hlive, hnew, hsame, hnode⟩ := newBlock_ok hok
  have hpl : p ∉ ptrs (l₁ ++ c :: l₂) := fun hm => hp (hr.live p (List.mem_append_left _ hm))
  have hpt : p ∉ ptrs (cells t) := fun hm => hp (hr.live p (List.mem_append_right _ hm))
  have hpc : p ≠ c.1 := fun he => hpl (by simp [he])
  refine ⟨hr.list.insertAfter hp0 setBlock_block_self ?_ fun q hq => ?_, ?_, ?_, ?_⟩
  · rw [setBlock_block_ne hpc, hnew]
    rfl
  · have hqp : q ≠ p := by
      rintro rfl
      simp only [ptrs_append, ptrs_cons, List.mem_append, List.mem_cons, not_or] at hpl hq
      rcases hq with hq | hq
      · exact hpl.1 hq
      · exact hpl.2.2 hq
    rw [setBlock_block_ne (hr.ne_of_mem q hq), hsame q hqp]
  · rw [setBlock_node, hnode]
    exact hr.tree
  · have hperm : (ptrs (l₁ ++ (c.1, c') :: (p, a) :: l₂) ++ ptrs (cells t)).Perm
        (p :: (ptrs (l₁ ++ c :: l₂) ++ ptrs (cells t))) := by
      simp only [ptrs_append, ptrs_cons, ← List.cons_append]
      exact (((List.Perm.swap p c.1 _).append_left _).trans List.perm_middle).append_right _
    refine hperm.nodup_iff.2 (List.nodup_cons.2 ⟨?_, hr.nodup⟩)
    simp only [List.mem_append, not_or]
    exact ⟨hpl, hpt⟩
  · intro q hq
    rw [setBlock_arena, hlive]
    by_cases hqp : q = p
    · simp [hqp]
    · refine List.mem_cons_of_mem _ (hr.live q ?_)
      simp only [ptrs_append, ptrs_cons, List.mem_append, List.mem_cons] at hq ⊢
      tauto

/-- a new block becomes the head of the list -/
theorem Rep.pushFront (hr : Rep h ctx l t) (hok : h.newBlock A ⟨a, ctx.freeBlocks⟩ = .ok (h', p)) :
    Rep h' { ctx with freeBlocks := p } ((p, a) :: l) t := by
  obtain ⟨hp0, hp, hlive, hnew, hsame, hnode⟩ := newBlock_ok hok
  have hpl : p ∉ ptrs l := fun hm => hp (hr.live p (List.mem_append_left _ hm))
  have hpt : p ∉ ptrs (cells t) := fun hm => hp (hr.live p (List.mem_append_right _ hm))
  refine ⟨⟨rfl, hp0, by rw [hnew], ?_⟩, ?_, ?_, ?_⟩
  · rw [hnew]
    exact hr.list.congr fun q hq => hsame q fun e => hpl (e ▸ hq)
  · rw [hnode]
    exact hr.tree
  · rw [ptrs_cons, List.cons_append, List.nodup_cons, List.mem_append, not_or]
    exact ⟨⟨hpl, hpt⟩, hr.nodup⟩
  · intro q hq
    rw [hlive]
    rcases List.mem_cons.1 hq with rfl | hq
    · simp
    · exact List.mem_cons_of_mem _ (hr.live q hq)

/-- `unlink_block` -/
theorem Rep.unlink (hr : Rep h ctx (l₁ ++ c :: l₂) t) :
    Rep (unlinkBlock h ctx c.1 (lastPtr 0 l₁)).1 (unlinkBlock h ctx c.1 (lastPtr 0 l₁)).2 (l₁ ++ l₂) t := by
  have hne := hr.ne_of_mem
  have hnd : (ptrs (l₁ ++ l₂) ++ ptrs (cells t)).Nodup := by
    refine hr.nodup.sublist (List.Sublist.append_right ?_ _)
    simp only [ptrs_append, ptrs_cons]
    exact List.Sublist.append_left (List.sublist_cons_self _ _) _
  have hct : c.1 ∉ ptrs (cells t) := fun hm => (List.nodup_append.1 hr.nodup).2.2 c.1 (by simp) c.1 hm rfl
  have hlive : ∀ q ∈ ptrs (l₁ ++ l₂) ++ ptrs (cells t), q ∈ (h.arena.free c.1).live := by
    intro q hq
    have hqc : q ≠ c.1 := by
      rcases List.mem_append.1 hq with hq | hq
      · exact hne q hq
      · exact fun e => hct (e ▸ hq)
    refine (List.mem_erase_of_ne hqc).2 (hr.live q ?_)
    simp only [ptrs_append, ptrs_cons, List.mem_append, List.mem_cons] at hq ⊢
    tauto
  rcases List.eq_nil_or_concat' l₁ with rfl | ⟨l₀, d, rfl⟩
  · obtain ⟨_, _, _, h4⟩ := hr.list
    exact ⟨h4, hr.tree, hnd, hlive⟩
  · have hd0 : d.1 ≠ 0 := fun h0 => hr.list.ne_zero (by simp [h0])
    rw [lastPtr_snoc]
    unfold unlinkBlock
    simp only [if_pos hd0]
    have hdb : (h.blocks d.1).toArea = d.2 := hr.list.contents d (by simp)
    have hlist := hr.list
    rw [List.append_assoc, List.singleton_append] at hlist
    have hd : ∀ q ∈ ptrs (l₀ ++ l₂), q ≠ d.1 := by
      have hn := hr.nodup_list
      rw [List.append_assoc, List.singleton_append, ptrs_append, ptrs_cons, ptrs_cons, List.nodup_middle,
        List.nodup_cons] at hn
      intro q hq he
      refine hn.1 ?_
      simp only [ptrs_append, List.mem_append, List.mem_cons] at hq ⊢
      subst he
      tauto
    refine ⟨?_, hr.tree, hnd, hlive⟩
    have hs : Seg ((h.setBlock d.1 { h.blocks d.1 with next := (h.blocks c.1).next }).kfree c.1).block ctx.freeBlocks
        (l₀ ++ d :: l₂) 0 := by
      refine hlist.unlink ?_ fun q hq => ?_
      · rw [kfree_block, setBlock_block_self, ← hdb]
        rfl
      · rw [kfree_block, setBlock_block_ne (hd q hq)]
    rw [List.append_assoc, List.singleton_append]
    exact hs

end Rep

/-! ## Areas -/

section Areas

variable {l₁ l₂ m : List (ℕ × Area)} {c : ℕ × Area} {a : Area} {p x : ℕ}

@[simp] theorem freeCover_nil : freeCover [] x = 0 := rfl

@[simp] theorem freeCover_cons : freeCover (c :: l₁) x = Tiling.hit (span c.2) x + freeCover l₁ x := Tiling.cover_cons

@[simp] theorem freeCover_append : freeCover (l₁ ++ l₂) x = freeCover l₁ x + freeCover l₂ x := by
  unfold freeCover
  rw [List.map_append, Tiling.cover_append]

/-- an area is replaced by areas inside it -/
theorem FreeOk.refine (hf : FreeOk (l₁ ++ c :: l₂)) (hm : FreeOk m)
    (hin : ∀ d ∈ m, c.2.virtualAddr ≤ d.2.virtualAddr ∧
      d.2.virtualAddr + d.2.pageCount * pageSize ≤ c.2.virtualAddr + c.2.pageCount * pageSize) :
    FreeOk (l₁ ++ m ++ l₂) := by
  obtain ⟨s1, s2, s3⟩ := List.pairwise_append.1 hf.sorted
  obtain ⟨s4, s5⟩ := List.pairwise_cons.1 s2
  refine ⟨fun d hd => ?_, List.pairwise_append.2 ⟨List.pairwise_append.2 ⟨s1, hm.sorted, fun d hd e he => ?_⟩, s5,
    fun d hd e he => ?_⟩⟩
  · simp only [List.mem_append] at hd
    rcases hd with (hd | hd) | hd
    · exact hf.area d (by simp [hd])
    · exact hm.area d hd
    · exact hf.area d (by simp [hd])
  · exact (s3 d hd c (by simp)).trans (hin e he).1
  · rcases List.mem_append.1 hd with hd | hd
    · exact s3 d hd e (by simp [he])
    · exact (hin d hd).2.trans (s4 e he)

/-- an area is added between others -/
theorem FreeOk.insert (hf : FreeOk (l₁ ++ l₂)) (ha : AreaOk a)
    (h1 : ∀ c ∈ l₁, c.2.virtualAddr + c.2.pageCount * pageSize ≤ a.virtualAddr)
    (h2 : ∀ c ∈ l₂, a.virtualAddr + a.pageCount * pageSize ≤ c.2.virtualAddr) : FreeOk (l₁ ++ (p, a) :: l₂) := by
  obtain ⟨s1, s2, s3⟩ := List.pairwise_append.1 hf.sorted
  refine ⟨fun d hd => ?_, List.pairwise_append.2 ⟨s1, List.pairwise_cons.2 ⟨h2, s2⟩, fun d hd e he => ?_⟩⟩
  · simp only [List.mem_append, List.mem_cons] at hd
    rcases hd with hd | rfl | hd
    · exact hf.area d (by simp [hd])
    · exact ha
    · exact hf.area d (by simp [hd])
  · rcases List.mem_cons.1 he with rfl | he
    · exact h1 d hd
    · exact s3 d hd e he

theorem FreeOk.sublist {l l' : List (ℕ × Area)} (hf : FreeOk l) (hs : l'.Sublist l) : FreeOk l' :=
  ⟨fun c hc => hf.area c (hs.subset hc), hf.sorted.sublist hs⟩

/-- the areas of a sorted list, seen from one of them -/
theorem FreeOk.around (hf : FreeOk (l₁ ++ c :: l₂)) :
    (∀ d ∈ l₁, d.2.virtualAddr + d.2.pageCount * pageSize ≤ c.2.virtualAddr) ∧
      ∀ d ∈ l₂, c.2.virtualAddr + c.2.pageCount * pageSize ≤ d.2.virtualAddr := by
  obtain ⟨_, s2, s3⟩ := List.pairwise_append.1 hf.sorted
  exact ⟨fun d hd => s3 d hd c (by simp), fun d hd => List.rel_of_pairwise_cons s2 hd⟩

/-- an area grows at its end -/
theorem FreeOk.grow (hf : FreeOk (l₁ ++ c :: l₂)) (ha : AreaOk a) (hva : a.virtualAddr = c.2.virtualAddr)
    (h2 : ∀ d ∈ l₂, a.virtualAddr + a.pageCount * pageSize ≤ d.2.virtualAddr) : FreeOk (l₁ ++ (p, a) :: l₂) := by
  refine (hf.sublist ?_).insert ha (fun d hd => ?_) h2
  · exact List.Sublist.append_left (List.sublist_cons_self _ _) _
  · rw [hva]
    exact hf.around.1 d hd

/-- no page is in two areas -/
theorem FreeOk.cover_le_one {l : List (ℕ × Area)} (hf : FreeOk l) (x : ℕ) : freeCover l x ≤ 1 := by
  induction l with
  | nil => exact Nat.zero_le 1
  | cons c l ih =>
    have ih := ih (hf.sublist (List.sublist_cons_self c l))
    rw [freeCover_cons]
    by_cases hc : Tiling.hit (span c.2) x = 0
    · omega
    · -- the areas after one that contains the page start behind it
      have hnone : freeCover l x = 0 := by
        by_contra h0
        have hpos : 0 < Tiling.cover (l.map fun c => span c.2) x := Nat.pos_of_ne_zero h0
        obtain ⟨b, hb, h1, _⟩ := Tiling.exists_of_cover hpos
        obtain ⟨d, hd, rfl⟩ := List.mem_map.1 hb
        have hcd := (@FreeOk.around [] l c hf).2 d hd
        have hal := (hf.area c (by simp)).aligned
        have hin : (span c.2).1 ≤ x ∧ x < (span c.2).1 + (span c.2).2 := by
          by_contra hn
          rw [Tiling.hit_eq, if_neg hn] at hc
          exact hc rfl
        simp only [span, pageSize] at hin h1 hcd hal
        omega
      have := Tiling.hit_le_one (b := span c.2) (x := x)
      omega

theorem freeOk_one (ha : AreaOk a) : FreeOk [(p, a)] :=
  ⟨fun d hd => by rw [List.mem_singleton.1 hd]; exact ha, List.pairwise_singleton _ _⟩

/-- the pages of an area cut in two -/
theorem hit_span_cut (va n k x : ℕ) :
    Tiling.hit (span ⟨va, n + k⟩) x = Tiling.hit (span ⟨va, n⟩) x + Tiling.hit (span ⟨va + n * pageSize, k⟩) x := by
  have hdiv : (va + n * pageSize) / pageSize = va / pageSize + n := Nat.add_mul_div_right _ _ (by decide)
  unfold span
  simp only [hdiv]
  exact Tiling.hit_split _ _ _ _

/-- areas with no page in common have no address in common -/
theorem apart_of_spans {a a' : Area} (ha : a.virtualAddr % pageSize = 0) (ha' : a'.virtualAddr % pageSize = 0)
    (h : Tiling.Apart (span a) (span a')) :
    a.virtualAddr + a.pageCount * pageSize ≤ a'.virtualAddr ∨ a'.virtualAddr + a'.pageCount * pageSize ≤ a.virtualAddr := by
  unfold Tiling.Apart span at h
  simp only [pageSize] at h ha ha' ⊢
  omega

end Areas

/-! ## Taking pages -/

section Take

variable {A : Allocator} {mi : KernelMeminfo} {h h' : Heap} {ctx ctx' : VmmContext} {l₁ l₂ : List (ℕ × Area)}
  {t : BinaryTree (ℕ × VmmAllocation)} {c : ℕ × Area} {va n r : ℕ} {user : Bool}

/-- pages `[r, r + n)` are cut out of block `c`, on one side of them or on both are the pieces `m` that are left of it -/
structure Cut (c : Area) (r n : ℕ) (m : List (ℕ × Area)) : Prop where
  aligned : r % pageSize = 0
  lower : c.virtualAddr ≤ r
  inBlock : r < c.virtualAddr + c.pageCount * pageSize
  upper : r + n * pageSize ≤ c.virtualAddr + c.pageCount * pageSize
  ok : FreeOk m
  inside : ∀ d ∈ m, c.virtualAddr ≤ d.2.virtualAddr ∧
    d.2.virtualAddr + d.2.pageCount * pageSize ≤ c.virtualAddr + c.pageCount * pageSize
  gap : m.Pairwise fun d e => d.2.virtualAddr + d.2.pageCount * pageSize ≤ r ∧ r + n * pageSize ≤ e.2.virtualAddr
  pages : ∀ x, Tiling.hit (span c) x = freeCover m x + Tiling.hit (span ⟨r, n⟩) x

/-- the free pages after the cut -/
theorem Cut.cover {m : List (ℕ × Area)} (hcut : Cut c.2 r n m) (x : ℕ) :
    freeCover (l₁ ++ m ++ l₂) x + Tiling.hit (span ⟨r, n⟩) x = freeCover (l₁ ++ c :: l₂) x := by
  have hpages := hcut.pages x
  simp only [freeCover_append, freeCover_cons]
  omega

theorem Cut.all {a : Area} (ha : AreaOk a) : Cut a a.virtualAddr a.pageCount [] where
  aligned := ha.aligned
  lower := le_rfl
  inBlock := Nat.lt_add_of_pos_right (Nat.mul_pos ha.nonempty (by decide))
  upper := le_rfl
  ok := ⟨by simp, List.Pairwise.nil⟩
  inside := by simp
  gap := List.Pairwise.nil
  pages := fun x => by simp

/-- the pages at the beginning of a block -/
theorem Cut.front {v k p : ℕ} (ha : AreaOk ⟨v, n + k⟩) (hk : 0 < k) : Cut ⟨v, n + k⟩ v n [(p, ⟨v + n * pageSize, k⟩)] where
  aligned := ha.aligned
  lower := le_rfl
  inBlock := Nat.lt_add_of_pos_right (Nat.mul_pos ha.nonempty (by decide))
  upper := by simp only [Nat.add_mul]; omega
  ok := freeOk_one
    { aligned := by rw [Nat.add_mul_mod_self_right]; exact ha.aligned
      nonempty := hk
      fits := by have := ha.fits; simp only [Nat.add_mul] at this ⊢; omega }
  inside := fun d hd => by
    rw [List.mem_singleton.1 hd]
    simp only [Nat.add_mul]
    omega
  gap := List.pairwise_singleton _ _
  pages := fun x => by
    rw [hit_span_cut, freeCover_cons, freeCover_nil, Nat.add_zero, Nat.add_comm]

/-- the pages at the end of a block -/
theorem Cut.back {v k p : ℕ} (ha : AreaOk ⟨v, k + n⟩) (hk : 0 < k) (hn : 0 < n) :
    Cut ⟨v, k + n⟩ (v + k * pageSize) n [(p, ⟨v, k⟩)] where
  aligned := by rw [Nat.add_mul_mod_self_right]; exact ha.aligned
  lower := Nat.le_add_right _ _
  inBlock := Nat.add_lt_add_left (Nat.mul_lt_mul_of_pos_right (Nat.lt_add_of_pos_right hn) (by decide)) v
  upper := by simp only [Nat.add_mul]; omega
  ok := freeOk_one
    { aligned := ha.aligned
      nonempty := hk
      fits := by have := ha.fits; simp only [Nat.add_mul] at this ⊢; omega }
  inside := fun d hd => by
    rw [List.mem_singleton.1 hd]
    simp only [Nat.add_mul]
    omega
  gap := List.pairwise_singleton _ _
  pages := fun x => by
    rw [hit_span_cut, freeCover_cons, freeCover_nil, Nat.add_zero]

/-- pages in the middle of a block -/
theorem Cut.middle {v j k p q : ℕ} (ha : AreaOk ⟨v, j + (n + k)⟩) (hj : 0 < j) (hk : 0 < k) :
    Cut ⟨v, j + (n + k)⟩ (v + j * pageSize) n [(p, ⟨v, j⟩), (q, ⟨v + (j + n) * pageSize, k⟩)] where
  aligned := by rw [Nat.add_mul_mod_self_right]; exact ha.aligned
  lower := Nat.le_add_right _ _
  inBlock := Nat.add_lt_add_left
    (Nat.mul_lt_mul_of_pos_right (Nat.lt_add_of_pos_right (Nat.add_pos_right n hk)) (by decide)) v
  upper := by simp only [Nat.add_mul]; omega
  ok :=
    { area := by
        have hfit := ha.fits
        simp only [Nat.add_mul] at hfit
        intro d hd
        rcases List.mem_cons.1 hd with rfl | hd
        · exact ⟨ha.aligned, hj, by dsimp only; omega⟩
        · rw [List.mem_singleton.1 hd]
          refine ⟨?_, hk, by simp only [Nat.add_mul]; omega⟩
          rw [Nat.add_mul_mod_self_right]
          exact ha.aligned
      sorted := by
        refine List.pairwise_pair.2 ?_
        simp only [Nat.add_mul]
        omega }
  inside := fun d hd => by
    rcases List.mem_cons.1 hd with rfl | hd
    · simp only [Nat.add_mul]
      omega
    · rw [List.mem_singleton.1 hd]
      simp only [Nat.add_mul]
      omega
  gap := by
    refine List.pairwise_pair.2 ⟨le_rfl, ?_⟩
    simp only [Nat.add_mul]
    omega
  pages := fun x => by
    have he : v + (j + n) * pageSize = v + j * pageSize + n * pageSize := by rw [Nat.add_mul, Nat.add_assoc]
    rw [hit_span_cut, hit_span_cut, freeCover_cons, freeCover_cons, freeCover_nil, he]
    dsimp only
    omega

/-- the offset of an address in a block, in pages -/
theorem pageOffset_eq {v : ℕ} (hv : v % pageSize = 0) (hva : va % pageSize = 0) (hle : v ≤ va) (hlt : va < 2 ^ 32) :
    va = v + u32 (va + 2 ^ 32 - v) / pageSize * pageSize := by
  have hu : u32 (va + 2 ^ 32 - v) = va - v := by
    unfold u32
    omega
  rw [hu]
  simp only [pageSize] at hv hva ⊢
  omega

theorem AreaOk.pageCount_le {a : Area} (ha : AreaOk a) : a.pageCount ≤ 2 ^ 20 := by
  have := ha.fits
  simp only [pageSize] at this
  omega

/-- **Taking pages from a block that suits.** Unless the block fits exactly and starts elsewhere, the pages returned are
cut out of it, and nothing else changes. -/
theorem takeFreeBlocks_spec (hr : Rep h ctx (l₁ ++ c :: l₂) t) (hf : FreeOk (l₁ ++ c :: l₂))
    (hsuit : suits mi va n user c.2 = true) (hexact : c.2.pageCount = n → va = c.2.virtualAddr)
    (hva : va % pageSize = 0) (hok : takeFreeBlocks A h ctx va n c.1 (lastPtr 0 l₁) = .ok (h', ctx', r)) :
    (va ≠ 0 → r = va) ∧ ∃ m, Rep h' ctx' (l₁ ++ m ++ l₂) t ∧ Cut c.2 r n m := by
  have hb := hr.block_eq
  have hcok := hf.area c (by simp)
  obtain ⟨q, v, k⟩ := c
  have hbv : (h.blocks q).virtualAddr = v := congrArg Area.virtualAddr hb
  have hbk : (h.blocks q).pageCount = k := congrArg Area.pageCount hb
  have hk20 : k ≤ 2 ^ 20 := hcok.pageCount_le
  have hfit : v + k * pageSize ≤ 2 ^ 32 := hcok.fits
  obtain ⟨hin, hle⟩ : ((va = 0 ∧ _) ∨ v ≤ va ∧ va < v + k * pageSize) ∧ n ≤ k := by
    simpa [suits, isAddrInRange] using hsuit
  unfold takeFreeBlocks at hok
  dsimp only at hok hexact ⊢
  rw [hbv, hbk] at hok
  by_cases hkn : k = n
  · -- the block fits exactly
    rw [if_pos hkn] at hok
    cases hok
    obtain rfl := hexact hkn
    subst hkn
    refine ⟨fun _ => rfl, [], ?_, Cut.all hcok⟩
    rw [List.append_nil]
    exact hr.unlink
  have hlt : n < k := lt_of_le_of_ne hle (Ne.symm hkn)
  rw [if_neg hkn, if_pos hlt] at hok
  generalize hoff : (if va ≠ 0 then u32 (va + 2 ^ 32 - v) / pageSize else 0) = off at hok
  by_cases hroom : u32 (k + 2 ^ 32 - off) < n
  · rw [if_pos hroom] at hok
    cases hok
  rw [if_neg hroom] at hok
  by_cases hfront : va = 0 ∨ va = v
  · -- the pages are the first ones of the block
    rw [if_pos hfront] at hok
    obtain ⟨j, hj, rfl⟩ := exists_pos_add_of_lt' hlt
    rw [Nat.add_sub_cancel_left, u32_of_lt (by rw [Nat.add_mul] at hfit; simp only [pageSize] at hfit ⊢; omega)] at hok
    cases hok
    refine ⟨fun h0 => (hfront.resolve_left h0).symm, [(q, ⟨r + n * pageSize, j⟩)], ?_, Cut.front hcok hj⟩
    rw [List.append_assoc, List.singleton_append]
    exact hr.setArea
  rw [if_neg hfront] at hok
  obtain ⟨hva0, hne⟩ := not_or.1 hfront
  rw [if_pos hva0] at hoff
  obtain ⟨hge, hend⟩ := hin.resolve_left fun h0 => hva0 h0.1
  have hvaoff : va = v + off * pageSize := by
    rw [← hoff]
    exact pageOffset_eq hcok.aligned hva hge (hend.trans_le hfit)
  have hoff0 : 0 < off := by
    refine Nat.pos_of_ne_zero fun h0 => hne ?_
    rw [hvaoff, h0, Nat.zero_mul, Nat.add_zero]
  have hoffk : off < k := by
    rw [hvaoff] at hend
    exact Nat.lt_of_mul_lt_mul_right (Nat.lt_of_add_lt_add_left hend)
  have hroom' : off + n ≤ k := by
    unfold u32 at hroom
    omega
  rw [u32_of_lt (show off + n < 4294967296 by omega)] at hok
  by_cases hmid : off + n < k
  · -- a new block for the pages after the ones taken
    rw [if_pos hmid] at hok
    obtain ⟨j, hj, rfl⟩ := exists_pos_add_of_lt' hmid
    rw [Nat.add_sub_cancel_left, u32_of_lt (by rw [Nat.add_mul] at hfit; simp only [pageSize] at hfit ⊢; omega)] at hok
    obtain ⟨⟨h₁, p⟩, hnew, hok⟩ := bind_ok.1 hok
    cases hok
    refine ⟨fun _ => rfl, [(q, ⟨v, off⟩), (p, ⟨v + (off + n) * pageSize, j⟩)], ?_, ?_⟩
    · have hsame := newBlock_area hr hnew
      rw [List.append_assoc, List.cons_append, List.singleton_append]
      simp only at hsame ⊢
      rw [hsame]
      exact hr.insertAfter hnew ⟨v, off⟩
    · rw [Nat.add_assoc] at hcok ⊢
      rw [hvaoff]
      exact Cut.middle hcok hoff0 hj
  · -- the pages are the last ones of the block
    rw [if_neg hmid] at hok
    obtain rfl : k = off + n := le_antisymm (not_lt.1 hmid) hroom'
    rw [Nat.add_sub_cancel] at hok
    cases hok
    refine ⟨fun _ => rfl, [(q, ⟨v, off⟩)], ?_, ?_⟩
    · rw [List.append_assoc, List.singleton_append]
      exact hr.setArea
    · rw [hvaoff]
      exact Cut.back hcok hoff0 (Nat.pos_of_lt_add_right hoffk)

/-- **Taking pages.** The first block that suits is cut. -/
theorem removeFreeBlocks_spec {l : List (ℕ × Area)} (hr : Rep h ctx l t) (hf : FreeOk l) (hva : va % pageSize = 0)
    (hexact : ∀ c, l.find? (fun c => suits mi va n user c.2) = some c → c.2.pageCount = n → va = c.2.virtualAddr)
    (hok : removeFreeBlocks A mi h ctx va n user = .ok (h', ctx', r)) :
    (va ≠ 0 → r = va) ∧ ∃ l₁ c l₂ m, l = l₁ ++ c :: l₂ ∧ Rep h' ctx' (l₁ ++ m ++ l₂) t ∧ Cut c.2 r n m := by
  unfold removeFreeBlocks at hok
  split_ifs at hok with h0
  obtain ⟨⟨q, prev⟩, hfind, hok⟩ := bind_ok.1 hok
  dsimp only at hok
  split_ifs at hok with hq0
  obtain ⟨l₁, l₂, rfl, hl₁, rfl, hq⟩ := scan_spec hr.list hfind
  rcases hq with ⟨rfl, _⟩ | ⟨c, l₃, rfl, rfl, hc⟩
  · exact absurd rfl hq0
  · have hfirst : (l₁ ++ c :: l₃).find? (fun c => suits mi va n user c.2) = some c := by
      refine List.find?_eq_some_iff_append.2 ⟨hc, l₁, l₃, rfl, fun d hd => ?_⟩
      rw [hl₁ d hd]
      rfl
    obtain ⟨hr', m, hm⟩ := takeFreeBlocks_spec hr hf hc (hexact c hfirst) hva hok
    exact ⟨hr', l₁, c, l₃, m, rfl, hm⟩

end Take

/-! ## Returning pages -/

section Put

variable {A : Allocator} {mi : KernelMeminfo} {h h' : Heap} {ctx ctx' : VmmContext} {l₁ l₂ : List (ℕ × Area)}
  {t : BinaryTree (ℕ × VmmAllocation)} {d : ℕ × Area} {va n q : ℕ}

/-- the blocks `l'` that the pages of `a` make out of `l`: each is as before, or it is `a`, or a user block that ended where
`a` starts, grown by `a` -/
def Refilled (mi : KernelMeminfo) (l : List (ℕ × Area)) (a : Area) (l' : List (ℕ × Area)) : Prop :=
  ∀ c ∈ l', c ∈ l ∨ c.2 = a ∨ ∃ d ∈ l, d.2.virtualAddr + d.2.pageCount * pageSize = a.virtualAddr ∧
    isAddrInUserRange mi d.2.virtualAddr d.2.pageCount = true ∧ c.2 = ⟨d.2.virtualAddr, d.2.pageCount + a.pageCount⟩

/-- the list `l'` that `add_free_blocks` makes out of `l` and the pages of `a` -/
structure Regained (mi : KernelMeminfo) (h' : Heap) (ctx' : VmmContext) (t : BinaryTree (ℕ × VmmAllocation))
    (l : List (ℕ × Area)) (a : Area) (l' : List (ℕ × Area)) : Prop where
  rep : Rep h' ctx' l' t
  ok : FreeOk l'
  cover : ∀ x, freeCover l' x = freeCover l x + Tiling.hit (span a) x
  blocks : Refilled mi l a l'

/-- the list `l` after the pages of `a` are returned to it -/
def Returned (h' : Heap) (ctx' : VmmContext) (t : BinaryTree (ℕ × VmmAllocation)) (l : List (ℕ × Area)) (a : Area) : Prop :=
  ∃ l', Rep h' ctx' l' t ∧ FreeOk l' ∧ ∀ x, freeCover l' x = freeCover l x + Tiling.hit (span a) x

/-- a new block after `d` -/
theorem insertFreeBlocks_rep (hr : Rep h ctx (l₁ ++ d :: l₂) t) (hok : insertFreeBlocks A h d.1 va n = .ok h') :
    ∃ p, Rep h' ctx (l₁ ++ d :: (p, ⟨va, n⟩) :: l₂) t := by
  obtain ⟨⟨h₁, p⟩, hnew, hok⟩ := bind_ok.1 hok
  cases hok
  have hrep := hr.insertAfter hnew d.2
  have hsame := newBlock_area hr hnew
  refine ⟨p, ?_⟩
  dsimp only
  rw [hsame]
  exact hrep

theorem insertFreeBlocks_spec (hr : Rep h ctx (l₁ ++ d :: l₂) t) (hf : FreeOk (l₁ ++ d :: l₂)) (ha : AreaOk ⟨va, n⟩)
    (h1 : d.2.virtualAddr + d.2.pageCount * pageSize ≤ va) (h2 : ∀ e ∈ l₂, va + n * pageSize ≤ e.2.virtualAddr)
    (hok : insertFreeBlocks A h d.1 va n = .ok h') : ∃ l', Regained mi h' ctx t (l₁ ++ d :: l₂) ⟨va, n⟩ l' := by
  obtain ⟨p, hrep⟩ := insertFreeBlocks_rep hr hok
  refine ⟨_, hrep, ?_, fun x => ?_, fun c hc => ?_⟩
  · have hf' : FreeOk ((l₁ ++ [d]) ++ l₂) := by
      rw [List.append_assoc, List.singleton_append]
      exact hf
    have h3 : FreeOk ((l₁ ++ [d]) ++ (p, ⟨va, n⟩) :: l₂) := hf'.insert ha (fun c hc => ?_) h2
    · rw [List.append_assoc, List.singleton_append] at h3
      exact h3
    · rcases List.mem_append.1 hc with hc | hc
      · exact (hf.around.1 c hc).trans ((Nat.le_add_right _ _).trans h1)
      · rw [List.mem_singleton.1 hc]
        exact h1
  · simp only [freeCover_append, freeCover_cons]
    omega
  · simp only [List.mem_append, List.mem_cons] at hc ⊢
    rcases hc with hc | rfl | rfl | hc
    · exact .inl (.inl hc)
    · exact .inl (.inr (.inl rfl))
    · exact .inr (.inl rfl)
    · exact .inl (.inr (.inr hc))

/-- the block after the one returned to does not start where the merge looks for it -/
theorem Rep.no_second_merge (hr : Rep h ctx (l₁ ++ d :: l₂) t) (hlt : d.2.virtualAddr < va)
    (hfit : va + n * pageSize ≤ 2 ^ 32) (h2 : ∀ e ∈ l₂, va + n * pageSize ≤ e.2.virtualAddr) :
    ¬ ((h.blocks d.1).next ≠ 0 ∧ u32 ((h.blocks d.1).virtualAddr + n * pageSize) =
      (h.blocks (h.blocks d.1).next).virtualAddr) := by
  rintro ⟨hn0, he⟩
  obtain ⟨m, _, rfl, _, _, hl₂⟩ := seg_append.1 hr.list
  cases l₂ with
  | nil => exact hn0 hl₂
  | cons e l₂ =>
    have hd : (h.blocks d.1).virtualAddr = d.2.virtualAddr := congrArg Area.virtualAddr hr.block_eq
    have hnext : (h.blocks d.1).next = e.1 := hl₂.1
    have hev : (h.blocks e.1).virtualAddr = e.2.virtualAddr := congrArg Area.virtualAddr hl₂.2.2.1
    have h2e := h2 e (by simp)
    rw [hnext, hev, hd, u32_of_lt (by omega)] at he
    omega

/-- a user block before a range that is not one, where the merge looks for it -/
theorem mergeOrInsertFreeBlocks_merges (hr : Rep h ctx (l₁ ++ d :: l₂) t) (hlt : d.2.virtualAddr < va)
    (hfit : va + n * pageSize ≤ 2 ^ 32) (h2 : ∀ e ∈ l₂, va + n * pageSize ≤ e.2.virtualAddr)
    (hmode : isAddrInUserRange mi d.2.virtualAddr d.2.pageCount ≠ isAddrInUserRange mi va n)
    (hm : d.2.virtualAddr + n * pageSize = va) :
    mergeOrInsertFreeBlocks A mi h d.1 va n =
      .ok (h.setBlock d.1 ⟨⟨d.2.virtualAddr, u32 (d.2.pageCount + n)⟩, (h.blocks d.1).next⟩) := by
  have hd0 : d.1 ≠ 0 := fun h0 => hr.list.ne_zero (by simp [h0])
  have hbv : (h.blocks d.1).virtualAddr = d.2.virtualAddr := congrArg Area.virtualAddr hr.block_eq
  have hbk : (h.blocks d.1).pageCount = d.2.pageCount := congrArg Area.pageCount hr.block_eq
  have hu : u32 (d.2.virtualAddr + n * pageSize) = va := by
    rw [hm]
    exact u32_of_lt (by omega)
  have hr' : Rep (h.setBlock d.1 ⟨⟨d.2.virtualAddr, u32 (d.2.pageCount + n)⟩, (h.blocks d.1).next⟩) ctx
      (l₁ ++ (d.1, ⟨d.2.virtualAddr, u32 (d.2.pageCount + n)⟩) :: l₂) t := hr.setArea
  have hno := hr'.no_second_merge hlt hfit h2
  unfold mergeOrInsertFreeBlocks
  dsimp only at hno ⊢
  rw [if_pos hd0, hbv, hbk, hu, if_neg hmode]
  simp only [decide_true, if_true]
  rw [if_neg hno]

theorem mergeOrInsertFreeBlocks_inserts (hr : Rep h ctx (l₁ ++ d :: l₂) t) (hlt : d.2.virtualAddr < va)
    (hfit : va + n * pageSize ≤ 2 ^ 32) (h2 : ∀ e ∈ l₂, va + n * pageSize ≤ e.2.virtualAddr)
    (hm : isAddrInUserRange mi d.2.virtualAddr d.2.pageCount ≠ isAddrInUserRange mi va n →
      d.2.virtualAddr + n * pageSize ≠ va) :
    mergeOrInsertFreeBlocks A mi h d.1 va n = insertFreeBlocks A h d.1 va n := by
  have hd0 : d.1 ≠ 0 := fun h0 => hr.list.ne_zero (by simp [h0])
  have hbv : (h.blocks d.1).virtualAddr = d.2.virtualAddr := congrArg Area.virtualAddr hr.block_eq
  have hbk : (h.blocks d.1).pageCount = d.2.pageCount := congrArg Area.pageCount hr.block_eq
  have hu : u32 (d.2.virtualAddr + n * pageSize) = d.2.virtualAddr + n * pageSize := u32_of_lt (by omega)
  have hno := hr.no_second_merge hlt hfit h2
  unfold mergeOrInsertFreeBlocks
  dsimp only
  rw [if_pos hd0, hbk, hbv, hu]
  rw [hbv, hu] at hno
  by_cases hmode : isAddrInUserRange mi d.2.virtualAddr d.2.pageCount = isAddrInUserRange mi va n
  · rw [if_pos hmode]
  · rw [if_neg hmode]
    simp only [hm hmode, decide_false, Bool.false_eq_true, if_false]
    rw [hbv, hu, if_neg hno]

/-- modes that differ: the block before is a user block and the range is not, since the other way round the range would end
below the block -/
theorem modes_of_ne (h1 : d.2.virtualAddr + d.2.pageCount * pageSize ≤ va)
    (hmode : isAddrInUserRange mi d.2.virtualAddr d.2.pageCount ≠ isAddrInUserRange mi va n) :
    isAddrInUserRange mi d.2.virtualAddr d.2.pageCount = true ∧ isAddrInUserRange mi va n = false := by
  simp only [isAddrInUserRange, ne_eq, decide_eq_decide, decide_eq_true_eq, decide_eq_false_iff_not] at hmode ⊢
  omega

theorem mergeOrInsertFreeBlocks_spec (hr : Rep h ctx (l₁ ++ d :: l₂) t) (hf : FreeOk (l₁ ++ d :: l₂))
    (ha : AreaOk ⟨va, n⟩) (h1 : d.2.virtualAddr + d.2.pageCount * pageSize ≤ va)
    (h2 : ∀ e ∈ l₂, va + n * pageSize ≤ e.2.virtualAddr)
    (hmerge : isAddrInUserRange mi d.2.virtualAddr d.2.pageCount = true → isAddrInUserRange mi va n = false →
      d.2.virtualAddr + n * pageSize = va → d.2.pageCount = n)
    (hok : mergeOrInsertFreeBlocks A mi h d.1 va n = .ok h') : ∃ l', Regained mi h' ctx t (l₁ ++ d :: l₂) ⟨va, n⟩ l' := by
  have hdok := hf.area d (by simp)
  have hfit : va + n * pageSize ≤ 2 ^ 32 := ha.fits
  have hlt : d.2.virtualAddr < va := by
    have : 0 < d.2.pageCount * pageSize := Nat.mul_pos hdok.nonempty (by decide)
    omega
  by_cases hm : isAddrInUserRange mi d.2.virtualAddr d.2.pageCount ≠ isAddrInUserRange mi va n ∧
      d.2.virtualAddr + n * pageSize = va
  · obtain ⟨hmode, hm⟩ := hm
    obtain ⟨hmode₁, hmode₂⟩ := modes_of_ne h1 hmode
    have hdn := hmerge hmode₁ hmode₂ hm
    have hun : u32 (d.2.pageCount + n) = n + n := by
      rw [hdn]
      refine u32_of_lt ?_
      have := ha.pageCount_le
      dsimp only at this
      omega
    rw [mergeOrInsertFreeBlocks_merges hr hlt hfit h2 hmode hm, hun] at hok
    cases hok
    have hend : d.2.virtualAddr + (n + n) * pageSize = va + n * pageSize := by
      rw [Nat.add_mul, ← Nat.add_assoc, hm]
    refine ⟨_, hr.setArea, hf.grow ⟨hdok.aligned, Nat.add_pos_left ha.nonempty n, ?_⟩ rfl fun e he => ?_, fun x => ?_,
      fun c hc => ?_⟩
    · rw [hend]
      exact hfit
    · rw [hend]
      exact h2 e he
    · have hspan : span d.2 = span ⟨d.2.virtualAddr, n⟩ := congrArg (Prod.mk _) hdn
      simp only [freeCover_append, freeCover_cons, hit_span_cut, hm, hspan]
      omega
    · simp only [List.mem_append, List.mem_cons] at hc ⊢
      rcases hc with hc | rfl | hc
      · exact .inl (.inl hc)
      · exact .inr (.inr ⟨d, .inr (.inl rfl), by rw [hdn, hm], hmode₁, by rw [hdn]⟩)
      · exact .inl (.inr (.inr hc))
  · rw [mergeOrInsertFreeBlocks_inserts hr hlt hfit h2 fun hmode he => hm ⟨hmode, he⟩] at hok
    exact insertFreeBlocks_spec hr hf ha h1 h2 hok

/-- the block that an insertion finds before the range does not swallow pages it should not: where it is a user block, the
range is not, and the merge looks for the range at its end, that is where it ends -/
def MergeOk (mi : KernelMeminfo) (prev : Option (ℕ × Area)) (next : Option (ℕ × Area)) (va n : ℕ) : Prop :=
  match prev, next with
  | none, none => True
  | none, some c => va + n * pageSize ≠ c.2.virtualAddr
  | some d, _ => isAddrInUserRange mi d.2.virtualAddr d.2.pageCount = true → isAddrInUserRange mi va n = false →
      d.2.virtualAddr + n * pageSize = va → d.2.pageCount = n

/-- **Returning pages.** -/
theorem putFreeBlocks_spec (hr : Rep h ctx (l₁ ++ l₂) t) (hf : FreeOk (l₁ ++ l₂)) (ha : AreaOk ⟨va, n⟩)
    (h1 : ∀ c ∈ l₁, c.2.virtualAddr + c.2.pageCount * pageSize ≤ va)
    (h2 : ∀ c ∈ l₂, va + n * pageSize ≤ c.2.virtualAddr) (hmerge : MergeOk mi l₁.getLast? l₂.head? va n)
    (hq : q = (l₂.head?.map Prod.fst).getD 0)
    (hok : putFreeBlocks A mi h ctx va n q (lastPtr 0 l₁) = .ok (h', ctx')) :
    ∃ l', Regained mi h' ctx' t (l₁ ++ l₂) ⟨va, n⟩ l' := by
  unfold putFreeBlocks at hok
  rcases List.eq_nil_or_concat' l₁ with rfl | ⟨l₀, d, rfl⟩
  · rw [lastPtr_nil, if_neg (not_not.2 rfl)] at hok
    dsimp only at hok
    have hpush : ∀ {h₁ p}, h.newBlock A ⟨⟨va, n⟩, ctx.freeBlocks⟩ = .ok (h₁, p) →
        ∃ l', Regained mi h₁ { ctx with freeBlocks := p } t ([] ++ l₂) ⟨va, n⟩ l' := by
      intro h₁ p hnew
      refine ⟨_, hr.pushFront hnew, @FreeOk.insert [] l₂ ⟨va, n⟩ p hf ha (by simp) h2, fun x => ?_, fun c hc => ?_⟩
      · rw [freeCover_cons, Nat.add_comm, List.nil_append]
      · rcases List.mem_cons.1 hc with rfl | hc
        · exact .inr (.inl rfl)
        · exact .inl hc
    cases l₂ with
    | nil =>
      have h0 : ctx.freeBlocks = 0 := hr.list
      have hq : q = 0 := hq
      rw [if_neg fun hm => hm.1 hq, hq] at hok
      obtain ⟨⟨h₁, p⟩, hnew, hok⟩ := bind_ok.1 hok
      cases hok
      exact hpush (h0 ▸ hnew)
    | cons c l₂ =>
      have hc : ctx.freeBlocks = c.1 := hr.list.1
      have hbv : (h.blocks c.1).virtualAddr = c.2.virtualAddr :=
        congrArg Area.virtualAddr (@Rep.block_eq h ctx [] l₂ t c hr)
      have hne : u32 (va + n * pageSize) ≠ c.2.virtualAddr := by
        have h2c := h2 c (by simp)
        have hfc := (hf.area c (by simp)).fits
        have hkc : 0 < c.2.pageCount * pageSize := Nat.mul_pos (hf.area c (by simp)).nonempty (by decide)
        rw [u32_of_lt (by omega)]
        exact hmerge
      have hq : q = c.1 := hq
      rw [hq, if_neg fun hm => hne (hm.2.trans hbv)] at hok
      obtain ⟨⟨h₁, p⟩, hnew, hok⟩ := bind_ok.1 hok
      cases hok
      exact hpush (hc ▸ hnew)
  · have hd0 : d.1 ≠ 0 := fun h0 => hr.list.ne_zero (by simp [h0])
    rw [lastPtr_snoc, if_pos hd0] at hok
    obtain ⟨h₁, hok₁, hok⟩ := bind_ok.1 hok
    cases hok
    rw [List.append_assoc, List.singleton_append] at hr hf ⊢
    rw [List.getLast?_concat] at hmerge
    exact mergeOrInsertFreeBlocks_spec hr hf ha (h1 d (by simp)) h2 hmerge hok₁

/-- the blocks that start before an address, and the others -/
def before (va : ℕ) (l : List (ℕ × Area)) : List (ℕ × Area) := l.takeWhile fun c => c.2.virtualAddr < va
def after (va : ℕ) (l : List (ℕ × Area)) : List (ℕ × Area) := l.dropWhile fun c => c.2.virtualAddr < va

theorem before_append_after (va : ℕ) (l : List (ℕ × Area)) : before va l ++ after va l = l := List.takeWhile_append_dropWhile

theorem lt_of_mem_before {l : List (ℕ × Area)} {c : ℕ × Area} (hc : c ∈ before va l) : c.2.virtualAddr < va := by
  have := List.all_takeWhile (p := fun c : ℕ × Area => decide (c.2.virtualAddr < va)) (l := l)
  exact of_decide_eq_true (List.all_eq_true.1 this c hc)

theorem le_of_mem_after {l : List (ℕ × Area)} {c : ℕ × Area} (hf : FreeOk l) (hc : c ∈ after va l) :
    va ≤ c.2.virtualAddr := by
  have hf' : FreeOk (after va l) := hf.sublist (List.dropWhile_sublist _)
  have hhead := List.head?_dropWhile_not (fun c : ℕ × Area => decide (c.2.virtualAddr < va)) l
  cases hal : after va l with
  | nil =>
    rw [hal] at hc
    cases hc
  | cons e l₃ =>
    unfold after at hal
    rw [hal] at hhead
    rw [after, hal] at hc hf'
    have he : va ≤ e.2.virtualAddr := not_lt.1 (of_decide_eq_false hhead)
    rcases List.mem_cons.1 hc with rfl | hc
    · exact he
    · have := (@FreeOk.around [] l₃ e hf').2 c hc
      omega

/-- what the search of `add_free_blocks` returns -/
theorem seekFreeBlocks_spec {l : List (ℕ × Area)} {pr : ℕ} (hl : Seg h.block ctx.freeBlocks l 0)
    (hok : seekFreeBlocks h ctx va = .ok (q, pr)) :
    q = ((after va l).head?.map Prod.fst).getD 0 ∧ pr = lastPtr 0 (before va l) := by
  obtain ⟨l₁, l₂, rfl, hl₁, hpr, hq⟩ := scan_spec hl hok
  have hall : ∀ c ∈ l₁, decide (c.2.virtualAddr < va) = true := by
    intro c hc
    have := hl₁ c hc
    simpa using this
  unfold before after
  rw [List.takeWhile_append_of_pos hall, List.dropWhile_append_of_pos hall]
  rcases hq with ⟨rfl, rfl⟩ | ⟨c, l₃, rfl, rfl, hc⟩
  · exact ⟨rfl, by simpa using hpr⟩
  · have hc' : ¬ c.2.virtualAddr < va := by simpa using hc
    simp only [List.takeWhile_cons, List.dropWhile_cons, hc', decide_false, Bool.false_eq_true, if_false,
      List.append_nil]
    exact ⟨rfl, hpr⟩

/-- the blocks before and after a range that is disjoint from all of them -/
theorem apart_before_after {l : List (ℕ × Area)} (hf : FreeOk l) (hn : 0 < n)
    (hapart : ∀ c ∈ l, c.2.virtualAddr + c.2.pageCount * pageSize ≤ va ∨ va + n * pageSize ≤ c.2.virtualAddr) :
    (∀ c ∈ before va l, c.2.virtualAddr + c.2.pageCount * pageSize ≤ va) ∧
      ∀ c ∈ after va l, va + n * pageSize ≤ c.2.virtualAddr := by
  have hnp : 0 < n * pageSize := Nat.mul_pos hn (by decide)
  refine ⟨fun c hc => ?_, fun c hc => ?_⟩
  · have hlt := lt_of_mem_before hc
    have := hapart c (before_append_after va l ▸ List.mem_append_left _ hc)
    omega
  · have hle := le_of_mem_after hf hc
    have hcl : c ∈ l := before_append_after va l ▸ List.mem_append_right _ hc
    have hk : 0 < c.2.pageCount * pageSize := Nat.mul_pos (hf.area c hcl).nonempty (by decide)
    have := hapart c hcl
    omega

/-- **Returning pages.** The list gets the pages of a range disjoint from it. -/
theorem addFreeBlocks_regained {l : List (ℕ × Area)} (hr : Rep h ctx l t) (hf : FreeOk l) (ha : AreaOk ⟨va, n⟩)
    (hapart : ∀ c ∈ l, c.2.virtualAddr + c.2.pageCount * pageSize ≤ va ∨ va + n * pageSize ≤ c.2.virtualAddr)
    (hmerge : MergeOk mi (before va l).getLast? (after va l).head? va n)
    (hok : addFreeBlocks A mi h ctx va n = .ok (h', ctx')) : ∃ l', Regained mi h' ctx' t l ⟨va, n⟩ l' := by
  obtain ⟨⟨q, pr⟩, hseek, hok⟩ := bind_ok.1 hok
  obtain ⟨hq, rfl⟩ := seekFreeBlocks_spec hr.list hseek
  obtain ⟨h1, h2⟩ := apart_before_after hf ha.nonempty hapart
  rw [← before_append_after va l] at hr hf ⊢
  exact putFreeBlocks_spec hr hf ha h1 h2 hmerge hq hok

theorem addFreeBlocks_spec {l : List (ℕ × Area)} (hr : Rep h ctx l t) (hf : FreeOk l) (ha : AreaOk ⟨va, n⟩)
    (hapart : ∀ c ∈ l, c.2.virtualAddr + c.2.pageCount * pageSize ≤ va ∨ va + n * pageSize ≤ c.2.virtualAddr)
    (hmerge : MergeOk mi (before va l).getLast? (after va l).head? va n)
    (hok : addFreeBlocks A mi h ctx va n = .ok (h', ctx')) : Returned h' ctx' t l ⟨va, n⟩ := by
  obtain ⟨l', hl'⟩ := addFreeBlocks_regained hr hf ha hapart hmerge hok
  exact ⟨l', hl'.rep, hl'.ok, hl'.cover⟩

end Put

/-! ## The tree stays -/

section Frame

variable {A : Allocator} {mi : KernelMeminfo} {h h' : Heap} {ctx ctx' : VmmContext} {va n p q : ℕ} {b : VmmFreeBlocks}

theorem newBlock_nodes (hok : h.newBlock A b = .ok (h', p)) : h'.nodes = h.nodes := by
  unfold Heap.newBlock at hok
  dsimp only at hok
  split_ifs at hok
  cases hok
  rfl

theorem insertFreeBlocks_nodes (hok : insertFreeBlocks A h q va n = .ok h') : h'.nodes = h.nodes := by
  obtain ⟨⟨h₁, p⟩, hnew, hok⟩ := bind_ok.1 hok
  cases hok
  have := newBlock_nodes hnew
  exact this

theorem mergeOrInsertFreeBlocks_nodes (hok : mergeOrInsertFreeBlocks A mi h q va n = .ok h') : h'.nodes = h.nodes := by
  unfold mergeOrInsertFreeBlocks at hok
  dsimp only at hok
  by_cases hq : q = 0
  · rw [if_neg (not_not.2 hq)] at hok
    obtain ⟨⟨h₁, p⟩, hnew, hok⟩ := bind_ok.1 hok
    cases hok
    exact newBlock_nodes hnew
  rw [if_pos hq] at hok
  split_ifs at hok
  · exact insertFreeBlocks_nodes hok
  · cases hok
    rfl
  · cases hok
    rfl
  · cases hok
    rfl
  · exact insertFreeBlocks_nodes hok

theorem addFreeBlocks_nodes (hok : addFreeBlocks A mi h ctx va n = .ok (h', ctx')) :
    h'.nodes = h.nodes ∧ ctx'.allocations = ctx.allocations := by
  obtain ⟨⟨q, pr⟩, _, hok⟩ := bind_ok.1 hok
  unfold putFreeBlocks at hok
  dsimp only at hok
  split at hok
  · obtain ⟨h₁, hok₁, hok⟩ := bind_ok.1 hok
    cases hok
    exact ⟨mergeOrInsertFreeBlocks_nodes hok₁, rfl⟩
  · split at hok
    · cases hok
      exact ⟨rfl, rfl⟩
    · obtain ⟨⟨h₁, p⟩, hnew, hok⟩ := bind_ok.1 hok
      cases hok
      exact ⟨newBlock_nodes hnew, rfl⟩

end Frame

end Gubos.Vmm
