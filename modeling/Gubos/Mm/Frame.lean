/-
Two address spaces in one heap.

A call on one context writes and frees only cells of that context's list and tree, and what it adds was not handed out
before. So another context, in cells of its own, is as it was (`Rep.frame`). Nothing is asked of the free list here but that
it is a list: a call that returns keeps the list and the tree whatever the areas are.

- `Frame`: what a call on a context may change, and how calls compose (`Frame.trans`);
- `removeFreeBlocks_frame`, `addFreeBlocks_frame`: taking and returning pages.
-/
import Gubos.Mm.FreeList

namespace Gubos.Vmm

open Gubos.Core Gubos.Paging

/-- the cells of a list and a tree -/
def own (l : List (ℕ × Area)) (t : BinaryTree (ℕ × VmmAllocation)) : List ℕ := ptrs l ++ ptrs (cells t)

/-- a change of the heap by the owner of the cells `S`, who then has the cells `S'` -/
structure Frame (S : List ℕ) (h h' : Heap) (S' : List ℕ) : Prop where
  blocks : ∀ p ∈ h.arena.live, p ∉ S → h'.blocks p = h.blocks p
  nodes : ∀ p ∈ h.arena.live, p ∉ S → h'.nodes p = h.nodes p
  live : ∀ p ∈ h.arena.live, p ∉ S → p ∈ h'.arena.live
  fresh : ∀ p ∈ S', p ∈ S ∨ p ∉ h.arena.live

/-! ## Frames -/

section Frame

variable {A : Allocator} {S S' S'' : List ℕ} {h h' h'' : Heap} {p : ℕ} {b : VmmFreeBlocks} {n : VmmAllocationTree}

theorem Frame.refl (hS : ∀ p ∈ S', p ∈ S) : Frame S h h S' :=
  ⟨fun _ _ _ => rfl, fun _ _ _ => rfl, fun _ hp _ => hp, fun p hp => Or.inl (hS p hp)⟩

/-- **Changes compose.** -/
theorem Frame.trans (h1 : Frame S h h' S') (h2 : Frame S' h' h'' S'') : Frame S h h'' S'' := by
  have hkeep : ∀ p ∈ h.arena.live, p ∉ S → p ∉ S' := fun p hp hS hS' => (h1.fresh p hS').elim hS fun hn => hn hp
  refine ⟨fun p hp hS => ?_, fun p hp hS => ?_, fun p hp hS => ?_, fun p hp => ?_⟩
  · rw [h2.blocks p (h1.live p hp hS) (hkeep p hp hS), h1.blocks p hp hS]
  · rw [h2.nodes p (h1.live p hp hS) (hkeep p hp hS), h1.nodes p hp hS]
  · exact h2.live p (h1.live p hp hS) (hkeep p hp hS)
  · by_contra hc
    obtain ⟨hS, hlive⟩ := not_or.1 hc
    have hlive := not_not.1 hlive
    rcases h2.fresh p hp with hS' | hn
    · exact hkeep p hlive hS hS'
    · exact hn (h1.live p hlive hS)

theorem Frame.mono (h1 : Frame S h h' S') (hS : ∀ p ∈ S'', p ∈ S') : Frame S h h' S'' :=
  ⟨h1.blocks, h1.nodes, h1.live, fun p hp => h1.fresh p (hS p hp)⟩

theorem frame_setBlock (hp : p ∈ S) : Frame S h (h.setBlock p b) S :=
  ⟨fun _ _ hq => Function.update_of_ne (ne_of_mem_of_not_mem hp hq).symm _ _, fun _ _ _ => rfl, fun _ hq _ => hq, fun _ => Or.inl⟩

theorem frame_setNode (hp : p ∈ S) : Frame S h (h.setNode p n) S :=
  ⟨fun _ _ _ => rfl, fun _ _ hq => Function.update_of_ne (ne_of_mem_of_not_mem hp hq).symm _ _, fun _ hq _ => hq, fun _ => Or.inl⟩

theorem frame_kfree (hp : p ∈ S) : Frame S h (h.kfree p) S :=
  ⟨fun _ _ _ => rfl, fun _ _ _ => rfl, fun _ hq hS => (List.mem_erase_of_ne (ne_of_mem_of_not_mem hp hS).symm).2 hq, fun _ => Or.inl⟩

theorem frame_newBlock (hok : h.newBlock A b = .ok (h', p)) : Frame S h h' (p :: S) := by
  unfold Heap.newBlock at hok
  dsimp only at hok
  split_ifs at hok with h0
  cases hok
  have hfresh := h.arena.alloc_fresh A h0
  have hlive := h.arena.alloc_live A h0
  refine ⟨fun q hq _ => Function.update_of_ne (ne_of_mem_of_not_mem hq hfresh) _ _, fun _ _ _ => rfl, fun q hq _ => ?_, fun q hq => ?_⟩
  · change q ∈ (h.arena.alloc A).2.live
    rw [hlive]
    exact List.mem_cons_of_mem _ hq
  · rcases List.mem_cons.1 hq with rfl | hq
    · exact Or.inr hfresh
    · exact Or.inl hq

theorem frame_newNode (hok : h.newNode A n = .ok (h', p)) : Frame S h h' (p :: S) := by
  unfold Heap.newNode at hok
  dsimp only at hok
  split_ifs at hok with h0
  cases hok
  have hfresh := h.arena.alloc_fresh A h0
  have hlive := h.arena.alloc_live A h0
  refine ⟨fun _ _ _ => rfl, fun q hq _ => Function.update_of_ne (ne_of_mem_of_not_mem hq hfresh) _ _, fun q hq _ => ?_, fun q hq => ?_⟩
  · change q ∈ (h.arena.alloc A).2.live
    rw [hlive]
    exact List.mem_cons_of_mem _ hq
  · rcases List.mem_cons.1 hq with rfl | hq
    · exact Or.inr hfresh
    · exact Or.inl hq

/-- **Another context is as it was.** -/
theorem Rep.frame {ctx : VmmContext} {l : List (ℕ × Area)} {t : BinaryTree (ℕ × VmmAllocation)} (hr : Rep h ctx l t)
    (hf : Frame S h h' S') (hapart : ∀ p ∈ own l t, p ∉ S) : Rep h' ctx l t ∧ ∀ p ∈ own l t, p ∉ S' := by
  have hb : ∀ p ∈ ptrs l, h'.block p = h.block p := by
    intro p hp
    have hp' := List.mem_append_left (ptrs (cells t)) hp
    unfold Heap.block
    rw [hf.blocks p (hr.live p hp') (hapart p hp')]
  have hn : ∀ p ∈ ptrs (cells t), h'.node p = h.node p := by
    intro p hp
    have hp' := List.mem_append_right (ptrs l) hp
    unfold Heap.node
    rw [hf.nodes p (hr.live p hp') (hapart p hp')]
  refine ⟨⟨hr.list.congr hb, hr.tree.congr hn, hr.nodup, fun p hp => hf.live p (hr.live p hp) (hapart p hp)⟩, fun p hp hS' => ?_⟩
  exact (hf.fresh p hS').elim (hapart p hp) fun hnl => hnl (hr.live p hp)

end Frame

/-! ## The free list -/

section List

variable {A : Allocator} {mi : KernelMeminfo} {h h' : Heap} {ctx ctx' : VmmContext} {l l₁ l₂ : List (ℕ × Area)}
  {t : BinaryTree (ℕ × VmmAllocation)} {c d : ℕ × Area} {a : Area} {va n r q p : ℕ} {user : Bool}

theorem mem_own_block : c.1 ∈ own (l₁ ++ c :: l₂) t := by
  unfold own
  simp

/-- a new block after `c` -/
theorem Rep.insertAfter_frame (hr : Rep h ctx (l₁ ++ c :: l₂) t)
    (hok : h.newBlock A ⟨a, (h.blocks c.1).next⟩ = .ok (h', p)) (c' : Area) :
    Rep (h'.setBlock c.1 ⟨c', p⟩) ctx (l₁ ++ (c.1, c') :: (p, a) :: l₂) t ∧
      Frame (own (l₁ ++ c :: l₂) t) h (h'.setBlock c.1 ⟨c', p⟩) (own (l₁ ++ (c.1, c') :: (p, a) :: l₂) t) := by
  have hnew : Frame (own (l₁ ++ c :: l₂) t) h h' (p :: own (l₁ ++ c :: l₂) t) := frame_newBlock hok
  have hset : Frame (p :: own (l₁ ++ c :: l₂) t) h' (h'.setBlock c.1 ⟨c', p⟩) (p :: own (l₁ ++ c :: l₂) t) :=
    frame_setBlock (List.mem_cons_of_mem _ mem_own_block)
  refine ⟨hr.insertAfter hok c', (hnew.trans hset).mono fun q hq => ?_⟩
  unfold own at hq ⊢
  simp only [ptrs_append, ptrs_cons, List.mem_append, List.mem_cons] at hq ⊢
  tauto

/-- the area of one block changes -/
theorem Rep.setArea_frame (hr : Rep h ctx (l₁ ++ c :: l₂) t) :
    Rep (h.setBlock c.1 ⟨a, (h.blocks c.1).next⟩) ctx (l₁ ++ (c.1, a) :: l₂) t ∧
      Frame (own (l₁ ++ c :: l₂) t) h (h.setBlock c.1 ⟨a, (h.blocks c.1).next⟩) (own (l₁ ++ (c.1, a) :: l₂) t) := by
  refine ⟨hr.setArea, (frame_setBlock mem_own_block).mono fun q hq => ?_⟩
  unfold own at hq ⊢
  simpa using hq

/-- a block is unlinked -/
theorem Rep.unlink_frame (hr : Rep h ctx (l₁ ++ c :: l₂) t) :
    Rep (unlinkBlock h ctx c.1 (lastPtr 0 l₁)).1 (unlinkBlock h ctx c.1 (lastPtr 0 l₁)).2 (l₁ ++ l₂) t ∧
      Frame (own (l₁ ++ c :: l₂) t) h (unlinkBlock h ctx c.1 (lastPtr 0 l₁)).1 (own (l₁ ++ l₂) t) := by
  have hfree : ∀ h₁ : Heap, Frame (own (l₁ ++ c :: l₂) t) h₁ (h₁.kfree c.1) (own (l₁ ++ c :: l₂) t) := fun _ =>
    frame_kfree mem_own_block
  have hsub : ∀ q ∈ own (l₁ ++ l₂) t, q ∈ own (l₁ ++ c :: l₂) t := by
    intro q hq
    unfold own at hq ⊢
    simp only [ptrs_append, ptrs_cons, List.mem_append, List.mem_cons] at hq ⊢
    tauto
  refine ⟨hr.unlink, Frame.mono ?_ hsub⟩
  unfold unlinkBlock
  dsimp only
  split_ifs with hprev
  · rcases List.eq_nil_or_concat' l₁ with rfl | ⟨l₀, d, rfl⟩
    · exact absurd rfl hprev
    · rw [lastPtr_snoc]
      refine (frame_setBlock ?_).trans (hfree _)
      unfold own
      simp
  · exact hfree h

/-- **Taking pages**, whatever the areas are. -/
theorem removeFreeBlocks_frame (hr : Rep h ctx l t) (hok : removeFreeBlocks A mi h ctx va n user = .ok (h', ctx', r)) :
    (va ≠ 0 → r = va) ∧ ∃ l', Rep h' ctx' l' t ∧ Frame (own l t) h h' (own l' t) := by
  unfold removeFreeBlocks at hok
  split_ifs at hok
  obtain ⟨⟨q, prev⟩, hfind, hok⟩ := bind_ok.1 hok
  dsimp only at hok
  split_ifs at hok with hq0
  obtain ⟨l₁, l₂, rfl, _, rfl, hq⟩ := scan_spec hr.list hfind
  rcases hq with ⟨rfl, _⟩ | ⟨c, l₃, rfl, rfl, _⟩
  · exact absurd rfl hq0
  have hself : Rep h ctx (l₁ ++ c :: l₃) t ∧ Frame (own (l₁ ++ c :: l₃) t) h h (own (l₁ ++ c :: l₃) t) :=
    ⟨hr, .refl fun _ hp => hp⟩
  unfold takeFreeBlocks at hok
  dsimp only at hok
  generalize (if va ≠ 0 then u32 (va + 2 ^ 32 - (h.blocks c.1).virtualAddr) / pageSize else 0) = off at hok
  split_ifs at hok with h1 h2 h3 h4 h5
  · cases hok
    exact ⟨fun _ => rfl, _, hr.unlink_frame⟩
  · cases hok
    exact ⟨fun h0 => (h4.resolve_left h0).symm, _, hr.setArea_frame⟩
  · obtain ⟨⟨h₁, p⟩, hnew, hok⟩ := bind_ok.1 hok
    cases hok
    have hsame := newBlock_area hr hnew
    dsimp only at hsame ⊢
    exact ⟨fun _ => rfl, _, hr.insertAfter_frame hnew _⟩
  · cases hok
    exact ⟨fun _ => rfl, _, hr.setArea_frame⟩
  · cases hok
    exact ⟨fun _ => rfl, _, hself⟩

theorem insertFreeBlocks_frame (hr : Rep h ctx (l₁ ++ d :: l₂) t) (hok : insertFreeBlocks A h d.1 va n = .ok h') :
    ∃ l', Rep h' ctx l' t ∧ Frame (own (l₁ ++ d :: l₂) t) h h' (own l' t) := by
  obtain ⟨⟨h₁, p⟩, hnew, hok⟩ := bind_ok.1 hok
  cases hok
  exact ⟨_, hr.insertAfter_frame hnew _⟩

/-- a block takes over the one after it -/
theorem Rep.absorb_frame (hr : Rep h ctx (l₁ ++ d :: c :: l₂) t) :
    Rep ((h.setBlock d.1 ⟨a, (h.blocks c.1).next⟩).kfree c.1) ctx (l₁ ++ (d.1, a) :: l₂) t ∧
      Frame (own (l₁ ++ d :: c :: l₂) t) h ((h.setBlock d.1 ⟨a, (h.blocks c.1).next⟩).kfree c.1)
        (own (l₁ ++ (d.1, a) :: l₂) t) := by
  have hd0 : d.1 ≠ 0 := fun h0 => hr.list.ne_zero (by simp [h0])
  have hdc : c.1 ≠ d.1 := hr.ne_of_mem c.1 (by simp)
  obtain ⟨hr₁, hf₁⟩ : Rep (h.setBlock d.1 ⟨a, (h.blocks d.1).next⟩) ctx (l₁ ++ (d.1, a) :: c :: l₂) t ∧ _ := hr.setArea_frame
  -- the area is set, and then the block after it is unlinked
  have hsplit : l₁ ++ (d.1, a) :: c :: l₂ = (l₁ ++ [(d.1, a)]) ++ c :: l₂ := by simp
  have hunlink : unlinkBlock (h.setBlock d.1 ⟨a, (h.blocks d.1).next⟩) ctx c.1 (lastPtr 0 (l₁ ++ [(d.1, a)])) =
      ((h.setBlock d.1 ⟨a, (h.blocks c.1).next⟩).kfree c.1, ctx) := by
    unfold unlinkBlock
    dsimp only
    rw [lastPtr_snoc, if_pos hd0]
    unfold Heap.setBlock
    simp only [Function.update_self, Function.update_of_ne hdc, Function.update_idem]
  rw [hsplit] at hr₁ hf₁
  obtain ⟨hr₂, hf₂⟩ := hr₁.unlink_frame
  have hlist : l₁ ++ [(d.1, a)] ++ l₂ = l₁ ++ (d.1, a) :: l₂ := by simp
  rw [hunlink, hlist] at hr₂ hf₂
  exact ⟨hr₂, hf₁.trans hf₂⟩

/-- the block after `d` -/
theorem Rep.next_eq (hr : Rep h ctx (l₁ ++ d :: l₂) t) (h0 : (h.blocks d.1).next ≠ 0) :
    ∃ c l₃, l₂ = c :: l₃ ∧ (h.blocks d.1).next = c.1 := by
  obtain ⟨m, _, rfl, _, _, hl₂⟩ := seg_append.1 hr.list
  cases l₂ with
  | nil => exact absurd hl₂ h0
  | cons c l₃ => exact ⟨c, l₃, rfl, hl₂.1⟩

theorem mergeOrInsertFreeBlocks_frame (hr : Rep h ctx (l₁ ++ d :: l₂) t)
    (hok : mergeOrInsertFreeBlocks A mi h d.1 va n = .ok h') :
    ∃ l', Rep h' ctx l' t ∧ Frame (own (l₁ ++ d :: l₂) t) h h' (own l' t) := by
  have hd0 : d.1 ≠ 0 := fun h0 => hr.list.ne_zero (by simp [h0])
  unfold mergeOrInsertFreeBlocks at hok
  rw [if_pos hd0] at hok
  dsimp only at hok
  split at hok
  · exact insertFreeBlocks_frame hr hok
  -- the block as it is after the first merge, if there was one
  obtain ⟨e, h₁, hh₁, hr₁, hf₁⟩ : ∃ e h₁, h₁ = (if decide (u32 ((h.blocks d.1).virtualAddr + n * pageSize) = va) = true then
        h.setBlock d.1 ⟨⟨(h.blocks d.1).virtualAddr, u32 ((h.blocks d.1).pageCount + n)⟩, (h.blocks d.1).next⟩ else h) ∧
      Rep h₁ ctx (l₁ ++ (d.1, e) :: l₂) t ∧ Frame (own (l₁ ++ d :: l₂) t) h h₁ (own (l₁ ++ (d.1, e) :: l₂) t) := by
    split_ifs
    · exact ⟨_, _, rfl, hr.setArea_frame⟩
    · exact ⟨d.2, _, rfl, hr, .refl fun _ hp => hp⟩
  rw [← hh₁] at hok
  split_ifs at hok with hnext hmerged
  · cases hok
    obtain ⟨c, l₃, rfl, hc⟩ := hr₁.next_eq hnext.1
    rw [hc]
    obtain ⟨hr₂, hf₂⟩ := hr₁.absorb_frame
    exact ⟨_, hr₂, hf₁.trans hf₂⟩
  · cases hok
    exact ⟨_, hr₁, hf₁⟩
  · obtain ⟨l', hr₂, hf₂⟩ := insertFreeBlocks_frame hr₁ hok
    exact ⟨l', hr₂, hf₁.trans hf₂⟩

/-- **Returning pages**, whatever the areas are. -/
theorem addFreeBlocks_frame (hr : Rep h ctx l t) (hok : addFreeBlocks A mi h ctx va n = .ok (h', ctx')) :
    ∃ l', Rep h' ctx' l' t ∧ Frame (own l t) h h' (own l' t) := by
  obtain ⟨⟨q, prev⟩, hseek, hok⟩ := bind_ok.1 hok
  obtain ⟨hq, rfl⟩ := seekFreeBlocks_spec hr.list hseek
  rw [← before_append_after va l] at hr ⊢
  generalize before va l = l₁ at hr hok ⊢
  generalize after va l = l₂ at hr hq ⊢
  unfold putFreeBlocks at hok
  dsimp only at hok
  rcases List.eq_nil_or_concat' l₁ with rfl | ⟨l₀, d, rfl⟩
  · rw [lastPtr_nil, if_neg (not_not.2 rfl)] at hok
    split_ifs at hok with hmerge
    · cases hok
      cases l₂ with
      | nil => exact absurd hq hmerge.1
      | cons c l₂ =>
        have hq : q = c.1 := hq
        subst hq
        exact ⟨_, @Rep.setArea_frame h ctx [] l₂ t c _ hr⟩
    · obtain ⟨⟨h₁, p⟩, hnew, hok⟩ := bind_ok.1 hok
      cases hok
      have hhead : ctx.freeBlocks = q := by
        cases l₂ with
        | nil => exact (hr.list : ctx.freeBlocks = 0).trans hq.symm
        | cons c l₂ => exact hr.list.1.trans hq.symm
      subst hhead
      exact ⟨_, hr.pushFront hnew, frame_newBlock hnew⟩
  · have hd0 : d.1 ≠ 0 := fun h0 => hr.list.ne_zero (by simp [h0])
    rw [lastPtr_snoc, if_pos hd0] at hok
    obtain ⟨h₁, hok₁, hok⟩ := bind_ok.1 hok
    cases hok
    rw [List.append_assoc, List.singleton_append] at hr ⊢
    exact mergeOrInsertFreeBlocks_frame hr hok₁

end List

end Gubos.Vmm
