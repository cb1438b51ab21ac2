/-
Binary trees of linked cells.

A reader `rd` gives the contents of a cell and its left and right links; NULL is 0. `TreeAt rd p t` says that the cells
reachable from `p` are the tree `t`, whose nodes are (pointer, contents). A search is a decision at each node: stop, or go
left or right. `walk` is the loop that follows the links, `descend` the same on the tree.

- `walk_spec`: the loop returns where the search of the tree stops, NULL if it falls out of the tree;
- `TreeAt.set`: the contents of one cell change;
- `TreeAt.insert`: a leaf is linked where a search fell out of the tree;
- `walk_eq`: with more rounds than nodes it does return;
- `descend_replaceAt`: a search does not see a change of a subtree in which it ends the same;
- `TreeAt.hang`, `TreeAt.remove_root`, `TreeAt.remove_child`: a node is taken out, its left subtree takes its place and
  its right subtree is hung at the right end of that.
-/
import Gubos.Core.Heap
import Gubos.Panic

namespace Gubos.Core

inductive Dir where
  | stop
  | left
  | right
deriving DecidableEq, Repr

variable {β : Type}

/-- the cells reachable from `p` are the tree `t` -/
def TreeAt (rd : ℕ → β × ℕ × ℕ) : ℕ → BinaryTree (ℕ × β) → Prop
  | p, .nil => p = 0
  | p, .node c l r => p = c.1 ∧ c.1 ≠ 0 ∧ (rd c.1).1 = c.2 ∧ TreeAt rd (rd c.1).2.1 l ∧ TreeAt rd (rd c.1).2.2 r

instance decTreeAt [DecidableEq β] (rd : ℕ → β × ℕ × ℕ) : ∀ p t, Decidable (TreeAt rd p t)
  | p, .nil => inferInstanceAs (Decidable (p = 0))
  | p, .node c l r =>
    haveI := decTreeAt rd (rd c.1).2.1 l
    haveI := decTreeAt rd (rd c.1).2.2 r
    inferInstanceAs (Decidable
      (p = c.1 ∧ c.1 ≠ 0 ∧ (rd c.1).1 = c.2 ∧ TreeAt rd (rd c.1).2.1 l ∧ TreeAt rd (rd c.1).2.2 r))

/-- the tree at `p`, as far as it goes -/
def readTree (rd : ℕ → β × ℕ × ℕ) : ℕ → ℕ → BinaryTree (ℕ × β)
  | 0, _ => .nil
  | fuel + 1, p =>
    if p = 0 then .nil
    else .node (p, (rd p).1) (readTree rd fuel (rd p).2.1) (readTree rd fuel (rd p).2.2)

/-- the nodes of a tree, each before its subtrees -/
def cells : BinaryTree (ℕ × β) → List (ℕ × β)
  | .nil => []
  | .node c l r => c :: (cells l ++ cells r)

/-- the loop of a search from `p`: the cell it stops at, or NULL, and the cell before that -/
def walk (rd : ℕ → β × ℕ × ℕ) (go : β → Dir) : ℕ → ℕ → ℕ → Except Fault (ℕ × ℕ)
  | 0, _, _ => .error .diverges
  | fuel + 1, p, prev =>
    if p = 0 then .ok (0, prev)
    else match go (rd p).1 with
      | .stop => .ok (p, prev)
      | .left => walk rd go fuel (rd p).2.1 p
      | .right => walk rd go fuel (rd p).2.2 p

/-- the node at which the search of a tree stops -/
def descend (go : β → Dir) : BinaryTree (ℕ × β) → Option (ℕ × β)
  | .nil => none
  | .node c l r =>
    match go c.2 with
    | .stop => some c
    | .left => descend go l
    | .right => descend go r

/-- a leaf where the search falls out of the tree -/
def insertLeaf (go : β → Dir) (c : ℕ × β) : BinaryTree (ℕ × β) → BinaryTree (ℕ × β)
  | .nil => .node c .nil .nil
  | .node d l r =>
    match go d.2 with
    | .left => .node d (insertLeaf go c l) r
    | _ => .node d l (insertLeaf go c r)

/-- the loop to the right end of a tree; its first step reads through NULL if there is no tree -/
def rightEnd (rd : ℕ → β × ℕ × ℕ) : ℕ → ℕ → Except Fault ℕ
  | 0, _ => .error .diverges
  | fuel + 1, p =>
    if p = 0 then .error .nullDereference
    else if (rd p).2.2 = 0 then .ok p
    else rightEnd rd fuel (rd p).2.2

/-- `r` hung at the right end of a tree -/
def hangRight (r : BinaryTree (ℕ × β)) : BinaryTree (ℕ × β) → BinaryTree (ℕ × β)
  | .nil => r
  | .node c a b => .node c a (hangRight r b)

/-- the nodes on the way to the right end -/
def rightSpine : BinaryTree (ℕ × β) → List (ℕ × β)
  | .nil => []
  | .node c _ b => c :: rightSpine b

/-- the subtree at cell `q`, and the tree with another one in its place -/
def subtreeAt (q : ℕ) : BinaryTree (ℕ × β) → BinaryTree (ℕ × β)
  | .nil => .nil
  | .node c l r =>
    if c.1 = q then .node c l r else if q ∈ ptrs (cells l) then subtreeAt q l else subtreeAt q r

def replaceAt (q : ℕ) (s : BinaryTree (ℕ × β)) : BinaryTree (ℕ × β) → BinaryTree (ℕ × β)
  | .nil => .nil
  | .node c l r => if c.1 = q then s else .node c (replaceAt q s l) (replaceAt q s r)

/-- cell `q` taken out -/
def removeCell (q : ℕ) : BinaryTree (ℕ × β) → BinaryTree (ℕ × β)
  | .nil => .nil
  | .node c l r => if c.1 = q then hangRight r l else .node c (removeCell q l) (removeCell q r)

/-- the contents of cell `q` replaced -/
def setCell (q : ℕ) (b : β) (c : ℕ × β) : ℕ × β := if c.1 = q then (q, b) else c

section Lemmas

variable {rd rd' : ℕ → β × ℕ × ℕ} {go : β → Dir} {p q prev fuel : ℕ} {b : β} {c d : ℕ × β}
  {t l r : BinaryTree (ℕ × β)}

@[simp] theorem cells_nil : cells (.nil : BinaryTree (ℕ × β)) = [] := rfl
@[simp] theorem cells_node : cells (.node c l r) = c :: (cells l ++ cells r) := rfl

@[simp] theorem treeAt_nil : TreeAt rd p .nil ↔ p = 0 := Iff.rfl

/-- a tree survives any change of memory outside its cells -/
theorem TreeAt.congr (h : TreeAt rd p t) (he : ∀ a ∈ ptrs (cells t), rd' a = rd a) : TreeAt rd' p t := by
  induction t generalizing p with
  | nil => exact h
  | node c l r ihl ihr =>
    obtain ⟨h1, h2, h3, h4, h5⟩ := h
    have hc : rd' c.1 = rd c.1 := he c.1 (by simp)
    refine ⟨h1, h2, by rw [hc]; exact h3, ?_, ?_⟩
    · rw [hc]
      exact ihl h4 fun a ha => he a (by simp [ha])
    · rw [hc]
      exact ihr h5 fun a ha => he a (by simp [ha])

theorem TreeAt.ne_zero (h : TreeAt rd p t) : 0 ∉ ptrs (cells t) := by
  induction t generalizing p with
  | nil => simp
  | node c l r ihl ihr =>
    obtain ⟨_, h2, _, h4, h5⟩ := h
    simp only [cells_node, ptrs_cons, ptrs_append, List.mem_cons, List.mem_append, not_or]
    exact ⟨fun h0 => h2 h0.symm, ihl h4, ihr h5⟩

theorem TreeAt.contents (h : TreeAt rd p t) : ∀ c ∈ cells t, (rd c.1).1 = c.2 := by
  induction t generalizing p with
  | nil => simp
  | node c l r ihl ihr =>
    obtain ⟨_, _, h3, h4, h5⟩ := h
    intro d hd
    simp only [cells_node, List.mem_cons, List.mem_append] at hd
    rcases hd with rfl | hd | hd
    · exact h3
    · exact ihl h4 d hd
    · exact ihr h5 d hd

theorem TreeAt.root_mem (h : TreeAt rd p t) (hp : p ≠ 0) : p ∈ ptrs (cells t) := by
  cases t with
  | nil => exact absurd h hp
  | node c l r => simp [h.1]

/-- the memory determines the tree -/
theorem TreeAt.unique {t' : BinaryTree (ℕ × β)} (h : TreeAt rd p t) (h' : TreeAt rd p t') : t = t' := by
  induction t generalizing p t' with
  | nil =>
    cases t' with
    | nil => rfl
    | node c l r => exact absurd (h'.1.symm.trans h) h'.2.1
  | node c l r ihl ihr =>
    cases t' with
    | nil => exact absurd (h.1.symm.trans h') h.2.1
    | node d l' r' =>
      obtain ⟨a1, _, a3, a4, a5⟩ := h
      obtain ⟨b1, _, b3, b4, b5⟩ := h'
      have hcd : c.1 = d.1 := a1.symm.trans b1
      have hc : c = d := Prod.ext hcd (by rw [← a3, ← b3, hcd])
      subst hc
      rw [ihl a4 b4, ihr a5 b5]

/-- where a search stops -/
theorem descend_some (h : descend go t = some c) : c ∈ cells t ∧ go c.2 = .stop := by
  induction t with
  | nil => cases h
  | node d l r ihl ihr =>
    unfold descend at h
    split at h
    · cases h
      exact ⟨by simp, by assumption⟩
    · obtain ⟨h1, h2⟩ := ihl h
      exact ⟨by simp [h1], h2⟩
    · obtain ⟨h1, h2⟩ := ihr h
      exact ⟨by simp [h1], h2⟩

/-- the loop returns where the search of the tree stops -/
theorem walk_spec (h : TreeAt rd p t) {pr : ℕ} (hw : walk rd go fuel p prev = .ok (q, pr)) :
    (q = 0 ∧ descend go t = none) ∨ ∃ b, descend go t = some (q, b) := by
  induction t generalizing p prev fuel with
  | nil =>
    cases fuel with
    | zero => cases hw
    | succ fuel =>
      rw [walk, if_pos (treeAt_nil.1 h)] at hw
      cases hw
      exact Or.inl ⟨rfl, rfl⟩
  | node c l r ihl ihr =>
    cases fuel with
    | zero => cases hw
    | succ fuel =>
      obtain ⟨rfl, h2, h3, h4, h5⟩ := h
      rw [walk, if_neg h2, h3] at hw
      unfold descend
      cases hgo : go c.2 with
      | stop =>
        rw [hgo] at hw
        cases hw
        exact Or.inr ⟨c.2, rfl⟩
      | left =>
        rw [hgo] at hw
        exact ihl h4 hw
      | right =>
        rw [hgo] at hw
        exact ihr h5 hw

/-- the cell before the one where the search falls out of the tree is one of the tree -/
theorem walk_prev_mem (h : TreeAt rd p t) {pr : ℕ} (hw : walk rd go fuel p prev = .ok (0, pr)) :
    (t = .nil ∧ pr = prev) ∨ pr ∈ ptrs (cells t) := by
  induction t generalizing p prev fuel with
  | nil =>
    cases fuel with
    | zero => cases hw
    | succ fuel =>
      rw [walk, if_pos (treeAt_nil.1 h)] at hw
      cases hw
      exact Or.inl ⟨rfl, rfl⟩
  | node c l r ihl ihr =>
    cases fuel with
    | zero => cases hw
    | succ fuel =>
      obtain ⟨rfl, h2, h3, h4, h5⟩ := h
      rw [walk, if_neg h2, h3] at hw
      split at hw
      · simp only [Except.ok.injEq, Prod.mk.injEq] at hw
        exact absurd hw.1 h2
      · rcases ihl h4 hw with ⟨_, rfl⟩ | hm
        · exact Or.inr (by simp)
        · exact Or.inr (by simp [hm])
      · rcases ihr h5 hw with ⟨_, rfl⟩ | hm
        · exact Or.inr (by simp)
        · exact Or.inr (by simp [hm])

/-- the contents of one cell change -/
theorem TreeAt.set (h : TreeAt rd p t) (he : ∀ a, a ≠ q → rd' a = rd a) (hq : rd' q = (b, (rd q).2)) :
    TreeAt rd' p (t.map (setCell q b)) := by
  induction t generalizing p with
  | nil => exact h
  | node c l r ihl ihr =>
    obtain ⟨h1, h2, h3, h4, h5⟩ := h
    by_cases hc : c.1 = q
    · subst hc
      have hset : setCell c.1 b c = (c.1, b) := if_pos rfl
      refine ⟨by rw [hset]; exact h1, by rw [hset]; exact h2, ?_, ?_, ?_⟩
      · rw [hset, hq]
      · rw [hset, hq]
        exact ihl h4
      · rw [hset, hq]
        exact ihr h5
    · have hset : setCell q b c = c := if_neg hc
      refine ⟨by rw [hset]; exact h1, by rw [hset]; exact h2, ?_, ?_, ?_⟩
      · rw [hset, he _ hc]
        exact h3
      · rw [hset, he _ hc]
        exact ihl h4
      · rw [hset, he _ hc]
        exact ihr h5

theorem cells_map (f : ℕ × β → ℕ × β) (t : BinaryTree (ℕ × β)) : cells (t.map f) = (cells t).map f := by
  induction t with
  | nil => rfl
  | node c l r ihl ihr => simp only [BinaryTree.map, cells_node, ihl, ihr, List.map_cons, List.map_append]

/-- in a list without repeated pointers one cell is replaced -/
theorem map_setCell {l₁ l₂ : List (ℕ × β)} (hnd : (ptrs (l₁ ++ c :: l₂)).Nodup) :
    (l₁ ++ c :: l₂).map (setCell c.1 b) = l₁ ++ (c.1, b) :: l₂ := by
  have hid : ∀ l : List (ℕ × β), c.1 ∉ ptrs l → l.map (setCell c.1 b) = l := by
    intro l hl
    refine (List.map_congr_left fun d hd => ?_).trans (List.map_id l)
    have hne : d.1 ≠ c.1 := fun he => hl (he ▸ mem_ptrs hd)
    exact if_neg hne
  rw [ptrs_append, ptrs_cons, List.nodup_middle, List.nodup_cons, List.mem_append, not_or] at hnd
  rw [List.map_append, List.map_cons, hid l₁ hnd.1.1, hid l₂ hnd.1.2]
  rw [setCell, if_pos rfl]

theorem ptrs_map_setCell (l : List (ℕ × β)) : ptrs (l.map (setCell q b)) = ptrs l := by
  unfold ptrs
  rw [List.map_map]
  refine List.map_congr_left fun c _ => ?_
  simp only [Function.comp_apply, setCell]
  split_ifs with h
  · exact h.symm
  · rfl

/-- a leaf is linked to the cell where the search fell out of the tree -/
theorem TreeAt.insert (h : TreeAt rd p t) (ht : t ≠ .nil) {pr : ℕ} (hw : walk rd go fuel p prev = .ok (0, pr))
    (hnd : (ptrs (cells t)).Nodup) (hc0 : c.1 ≠ 0) (hc : c.1 ∉ ptrs (cells t)) (hnew : rd' c.1 = (c.2, 0, 0))
    (hlink : rd' pr = if go (rd pr).1 = .left then ((rd pr).1, c.1, (rd pr).2.2) else ((rd pr).1, (rd pr).2.1, c.1))
    (he : ∀ a, a ≠ pr → a ≠ c.1 → rd' a = rd a) : TreeAt rd' p (insertLeaf go c t) := by
  induction t generalizing p prev fuel with
  | nil => exact absurd rfl ht
  | node d l r ihl ihr =>
    cases fuel with
    | zero => cases hw
    | succ fuel =>
      obtain ⟨rfl, h2, h3, h4, h5⟩ := h
      rw [walk, if_neg h2, h3] at hw
      simp only [cells_node, ptrs_cons, ptrs_append, List.nodup_cons, List.nodup_append, List.mem_append, List.mem_cons,
        not_or] at hnd hc
      obtain ⟨⟨hdl, hdr⟩, hndl, hndr, hlr⟩ := hnd
      obtain ⟨hcd, hcl, hcr⟩ := hc
      have hleaf : TreeAt rd' c.1 (.node c .nil .nil) := ⟨rfl, hc0, by rw [hnew], by rw [hnew]; rfl, by rw [hnew]; rfl⟩
      unfold insertLeaf
      cases hgo : go d.2 with
      | stop =>
        rw [hgo] at hw
        simp only [Except.ok.injEq, Prod.mk.injEq] at hw
        exact absurd hw.1 h2
      | left =>
        rw [hgo] at hw
        rcases walk_prev_mem h4 hw with ⟨rfl, rfl⟩ | hm
        · -- the leaf hangs at `d`
          rw [h3, hgo, if_pos rfl] at hlink
          refine ⟨rfl, h2, by rw [hlink], by rw [hlink]; exact hleaf, ?_⟩
          rw [hlink]
          exact h5.congr fun a ha => he a (fun e => hdr (e ▸ ha)) fun e => hcr (e ▸ ha)
        · have hd : rd' d.1 = rd d.1 := he _ (fun e => hdl (e ▸ hm)) (Ne.symm hcd)
          refine ⟨rfl, h2, by rw [hd]; exact h3, ?_, ?_⟩
          · rw [hd]
            refine ihl h4 (fun e => ?_) hw hndl hcl
            simp [e] at hm
          · rw [hd]
            exact h5.congr fun a ha => he a (fun e => hlr _ hm _ ha e.symm) fun e => hcr (e ▸ ha)
      | right =>
        rw [hgo] at hw
        rcases walk_prev_mem h5 hw with ⟨rfl, rfl⟩ | hm
        · rw [h3, hgo, if_neg (by decide)] at hlink
          refine ⟨rfl, h2, by rw [hlink], ?_, by rw [hlink]; exact hleaf⟩
          rw [hlink]
          exact h4.congr fun a ha => he a (fun e => hdl (e ▸ ha)) fun e => hcl (e ▸ ha)
        · have hd : rd' d.1 = rd d.1 := he _ (fun e => hdr (e ▸ hm)) (Ne.symm hcd)
          refine ⟨rfl, h2, by rw [hd]; exact h3, ?_, ?_⟩
          · rw [hd]
            exact h4.congr fun a ha => he a (fun e => hlr _ ha _ hm e) fun e => hcl (e ▸ ha)
          · rw [hd]
            refine ihr h5 (fun e => ?_) hw hndr hcr
            simp [e] at hm

theorem cells_insertLeaf (go : β → Dir) (c : ℕ × β) (t : BinaryTree (ℕ × β)) :
    (cells (insertLeaf go c t)).Perm (c :: cells t) := by
  induction t with
  | nil => exact List.Perm.refl _
  | node d l r ihl ihr =>
    have hleft : (d :: (cells (insertLeaf go c l) ++ cells r)).Perm (c :: d :: (cells l ++ cells r)) :=
      ((ihl.append_right _).cons d).trans (List.Perm.swap c d _)
    have hright : (d :: (cells l ++ cells (insertLeaf go c r))).Perm (c :: d :: (cells l ++ cells r)) :=
      (((ihr.append_left _).trans List.perm_middle).cons d).trans (List.Perm.swap c d _)
    unfold insertLeaf
    split
    · exact hleft
    · exact hright

theorem cells_hangRight (r : BinaryTree (ℕ × β)) (l : BinaryTree (ℕ × β)) :
    (cells (hangRight r l)).Perm (cells l ++ cells r) := by
  induction l with
  | nil => exact List.Perm.refl _
  | node c a b _ ihb =>
    simp only [hangRight, cells_node, List.cons_append, List.append_assoc]
    exact (ihb.append_left _).cons c

theorem removeCell_of_notMem (hq : q ∉ ptrs (cells t)) : removeCell q t = t := by
  induction t with
  | nil => rfl
  | node c l r ihl ihr =>
    simp only [cells_node, ptrs_cons, ptrs_append, List.mem_cons, List.mem_append, not_or] at hq
    rw [removeCell, if_neg (Ne.symm hq.1), ihl hq.2.1, ihr hq.2.2]

theorem cells_removeCell (hnd : (ptrs (cells t)).Nodup) (hc : c ∈ cells t) :
    (c :: cells (removeCell c.1 t)).Perm (cells t) := by
  induction t with
  | nil => cases hc
  | node d l r ihl ihr =>
    simp only [cells_node, ptrs_cons, ptrs_append, List.nodup_cons, List.nodup_append, List.mem_append, not_or] at hnd
    obtain ⟨⟨hdl, hdr⟩, hndl, hndr, hlr⟩ := hnd
    simp only [cells_node, List.mem_cons, List.mem_append] at hc
    rcases hc with rfl | hc | hc
    · rw [removeCell, if_pos rfl]
      exact (cells_hangRight r l).cons c
    · have hne : d.1 ≠ c.1 := fun he => hdl (he ▸ mem_ptrs hc)
      rw [removeCell, if_neg hne, removeCell_of_notMem (t := r) fun hm => hlr _ (mem_ptrs hc) _ hm rfl]
      exact (List.Perm.swap d c _).trans (((ihl hndl hc).append_right _).cons d)
    · have hne : d.1 ≠ c.1 := fun he => hdr (he ▸ mem_ptrs hc)
      rw [removeCell, if_neg hne, removeCell_of_notMem (t := l) fun hm => hlr _ hm _ (mem_ptrs hc) rfl]
      exact (List.Perm.swap d c _).trans ((List.perm_middle.symm.trans ((ihr hndr hc).append_left _)).cons d)

theorem mem_cells_removeCell (hd : d ∈ cells (removeCell q t)) : d ∈ cells t := by
  induction t with
  | nil => exact hd
  | node e l r ihl ihr =>
    unfold removeCell at hd
    simp only [cells_node, List.mem_cons, List.mem_append]
    split_ifs at hd
    · exact Or.inr (List.mem_append.1 ((cells_hangRight r l).mem_iff.1 hd))
    · simp only [cells_node, List.mem_cons, List.mem_append] at hd
      exact hd.imp_right fun hd => hd.imp ihl ihr

theorem rightEnd_mem (h : TreeAt rd p t) (hm : rightEnd rd fuel p = .ok q) : q ∈ ptrs (cells t) := by
  induction t generalizing p fuel with
  | nil =>
    cases fuel with
    | zero => cases hm
    | succ fuel =>
      rw [rightEnd, if_pos (treeAt_nil.1 h)] at hm
      cases hm
  | node c l r _ ihr =>
    cases fuel with
    | zero => cases hm
    | succ fuel =>
      obtain ⟨rfl, h2, _, _, h5⟩ := h
      rw [rightEnd, if_neg h2] at hm
      split_ifs at hm with h0
      · cases hm
        simp
      · have := ihr h5 hm
        simp [this]

/-- a tree is linked to the right end of another -/
theorem TreeAt.hang {m : ℕ} (h : TreeAt rd p l) (hm : rightEnd rd fuel p = .ok m) (hr : TreeAt rd' q r)
    (hnd : (ptrs (cells l)).Nodup) (hset : rd' m = ((rd m).1, (rd m).2.1, q))
    (he : ∀ a ∈ ptrs (cells l), a ≠ m → rd' a = rd a) : TreeAt rd' p (hangRight r l) := by
  induction l generalizing p fuel with
  | nil =>
    cases fuel with
    | zero => cases hm
    | succ fuel =>
      rw [rightEnd, if_pos (treeAt_nil.1 h)] at hm
      cases hm
  | node c a b _ ihb =>
    cases fuel with
    | zero => cases hm
    | succ fuel =>
      obtain ⟨rfl, h2, h3, h4, h5⟩ := h
      simp only [cells_node, ptrs_cons, ptrs_append, List.nodup_cons, List.nodup_append, List.mem_append, not_or] at hnd
      obtain ⟨⟨hca, hcb⟩, hnda, hndb, hab⟩ := hnd
      rw [rightEnd, if_neg h2] at hm
      split_ifs at hm with h0
      · -- `c` is the right end
        cases hm
        obtain rfl : b = .nil := by
          cases b with
          | nil => rfl
          | node d _ _ => exact absurd (h5.1.symm.trans h0) h5.2.1
        refine ⟨rfl, h2, by rw [hset]; exact h3, ?_, by rw [hset]; exact hr⟩
        rw [hset]
        exact h4.congr fun x hx => he x (by simp [hx]) fun e => hca (e ▸ hx)
      · have hmb : m ∈ ptrs (cells b) := rightEnd_mem h5 hm
        have hc : rd' c.1 = rd c.1 := he c.1 (by simp) fun e => hcb (e ▸ hmb)
        refine ⟨rfl, h2, by rw [hc]; exact h3, ?_, ?_⟩
        · rw [hc]
          exact h4.congr fun x hx => he x (by simp [hx]) (hab x hx m hmb)
        · rw [hc]
          exact ihb h5 hm hndb fun x hx => he x (by simp [hx])

/-- the root is taken out: what its left link then points to -/
theorem TreeAt.remove_root {m : ℕ} (h : TreeAt rd p t) (hp : p ≠ 0) (hnd : (ptrs (cells t)).Nodup)
    (hm : rightEnd rd fuel (rd p).2.1 = .ok m) (hset : rd' m = ((rd m).1, (rd m).2.1, (rd p).2.2))
    (he : ∀ a ∈ ptrs (cells t), a ≠ p → a ≠ m → rd' a = rd a) : TreeAt rd' (rd p).2.1 (removeCell p t) := by
  cases t with
  | nil => exact absurd h hp
  | node c l r =>
    obtain ⟨rfl, h2, h3, h4, h5⟩ := h
    simp only [cells_node, ptrs_cons, ptrs_append, List.nodup_cons, List.nodup_append, List.mem_append, not_or] at hnd
    obtain ⟨⟨hcl, hcr⟩, hndl, hndr, hlr⟩ := hnd
    have hml : m ∈ ptrs (cells l) := rightEnd_mem h4 hm
    rw [removeCell, if_pos rfl]
    refine h4.hang hm (h5.congr fun a ha => ?_) hndl hset fun a ha ham => ?_
    · exact he a (by simp [ha]) (fun e => hcr (e ▸ ha)) fun e => hlr m hml a ha e.symm
    · exact he a (by simp [ha]) (fun e => hcl (e ▸ ha)) ham

/-- the subtree at a child of `d` is part of the tree, and `d` is not in it -/
theorem TreeAt.child (h : TreeAt rd p t) (hnd : (ptrs (cells t)).Nodup) {d : ℕ} (hd : d ∈ ptrs (cells t))
    (hdq : (rd d).2.1 = q ∨ (rd d).2.2 = q) :
    ∃ s, TreeAt rd q s ∧ ∀ a ∈ ptrs (cells s), a ∈ ptrs (cells t) ∧ a ≠ d := by
  induction t generalizing p with
  | nil => simp at hd
  | node e l r ihl ihr =>
    obtain ⟨rfl, _, _, h4, h5⟩ := h
    simp only [cells_node, ptrs_cons, ptrs_append, List.nodup_cons, List.nodup_append, List.mem_append, not_or] at hnd
    obtain ⟨⟨hel, her⟩, hndl, hndr, _⟩ := hnd
    simp only [cells_node, ptrs_cons, ptrs_append, List.mem_cons, List.mem_append] at hd
    rcases hd with rfl | hd | hd
    · rcases hdq with rfl | rfl
      · exact ⟨l, h4, fun a ha => ⟨by simp [ha], fun he => hel (he ▸ ha)⟩⟩
      · exact ⟨r, h5, fun a ha => ⟨by simp [ha], fun he => her (he ▸ ha)⟩⟩
    · obtain ⟨s, hs, hin⟩ := ihl h4 hndl hd
      exact ⟨s, hs, fun a ha => ⟨by simp [hin a ha], (hin a ha).2⟩⟩
    · obtain ⟨s, hs, hin⟩ := ihr h5 hndr hd
      exact ⟨s, hs, fun a ha => ⟨by simp [hin a ha], (hin a ha).2⟩⟩

/-- a child is taken out: its parent `d` takes its left link -/
theorem TreeAt.remove_child {m : ℕ} (h : TreeAt rd p t) (hnd : (ptrs (cells t)).Nodup) (hq : q ≠ 0) {d : ℕ}
    (hd : d ∈ ptrs (cells t)) (hdq : (rd d).2.1 = q ∨ (rd d).2.2 = q)
    (hm : rightEnd rd fuel (rd q).2.1 = .ok m) (hset : rd' m = ((rd m).1, (rd m).2.1, (rd q).2.2))
    (hlink : rd' d = if (rd d).2.1 = q then ((rd d).1, (rd q).2.1, (rd d).2.2) else ((rd d).1, (rd d).2.1, (rd q).2.1))
    (he : ∀ a ∈ ptrs (cells t), a ≠ d → a ≠ q → a ≠ m → rd' a = rd a) : TreeAt rd' p (removeCell q t) := by
  -- the two cells that change besides `d` are below it
  have hroot : ∀ {s : BinaryTree (ℕ × β)}, TreeAt rd q s → q ∈ ptrs (cells s) ∧ m ∈ ptrs (cells s) := by
    intro s hs
    refine ⟨hs.root_mem hq, ?_⟩
    cases s with
    | nil => exact absurd hs hq
    | node c a b =>
      obtain ⟨hqc, _, _, ha, _⟩ := hs
      rw [← hqc] at ha
      simp [rightEnd_mem ha hm]
  have hbelow : ∀ {s : BinaryTree (ℕ × β)} {p : ℕ}, TreeAt rd p s → (ptrs (cells s)).Nodup → d ∈ ptrs (cells s) →
      q ∈ ptrs (cells s) ∧ m ∈ ptrs (cells s) := by
    intro s p hs hn hds
    obtain ⟨s', hsub, hin⟩ := hs.child hn hds hdq
    exact ⟨(hin q (hroot hsub).1).1, (hin m (hroot hsub).2).1⟩
  induction t generalizing p with
  | nil => simp at hd
  | node c l r ihl ihr =>
    obtain ⟨rfl, h2, h3, h4, h5⟩ := h
    simp only [cells_node, ptrs_cons, ptrs_append, List.nodup_cons, List.nodup_append, List.mem_append, not_or] at hnd
    obtain ⟨⟨hcl, hcr⟩, hndl, hndr, hlr⟩ := hnd
    simp only [cells_node, ptrs_cons, ptrs_append, List.mem_cons, List.mem_append] at hd he
    -- all of it happens in one subtree, and the other one stays
    have hleft : ∀ p', q ∈ ptrs (cells l) → m ∈ ptrs (cells l) → (d = c.1 ∨ d ∈ ptrs (cells l)) →
        rd' c.1 = ((rd c.1).1, p', (rd c.1).2.2) → TreeAt rd' p' (removeCell q l) →
        TreeAt rd' c.1 (removeCell q (.node c l r)) := by
      intro p' hql hml hdl hc hl
      have hne : c.1 ≠ q := fun e => hcl (e ▸ hql)
      rw [removeCell, if_neg hne, removeCell_of_notMem fun hm => hlr q hql q hm rfl]
      refine ⟨rfl, h2, by rw [hc]; exact h3, by rw [hc]; exact hl, ?_⟩
      rw [hc]
      refine h5.congr fun a ha => he a (Or.inr (Or.inr ha)) ?_ (fun e => hlr q hql a ha e.symm) fun e =>
        hlr m hml a ha e.symm
      rintro rfl
      exact hdl.elim (fun e => hcr (e ▸ ha)) fun hdl => hlr a hdl a ha rfl
    have hright : ∀ p', q ∈ ptrs (cells r) → m ∈ ptrs (cells r) → (d = c.1 ∨ d ∈ ptrs (cells r)) →
        rd' c.1 = ((rd c.1).1, (rd c.1).2.1, p') → TreeAt rd' p' (removeCell q r) →
        TreeAt rd' c.1 (removeCell q (.node c l r)) := by
      intro p' hqr hmr hdr hc hr
      have hne : c.1 ≠ q := fun e => hcr (e ▸ hqr)
      rw [removeCell, if_neg hne, removeCell_of_notMem fun hm => hlr q hm q hqr rfl]
      refine ⟨rfl, h2, by rw [hc]; exact h3, ?_, by rw [hc]; exact hr⟩
      rw [hc]
      refine h4.congr fun a ha => he a (Or.inr (Or.inl ha)) ?_ (fun e => hlr a ha q hqr e) fun e => hlr a ha m hmr e
      rintro rfl
      exact hdr.elim (fun e => hcl (e ▸ ha)) fun hdr => hlr a ha a hdr rfl
    rcases hd with rfl | hd | hd
    · by_cases hlink' : (rd c.1).2.1 = q
      · obtain ⟨hql, hml⟩ := hroot (hlink' ▸ h4)
        rw [if_pos hlink'] at hlink
        refine hleft _ hql hml (Or.inl rfl) hlink ?_
        rw [hlink'] at h4
        exact h4.remove_root hq hndl hm hset fun a ha => he a (Or.inr (Or.inl ha)) fun e => hcl (e ▸ ha)
      · have hlink'' : (rd c.1).2.2 = q := hdq.resolve_left hlink'
        obtain ⟨hqr, hmr⟩ := hroot (hlink'' ▸ h5)
        rw [if_neg hlink'] at hlink
        refine hright _ hqr hmr (Or.inl rfl) hlink ?_
        rw [hlink''] at h5
        exact h5.remove_root hq hndr hm hset fun a ha => he a (Or.inr (Or.inr ha)) fun e => hcr (e ▸ ha)
    · obtain ⟨hql, hml⟩ := hbelow h4 hndl hd
      refine hleft _ hql hml (Or.inr hd) ?_ (ihl h4 hndl hd fun a ha => he a (Or.inr (Or.inl ha)))
      exact he c.1 (Or.inl rfl) (fun e => hcl (e ▸ hd)) (fun e => hcl (e ▸ hql)) fun e => hcl (e ▸ hml)
    · obtain ⟨hqr, hmr⟩ := hbelow h5 hndr hd
      refine hright _ hqr hmr (Or.inr hd) ?_ (ihr h5 hndr hd fun a ha => he a (Or.inr (Or.inr ha)))
      exact he c.1 (Or.inl rfl) (fun e => hcr (e ▸ hd)) (fun e => hcr (e ▸ hqr)) fun e => hcr (e ▸ hmr)

/-- the loop to the right end reads the cells of the tree only -/
theorem rightEnd_congr (h : TreeAt rd p t) (he : ∀ a ∈ ptrs (cells t), rd' a = rd a) :
    rightEnd rd' fuel p = rightEnd rd fuel p := by
  induction t generalizing p fuel with
  | nil =>
    cases fuel with
    | zero => rfl
    | succ fuel => rw [rightEnd, rightEnd, if_pos (treeAt_nil.1 h), if_pos (treeAt_nil.1 h)]
  | node c l r _ ihr =>
    cases fuel with
    | zero => rfl
    | succ fuel =>
      obtain ⟨rfl, h2, _, _, h5⟩ := h
      rw [rightEnd, rightEnd, he c.1 (by simp), ihr h5 fun a ha => he a (by simp [ha])]

/-- the loop to the right end stops where no link goes on -/
theorem rightEnd_right (hm : rightEnd rd fuel p = .ok q) : (rd q).2.2 = 0 := by
  induction fuel generalizing p with
  | zero => cases hm
  | succ fuel ih =>
    rw [rightEnd] at hm
    split_ifs at hm with h0 hr
    · cases hm
      exact hr
    · exact ih hm

/-- the loop to the right end returns if there is a tree -/
theorem rightEnd_returns_iff (h : TreeAt rd p t) (hfuel : (cells t).length < fuel) :
    (∃ q, rightEnd rd fuel p = .ok q) ↔ p ≠ 0 := by
  induction t generalizing p fuel with
  | nil =>
    obtain rfl := treeAt_nil.1 h
    refine iff_of_false ?_ (not_not.2 rfl)
    rintro ⟨q, hq⟩
    cases fuel with
    | zero => cases hq
    | succ fuel => cases hq
  | node c l r _ ihr =>
    cases fuel with
    | zero => cases hfuel
    | succ fuel =>
      obtain ⟨rfl, h2, _, _, h5⟩ := h
      simp only [cells_node, List.length_cons, List.length_append] at hfuel
      refine iff_of_true ?_ h2
      rw [rightEnd, if_neg h2]
      split_ifs with h0
      · exact ⟨_, rfl⟩
      · exact (ihr h5 (by omega)).2 h0

/-- the left subtree of a node -/
theorem TreeAt.left_of_mem (h : TreeAt rd p t) (hc : c ∈ cells t) :
    ∃ a, TreeAt rd (rd c.1).2.1 a ∧ (cells a).length < (cells t).length := by
  induction t generalizing p with
  | nil => cases hc
  | node d l r ihl ihr =>
    obtain ⟨_, _, _, h4, h5⟩ := h
    simp only [cells_node, List.mem_cons, List.mem_append, List.length_cons, List.length_append] at hc ⊢
    rcases hc with rfl | hc | hc
    · exact ⟨l, h4, by omega⟩
    · obtain ⟨a, ha, hlen⟩ := ihl h4 hc
      exact ⟨a, ha, by omega⟩
    · obtain ⟨a, ha, hlen⟩ := ihr h5 hc
      exact ⟨a, ha, by omega⟩

/-! ### Searches -/

/-- a loop with enough rounds returns -/
theorem walk_eq (h : TreeAt rd p t) (hfuel : (cells t).length < fuel) :
    ∃ pr, walk rd go fuel p prev = .ok (((descend go t).map Prod.fst).getD 0, pr) := by
  induction t generalizing p prev fuel with
  | nil =>
    cases fuel with
    | zero => cases hfuel
    | succ fuel => exact ⟨prev, by rw [walk, if_pos (treeAt_nil.1 h)]; rfl⟩
  | node c l r ihl ihr =>
    cases fuel with
    | zero => cases hfuel
    | succ fuel =>
      obtain ⟨rfl, h2, h3, h4, h5⟩ := h
      simp only [cells_node, List.length_cons, List.length_append] at hfuel
      rw [walk, if_neg h2, h3]
      unfold descend
      cases go c.2 with
      | stop => exact ⟨prev, rfl⟩
      | left => exact ihl h4 (by omega)
      | right => exact ihr h5 (by omega)

/-- a search that stops nowhere -/
theorem descend_none (h : ∀ c ∈ cells t, go c.2 ≠ .stop) : descend go t = none := by
  cases hd : descend go t with
  | none => rfl
  | some c => exact absurd (descend_some hd).2 (h c (descend_some hd).1)

/-- a search in a tree with another one at its right end goes on there if it falls out at that end -/
theorem descend_hangRight (r l : BinaryTree (ℕ × β)) :
    descend go (hangRight r l) = descend go l ∨ descend go l = none ∧ descend go (hangRight r l) = descend go r := by
  induction l with
  | nil => exact Or.inr ⟨rfl, rfl⟩
  | node c a b _ ihb =>
    simp only [hangRight, descend]
    cases go c.2 with
    | stop => exact Or.inl rfl
    | left => exact Or.inl rfl
    | right => exact ihb

theorem descend_hangRight_right (r : BinaryTree (ℕ × β)) (h : ∀ c ∈ rightSpine l, go c.2 = .right) :
    descend go (hangRight r l) = descend go r := by
  induction l with
  | nil => rfl
  | node c a b _ ihb =>
    simp only [hangRight, descend, h c List.mem_cons_self]
    exact ihb fun d hd => h d (List.mem_cons_of_mem _ hd)

theorem rightSpine_subset : ∀ c ∈ rightSpine t, c ∈ cells t := by
  induction t with
  | nil => simp [rightSpine]
  | node d a b _ ihb =>
    intro c hc
    rcases List.mem_cons.1 hc with rfl | hc
    · simp
    · simp [ihb c hc]

/-- a search that ends in the tree does not see a new leaf -/
theorem descend_insertLeaf {go' : β → Dir} (h : descend go t = some d) : descend go (insertLeaf go' c t) = some d := by
  induction t with
  | nil => cases h
  | node e l r ihl ihr =>
    unfold descend at h
    unfold insertLeaf
    cases hdir : go e.2 with
    | stop =>
      rw [hdir] at h
      split <;> simpa only [descend, hdir] using h
    | left =>
      rw [hdir] at h
      split
      · simpa only [descend, hdir] using ihl h
      · simpa only [descend, hdir] using h
    | right =>
      rw [hdir] at h
      split
      · simpa only [descend, hdir] using h
      · simpa only [descend, hdir] using ihr h

/-- the subtree at a cell is that cell with two subtrees of the tree -/
theorem subtreeAt_spec (hnd : (ptrs (cells t)).Nodup) (hc : c ∈ cells t) :
    ∃ l r, subtreeAt c.1 t = .node c l r ∧ ∀ d ∈ cells l ++ cells r, d ∈ cells t ∧ d ≠ c := by
  induction t with
  | nil => cases hc
  | node d l r ihl ihr =>
    simp only [cells_node, ptrs_cons, ptrs_append, List.nodup_cons, List.nodup_append, List.mem_append, not_or] at hnd
    obtain ⟨⟨hdl, hdr⟩, hndl, hndr, hlr⟩ := hnd
    simp only [cells_node, List.mem_cons, List.mem_append] at hc
    rcases hc with rfl | hc | hc
    · refine ⟨l, r, by rw [subtreeAt, if_pos rfl], fun e he => ⟨List.mem_cons_of_mem _ he, ?_⟩⟩
      rintro rfl
      rcases List.mem_append.1 he with he | he
      · exact hdl (mem_ptrs he)
      · exact hdr (mem_ptrs he)
    · obtain ⟨l', r', hs, hin⟩ := ihl hndl hc
      have hne : d.1 ≠ c.1 := fun e => hdl (e ▸ mem_ptrs hc)
      refine ⟨l', r', by rw [subtreeAt, if_neg hne, if_pos (mem_ptrs hc), hs], fun e he => ?_⟩
      exact ⟨by simp [hin e he], (hin e he).2⟩
    · obtain ⟨l', r', hs, hin⟩ := ihr hndr hc
      have hne : d.1 ≠ c.1 := fun e => hdr (e ▸ mem_ptrs hc)
      have hl : c.1 ∉ ptrs (cells l) := fun hm => hlr _ hm _ (mem_ptrs hc) rfl
      refine ⟨l', r', by rw [subtreeAt, if_neg hne, if_neg hl, hs], fun e he => ?_⟩
      exact ⟨by simp [hin e he], (hin e he).2⟩

theorem cells_subtreeAt_subset : ∀ c ∈ cells (subtreeAt q t), c ∈ cells t := by
  induction t with
  | nil => exact fun c hc => hc
  | node d l r ihl ihr =>
    intro c hc
    rw [subtreeAt] at hc
    split_ifs at hc
    · exact hc
    · simp [ihl c hc]
    · simp [ihr c hc]

theorem mem_cells_replaceAt {s : BinaryTree (ℕ × β)} (hc : c ∈ cells (replaceAt q s t)) : c ∈ cells t ∨ c ∈ cells s := by
  induction t with
  | nil => cases hc
  | node d l r ihl ihr =>
    rw [replaceAt] at hc
    split_ifs at hc
    · exact Or.inr hc
    · simp only [cells_node, List.mem_cons, List.mem_append] at hc ⊢
      rcases hc with rfl | hc | hc
      · exact Or.inl (Or.inl rfl)
      · exact (ihl hc).imp_left fun h => Or.inr (Or.inl h)
      · exact (ihr hc).imp_left fun h => Or.inr (Or.inr h)

theorem replaceAt_of_notMem {s : BinaryTree (ℕ × β)} (hq : q ∉ ptrs (cells t)) : replaceAt q s t = t := by
  induction t with
  | nil => rfl
  | node c l r ihl ihr =>
    simp only [cells_node, ptrs_cons, ptrs_append, List.mem_cons, List.mem_append, not_or] at hq
    rw [replaceAt, if_neg (Ne.symm hq.1), ihl hq.2.1, ihr hq.2.2]

theorem map_setCell_of_notMem (hq : q ∉ ptrs (cells t)) : t.map (setCell q b) = t := by
  induction t with
  | nil => rfl
  | node c l r ihl ihr =>
    simp only [cells_node, ptrs_cons, ptrs_append, List.mem_cons, List.mem_append, not_or] at hq
    rw [BinaryTree.map, setCell, if_neg (Ne.symm hq.1), ihl hq.2.1, ihr hq.2.2]

/-- both changes of the tree happen at one cell -/
theorem map_setCell_eq (hnd : (ptrs (cells t)).Nodup) (hs : subtreeAt q t = .node c l r) :
    t.map (setCell q b) = replaceAt q (.node (q, b) l r) t := by
  induction t with
  | nil => rfl
  | node d l' r' ihl ihr =>
    simp only [cells_node, ptrs_cons, ptrs_append, List.nodup_cons, List.nodup_append, List.mem_append, not_or] at hnd
    obtain ⟨⟨hdl, hdr⟩, hndl, hndr, hlr⟩ := hnd
    rw [subtreeAt] at hs
    rw [BinaryTree.map, setCell, replaceAt]
    by_cases hdq : d.1 = q
    · rw [if_pos hdq] at hs
      cases hs
      rw [if_pos hdq, if_pos hdq, map_setCell_of_notMem (hdq ▸ hdl), map_setCell_of_notMem (hdq ▸ hdr)]
    rw [if_neg hdq] at hs
    rw [if_neg hdq, if_neg hdq]
    by_cases hl : q ∈ ptrs (cells l')
    · rw [if_pos hl] at hs
      have hr : q ∉ ptrs (cells r') := fun hm => hlr q hl q hm rfl
      rw [ihl hndl hs, map_setCell_of_notMem hr, replaceAt_of_notMem hr]
    · rw [if_neg hl] at hs
      rw [ihr hndr hs, map_setCell_of_notMem hl, replaceAt_of_notMem hl]

theorem removeCell_eq (hnd : (ptrs (cells t)).Nodup) (hs : subtreeAt q t = .node c l r) :
    removeCell q t = replaceAt q (hangRight r l) t := by
  induction t with
  | nil => rfl
  | node d l' r' ihl ihr =>
    simp only [cells_node, ptrs_cons, ptrs_append, List.nodup_cons, List.nodup_append, List.mem_append, not_or] at hnd
    obtain ⟨_, hndl, hndr, hlr⟩ := hnd
    rw [subtreeAt] at hs
    rw [removeCell, replaceAt]
    by_cases hdq : d.1 = q
    · rw [if_pos hdq] at hs
      cases hs
      rw [if_pos hdq, if_pos hdq]
    rw [if_neg hdq] at hs
    rw [if_neg hdq, if_neg hdq]
    by_cases hl : q ∈ ptrs (cells l')
    · rw [if_pos hl] at hs
      have hr : q ∉ ptrs (cells r') := fun hm => hlr q hl q hm rfl
      rw [ihl hndl hs, removeCell_of_notMem hr, replaceAt_of_notMem hr]
    · rw [if_neg hl] at hs
      rw [ihr hndr hs, removeCell_of_notMem hl, replaceAt_of_notMem hl]

/-- a search does not see a change below which it ends the same -/
theorem descend_replaceAt {s : BinaryTree (ℕ × β)} (hnd : (ptrs (cells t)).Nodup) (hq : q ∈ ptrs (cells t))
    (hs : descend go s = descend go (subtreeAt q t)) : descend go (replaceAt q s t) = descend go t := by
  induction t with
  | nil => cases hq
  | node d l r ihl ihr =>
    simp only [cells_node, ptrs_cons, ptrs_append, List.nodup_cons, List.nodup_append, List.mem_append, not_or] at hnd
    obtain ⟨⟨hdl, hdr⟩, hndl, hndr, hlr⟩ := hnd
    by_cases hdq : d.1 = q
    · rw [subtreeAt, if_pos hdq] at hs
      rw [replaceAt, if_pos hdq, hs]
    rw [subtreeAt, if_neg hdq] at hs
    rw [replaceAt, if_neg hdq]
    by_cases hl : q ∈ ptrs (cells l)
    · rw [if_pos hl] at hs
      have hr : q ∉ ptrs (cells r) := fun hm => hlr q hl q hm rfl
      unfold descend
      rw [replaceAt_of_notMem hr, ihl hndl hl hs]
    · rw [if_neg hl] at hs
      have hr : q ∈ ptrs (cells r) := by
        simp only [cells_node, ptrs_cons, ptrs_append, List.mem_cons, List.mem_append] at hq
        exact (hq.resolve_left (Ne.symm hdq)).resolve_left hl
      unfold descend
      rw [replaceAt_of_notMem hl, ihr hndr hr hs]

end Lemmas

end Gubos.Core
