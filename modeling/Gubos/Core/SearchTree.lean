/-
Search trees, and the sequence of their cells.

In a `Sided` tree every node is in a relation to what is left of it and in one to what is right of it. In a search tree by a key
what is left of a node has a smaller key, and what is right of it has not: equal keys go to the right.

- `inOrder`: the cells from left to right;
- `inOrder_removeCell`: a cell is taken out of the sequence, and nothing else;
- `Sided.insertLeaf`, `Sided.removeCell`: the relations are kept, if the node that is taken out passes them on;
- `SearchTree.insertLeaf`, `SearchTree.removeCell`: so the order is.
-/
import Gubos.Core.TreeHeap

namespace Gubos.Core

variable {β κ : Type} [Preorder κ] {before after : β → β → Prop} {key : β → κ} {go : β → Dir}
  {t l r : BinaryTree (ℕ × β)} {c : ℕ × β} {a : β} {p q : ℕ}

/-- the nodes of a tree, each between its subtrees -/
def inOrder : BinaryTree (ℕ × β) → List (ℕ × β)
  | .nil => []
  | .node c l r => inOrder l ++ c :: inOrder r

/-- what is left of a node is before it, and it is before what is right of it -/
def Sided (before after : β → β → Prop) : BinaryTree (ℕ × β) → Prop
  | .nil => True
  | .node c l r =>
    (∀ d ∈ cells l, before d.2 c.2) ∧ (∀ d ∈ cells r, after c.2 d.2) ∧ Sided before after l ∧ Sided before after r

instance decSided (before after : β → β → Prop) [DecidableRel before] [DecidableRel after] :
    ∀ t, Decidable (Sided before after t)
  | .nil => .isTrue trivial
  | .node c l r =>
    haveI := decSided before after l
    haveI := decSided before after r
    inferInstanceAs (Decidable
      ((∀ d ∈ cells l, before d.2 c.2) ∧ (∀ d ∈ cells r, after c.2 d.2) ∧ Sided before after l ∧ Sided before after r))

/-- keys left of a node are smaller, and those right of it are not -/
def SearchTree (key : β → κ) (t : BinaryTree (ℕ × β)) : Prop := Sided (fun a b => key a < key b) (fun a b => key a ≤ key b) t

instance [DecidableLT κ] [DecidableLE κ] (key : β → κ) (t : BinaryTree (ℕ × β)) : Decidable (SearchTree key t) :=
  decSided _ _ t

/-! ## The sequence -/

theorem inOrder_hangRight (r l : BinaryTree (ℕ × β)) : inOrder (hangRight r l) = inOrder l ++ inOrder r := by
  induction l with
  | nil => rfl
  | node c a b _ ihb => simp only [hangRight, inOrder, ihb, List.append_assoc, List.cons_append]

/-- **Taking out a cell.** The cells before it and after it stay where they are. -/
theorem inOrder_removeCell (hnd : (ptrs (cells t)).Nodup) (hc : c ∈ cells t) :
    ∃ before after, inOrder t = before ++ c :: after ∧ inOrder (removeCell c.1 t) = before ++ after := by
  induction t with
  | nil => cases hc
  | node d l r ihl ihr =>
    simp only [cells_node, ptrs_cons, ptrs_append, List.nodup_cons, List.nodup_append, List.mem_append, not_or] at hnd
    obtain ⟨⟨hdl, hdr⟩, hndl, hndr, hlr⟩ := hnd
    simp only [cells_node, List.mem_cons, List.mem_append] at hc
    rcases hc with rfl | hc | hc
    · refine ⟨inOrder l, inOrder r, rfl, ?_⟩
      rw [removeCell, if_pos rfl]
      exact inOrder_hangRight r l
    · obtain ⟨before, after, hseq, hrem⟩ := ihl hndl hc
      have hne : d.1 ≠ c.1 := fun e => hdl (e ▸ mem_ptrs hc)
      have hr : c.1 ∉ ptrs (cells r) := fun hm => hlr _ (mem_ptrs hc) _ hm rfl
      refine ⟨before, after ++ d :: inOrder r, ?_, ?_⟩
      · simp only [inOrder, hseq, List.append_assoc, List.cons_append]
      · rw [removeCell, if_neg hne, removeCell_of_notMem hr]
        simp only [inOrder, hrem, List.append_assoc]
    · obtain ⟨before, after, hseq, hrem⟩ := ihr hndr hc
      have hne : d.1 ≠ c.1 := fun e => hdr (e ▸ mem_ptrs hc)
      have hl : c.1 ∉ ptrs (cells l) := fun hm => hlr _ hm _ (mem_ptrs hc) rfl
      refine ⟨inOrder l ++ d :: before, after, ?_, ?_⟩
      · simp only [inOrder, hseq, List.append_assoc, List.cons_append]
      · rw [removeCell, if_neg hne, removeCell_of_notMem hl]
        simp only [inOrder, hrem, List.append_assoc, List.cons_append]

/-! ## The order -/

theorem sided_leaf (c : ℕ × β) : Sided before after (.node c .nil .nil) :=
  ⟨fun _ hd => absurd hd List.not_mem_nil, fun _ hd => absurd hd List.not_mem_nil, trivial, trivial⟩

/-- **A leaf** on the side of every node that the search takes. -/
theorem Sided.insertLeaf (ht : Sided before after t) (hleft : ∀ d ∈ cells t, go d.2 = .left → before a d.2)
    (hright : ∀ d ∈ cells t, go d.2 ≠ .left → after d.2 a) : Sided before after (insertLeaf go (p, a) t) := by
  induction t with
  | nil => exact sided_leaf _
  | node e l r ihl ihr =>
    obtain ⟨h1, h2, hl, hr⟩ := ht
    simp only [cells_node, List.mem_cons, List.mem_append] at hleft hright
    have hmem : ∀ {s : BinaryTree (ℕ × β)} {d}, d ∈ cells (Core.insertLeaf go (p, a) s) → d = (p, a) ∨ d ∈ cells s :=
      fun hd => List.mem_cons.1 ((cells_insertLeaf _ _ _).mem_iff.1 hd)
    have hl' := ihl hl (fun d hd => hleft d (Or.inr (Or.inl hd))) fun d hd => hright d (Or.inr (Or.inl hd))
    have hr' := ihr hr (fun d hd => hleft d (Or.inr (Or.inr hd))) fun d hd => hright d (Or.inr (Or.inr hd))
    have hgoRight : go e.2 ≠ .left → Sided before after (.node e l (Core.insertLeaf go (p, a) r)) := by
      intro hdir
      refine ⟨h1, fun d hd => ?_, hl, hr'⟩
      rcases hmem hd with rfl | hd
      · exact hright e (Or.inl rfl) hdir
      · exact h2 d hd
    unfold Core.insertLeaf
    cases hdir : go e.2 with
    | stop => exact hgoRight (by rw [hdir]; decide)
    | right => exact hgoRight (by rw [hdir]; decide)
    | left =>
      refine ⟨fun d hd => ?_, h2, hl', hr⟩
      rcases hmem hd with rfl | hd
      · exact hleft e (Or.inl rfl) hdir
      · exact h1 d hd

theorem Sided.hangRight (hl : Sided before after l) (hr : Sided before after r)
    (h : ∀ c ∈ cells l, ∀ d ∈ cells r, after c.2 d.2) : Sided before after (hangRight r l) := by
  induction l with
  | nil => exact hr
  | node e l₁ l₂ _ ih =>
    obtain ⟨h1, h2, hl₁, hl₂⟩ := hl
    simp only [cells_node, List.mem_cons, List.mem_append] at h
    refine ⟨h1, fun d hd => ?_, hl₁, ih hl₂ fun c hc => h c (Or.inr (Or.inr hc))⟩
    rcases List.mem_append.1 ((cells_hangRight r l₂).mem_iff.1 hd) with hd | hd
    · exact h2 d hd
    · exact h e (Or.inl rfl) d hd

/-- **A node is taken out** that is between what is left and what is right of it. -/
theorem Sided.removeCell (ht : Sided before after t)
    (hbetween : ∀ e ∈ cells t, ∀ a b, before a e.2 → after e.2 b → after a b) : Sided before after (removeCell q t) := by
  induction t with
  | nil => trivial
  | node e l r ihl ihr =>
    obtain ⟨h1, h2, hl, hr⟩ := ht
    simp only [cells_node, List.mem_cons, List.mem_append] at hbetween
    unfold Core.removeCell
    split_ifs
    · exact hl.hangRight hr fun c hc d hd => hbetween e (Or.inl rfl) c.2 d.2 (h1 c hc) (h2 d hd)
    · exact ⟨fun d hd => h1 d (mem_cells_removeCell hd), fun d hd => h2 d (mem_cells_removeCell hd),
        ihl hl fun c hc => hbetween c (Or.inr (Or.inl hc)), ihr hr fun c hc => hbetween c (Or.inr (Or.inr hc))⟩

/-! ## Keys -/

theorem searchTree_leaf (c : ℕ × β) : SearchTree key (.node c .nil .nil) := sided_leaf c

/-- **Inserting a key** on the side of every node that the search takes. -/
theorem SearchTree.insertLeaf (ht : SearchTree key t) (hleft : ∀ d, go d = .left → key a < key d)
    (hright : ∀ d, go d ≠ .left → key d ≤ key a) : SearchTree key (insertLeaf go (p, a) t) :=
  Sided.insertLeaf ht (fun d _ => hleft d.2) fun d _ => hright d.2

/-- **Taking out a key.** -/
theorem SearchTree.removeCell (ht : SearchTree key t) : SearchTree key (removeCell q t) := by
  refine Sided.removeCell ht fun e _ a b hae heb => ?_
  calc key a ≤ key e.2 := hae.le
    _ ≤ key b := heb

end Gubos.Core
