/-
Search trees of values, without cells.

What a search, an insertion and a change of one record do to a tree of cells, they do to the tree of its contents; where the cells
are does not matter.

- `descend_value`, `insertLeaf_value`, `setCell_value`: the operations on cells, and those on contents.
-/
import Gubos.Core.TreeHeap

namespace Gubos.Core

variable {β : Type}

/-- the contents of the cells -/
def treeValue (t : BinaryTree (ℕ × β)) : BinaryTree β := t.map Prod.snd

/-- the record at which the search of a tree stops -/
def search (go : β → Dir) : BinaryTree β → Option β
  | .nil => none
  | .node b l r =>
    match go b with
    | .stop => some b
    | .left => search go l
    | .right => search go r

/-- a leaf where the search falls out of the tree -/
def insertValue (go : β → Dir) (a : β) : BinaryTree β → BinaryTree β
  | .nil => .node a .nil .nil
  | .node b l r =>
    match go b with
    | .left => .node b (insertValue go a l) r
    | _ => .node b l (insertValue go a r)

/-- the record at which the search stops is changed -/
def changeFound (go : β → Dir) (f : β → β) : BinaryTree β → BinaryTree β
  | .nil => .nil
  | .node b l r =>
    match go b with
    | .stop => .node (f b) l r
    | .left => .node b (changeFound go f l) r
    | .right => .node b l (changeFound go f r)

variable {go : β → Dir} {f : β → β} {c : ℕ × β} {t l r : BinaryTree (ℕ × β)} {q : ℕ} {b : β}

@[simp] theorem treeValue_nil : treeValue (.nil : BinaryTree (ℕ × β)) = .nil := rfl

@[simp] theorem treeValue_node : treeValue (.node c l r) = .node c.2 (treeValue l) (treeValue r) := rfl

theorem descend_value : search go (treeValue t) = (descend go t).map Prod.snd := by
  induction t with
  | nil => rfl
  | node c l r ihl ihr =>
    simp only [treeValue_node, search, descend]
    cases go c.2 with
    | stop => rfl
    | left => exact ihl
    | right => exact ihr

theorem insertLeaf_value : treeValue (insertLeaf go c t) = insertValue go c.2 (treeValue t) := by
  induction t with
  | nil => rfl
  | node d l r ihl ihr =>
    simp only [treeValue_node, insertLeaf, insertValue]
    cases go d.2 with
    | stop => simp [ihr]
    | left => simp [ihl]
    | right => simp [ihr]

/-- **A change of the cell found** is a change of the record found. -/
theorem setCell_value (hnd : (ptrs (cells t)).Nodup) (hfound : descend go t = some c) :
    treeValue (t.map (setCell c.1 (f c.2))) = changeFound go f (treeValue t) := by
  induction t with
  | nil => cases hfound
  | node d l r ihl ihr =>
    simp only [cells_node, ptrs_cons, ptrs_append, List.nodup_cons, List.mem_append, not_or] at hnd
    obtain ⟨⟨hdl, hdr⟩, hnd⟩ := hnd
    obtain ⟨hndl, hndr, hlr⟩ := List.nodup_append.1 hnd
    simp only [descend] at hfound
    simp only [BinaryTree.map, treeValue_node, changeFound]
    cases hgo : go d.2 with
    | stop =>
      rw [hgo] at hfound
      cases hfound
      rw [setCell, if_pos rfl, map_setCell_of_notMem hdl, map_setCell_of_notMem hdr]
    | left =>
      rw [hgo] at hfound
      have hc := mem_ptrs (descend_some hfound).1
      have hd : d.1 ≠ c.1 := fun he => hdl (he ▸ hc)
      rw [setCell, if_neg hd, ihl hndl hfound, map_setCell_of_notMem fun hm => hlr _ hc _ hm rfl]
    | right =>
      rw [hgo] at hfound
      have hc := mem_ptrs (descend_some hfound).1
      have hd : d.1 ≠ c.1 := fun he => hdr (he ▸ hc)
      rw [setCell, if_neg hd, ihr hndr hfound, map_setCell_of_notMem fun hm => hlr _ hm _ hc rfl]

end Gubos.Core
