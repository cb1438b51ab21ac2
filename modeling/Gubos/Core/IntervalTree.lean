/-
Search trees of intervals.

Every node holds an interval, from `lo` up to `hi`. In a `Spread` tree what is left of a node ends at or before its start, and
what is right of it starts at or after its end. Intervals may be empty: an empty one divides the others like any other node,
and nothing tells on which side of it an interval is that starts where it is.

- `Spread.descend`: a search that goes left before and right after an interval ends at it, or stops at a node on the way that
  ends where the interval starts or before;
- `Spread.insertLeaf`: inserting an interval.
-/
import Gubos.Core.SearchTree

namespace Gubos.Core

variable {β : Type} {lo hi : β → ℕ} {go : β → Dir} {t : BinaryTree (ℕ × β)} {c : ℕ × β} {a : β} {p : ℕ}

/-- the intervals left of a node end before it, and those right of it start after it -/
def Spread (lo hi : β → ℕ) : BinaryTree (ℕ × β) → Prop
  | .nil => True
  | .node c l r =>
    (∀ d ∈ cells l, hi d.2 ≤ lo c.2) ∧ (∀ d ∈ cells r, hi c.2 ≤ lo d.2) ∧ Spread lo hi l ∧ Spread lo hi r

instance decSpread (lo hi : β → ℕ) : ∀ t, Decidable (Spread lo hi t)
  | .nil => .isTrue trivial
  | .node c l r =>
    haveI := decSpread lo hi l
    haveI := decSpread lo hi r
    inferInstanceAs (Decidable
      ((∀ d ∈ cells l, hi d.2 ≤ lo c.2) ∧ (∀ d ∈ cells r, hi c.2 ≤ lo d.2) ∧ Spread lo hi l ∧ Spread lo hi r))

theorem spread_iff : Spread lo hi t ↔ Sided (fun a b => hi a ≤ lo b) (fun a b => hi a ≤ lo b) t := by
  induction t with
  | nil => exact Iff.rfl
  | node c l r ihl ihr => simp only [Spread, Sided, ihl, ihr]

theorem spread_leaf (c : ℕ × β) : Spread lo hi (.node c .nil .nil) := spread_iff.2 (sided_leaf c)

/-- **Search.** -/
theorem Spread.descend (ht : Spread lo hi t) (hc : c ∈ cells t) (hstop : go c.2 = .stop)
    (hleft : ∀ d, hi c.2 ≤ lo d → go d = .left) (hright : ∀ d, hi d ≤ lo c.2 → go d ≠ .left) :
    ∃ d, descend go t = some d ∧ (d = c ∨ hi d.2 ≤ lo c.2) := by
  induction t with
  | nil => cases hc
  | node e l r ihl ihr =>
    obtain ⟨h1, h2, hl, hr⟩ := ht
    simp only [cells_node, List.mem_cons, List.mem_append] at hc
    unfold Core.descend
    rcases hc with rfl | hc | hc
    · rw [hstop]
      exact ⟨c, rfl, Or.inl rfl⟩
    · rw [hleft e.2 (h1 c hc)]
      exact ihl hl hc
    · have hle := h2 c hc
      have hne := hright e.2 hle
      cases hdir : go e.2 with
      | stop => exact ⟨e, rfl, Or.inr hle⟩
      | left => exact absurd hdir hne
      | right => exact ihr hr hc

/-- **Inserting an interval** that lies on the side of every node that the search takes. -/
theorem Spread.insertLeaf (ht : Spread lo hi t) (hleft : ∀ d ∈ cells t, go d.2 = .left → hi a ≤ lo d.2)
    (hright : ∀ d ∈ cells t, go d.2 ≠ .left → hi d.2 ≤ lo a) : Spread lo hi (insertLeaf go (p, a) t) :=
  spread_iff.2 ((spread_iff.1 ht).insertLeaf hleft hright)

end Gubos.Core
