/-
Text that is written row by row, and the window on its last rows.

A text is its finished rows and the current one. Writing an item makes the row longer, and the row is finished when it has
`w` items; a new row may also be started at any time. A screen of height `h` shows the last `h` rows from the top.

- `window_newRow`, `window_newRow_scroll`: a new row leaves the window, or moves it up by one row;
- `window_put_self`, `window_put_ne`: an item appears at the end of the last row shown, and nothing else changes.
-/
import Mathlib.Tactic

namespace Gubos.Core

variable {α : Type}

structure Text (α : Type) where
  finished : List (List α)
  current : List α
deriving DecidableEq, Repr

namespace Text

def empty : Text α := ⟨[], []⟩

/-- all rows, the current one last -/
def rows (t : Text α) : List (List α) := t.finished ++ [t.current]

def newRow (t : Text α) : Text α := ⟨t.finished ++ [t.current], []⟩

/-- an item at the end of the current row, which is finished at width `w` -/
def put (w : ℕ) (t : Text α) (a : α) : Text α :=
  let t : Text α := ⟨t.finished, t.current ++ [a]⟩
  if t.current.length = w then t.newRow else t

theorem length_rows (t : Text α) : t.rows.length = t.finished.length + 1 := List.length_append

end Text

/-- what a screen of height `h` shows at row `y` and column `x`, if anything -/
def window (h : ℕ) (rows : List (List α)) (y x : ℕ) : Option α := (rows.drop (rows.length - h))[y]?.bind (·[x]?)

variable {h y x : ℕ} {rows : List (List α)}

theorem window_eq : window h rows y x = rows[rows.length - h + y]?.bind (·[x]?) := by
  unfold window
  rw [List.getElem?_drop]

/-- there was room for one more row -/
theorem window_newRow (hlt : rows.length < h) : window h (rows ++ [[]]) y x = window h rows y x := by
  have h1 : (rows ++ [[]]).length - h = 0 := by
    rw [List.length_append, List.length_singleton]
    omega
  have h2 : rows.length - h = 0 := by omega
  rw [window_eq, window_eq, h1, h2, Nat.zero_add]
  by_cases hy : y < rows.length
  · rw [List.getElem?_append_left hy]
  · -- the new row is empty, and before there was none
    have hnone : rows[y]? = none := List.getElem?_eq_none (not_lt.1 hy)
    rw [List.getElem?_append_right (not_lt.1 hy), hnone, Option.bind_none]
    cases y - rows.length with
    | zero => rfl
    | succ k => rfl

/-- the window is full: the rows move up by one -/
theorem window_newRow_scroll (hge : h ≤ rows.length) (hy : y + 1 < h) :
    window h (rows ++ [[]]) y x = window h rows (y + 1) x := by
  have h1 : (rows ++ [[]]).length - h + y = rows.length - h + (y + 1) := by
    rw [List.length_append, List.length_singleton]
    omega
  rw [window_eq, window_eq, h1, List.getElem?_append_left (by omega)]

/-- and the last row is empty -/
theorem window_newRow_last (hge : h ≤ rows.length) (hy : y + 1 = h) : window h (rows ++ [[]]) y x = none := by
  have h1 : (rows ++ [[]]).length - h + y = rows.length := by
    rw [List.length_append, List.length_singleton]
    omega
  rw [window_eq, h1, List.getElem?_append_right le_rfl, Nat.sub_self]
  rfl

section Put

variable {finished : List (List α)} {current : List α} (a : α)

/-- the row of the window that the last row is shown in -/
theorem window_put_self (hy : y + 1 = min (finished.length + 1) h) :
    window h (finished ++ [current ++ [a]]) y current.length = some a := by
  have h1 : (finished ++ [current ++ [a]]).length - h + y = finished.length := by
    rw [List.length_append, List.length_singleton]
    omega
  rw [window_eq, h1, List.getElem?_append_right le_rfl, Nat.sub_self]
  exact List.getElem?_concat_length

theorem window_put_ne (hne : y + 1 ≠ min (finished.length + 1) h ∨ x ≠ current.length) (hy : y < h) :
    window h (finished ++ [current ++ [a]]) y x = window h (finished ++ [current]) y x := by
  have h1 : (finished ++ [current ++ [a]]).length = finished.length + 1 := List.length_append
  have h2 : (finished ++ [current]).length = finished.length + 1 := List.length_append
  rw [window_eq, window_eq, h1, h2]
  rcases lt_trichotomy (finished.length + 1 - h + y) finished.length with hlt | heq | hgt
  · rw [List.getElem?_append_left hlt, List.getElem?_append_left hlt]
  · -- the last row: another column
    have hx : x ≠ current.length := by
      rcases hne with hne | hx
      · omega
      · exact hx
    rw [heq, List.getElem?_append_right le_rfl, List.getElem?_append_right le_rfl, Nat.sub_self]
    change (current ++ [a])[x]? = current[x]?
    rcases Nat.lt_or_gt_of_ne hx with hx | hx
    · rw [List.getElem?_append_left hx]
    · rw [List.getElem?_eq_none (by rw [List.length_append, List.length_singleton]; omega),
        List.getElem?_eq_none (by omega)]
  · rw [List.getElem?_eq_none (by rw [h1]; omega), List.getElem?_eq_none (by rw [h2]; omega)]

end Put

end Gubos.Core
