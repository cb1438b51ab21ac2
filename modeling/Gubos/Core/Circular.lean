/-
Buffers that are written round and round.

A `Circular` buffer of `N` cells has a position; an item is written there, and the position goes on by one and back to the first
cell after the last. Nothing is read from it here, so it keeps the latest `N` items of all that were written.

- `foldl_push`: after any list of items, where the position is and where each of the latest `N` items is.
-/
import Mathlib.Tactic

namespace Gubos.Core

/-- the position of the next item, and the cells -/
structure Circular (α : Type) where
  pos : ℕ
  buf : ℕ → α

namespace Circular

variable {α : Type} {N : ℕ}

/-- one item is written -/
def push (N : ℕ) (c : Circular α) (a : α) : Circular α := ⟨(c.pos + 1) % N, Function.update c.buf c.pos a⟩

/-- **The latest items.** -/
theorem foldl_push (buf : ℕ → α) (l : List α) :
    (l.foldl (push N) ⟨0, buf⟩).pos = l.length % N ∧
      ∀ j a, l[j]? = some a → l.length ≤ j + N → (l.foldl (push N) ⟨0, buf⟩).buf (j % N) = a := by
  induction l using List.reverseRecOn with
  | nil => exact ⟨(Nat.zero_mod N).symm, fun j a hj => by simp at hj⟩
  | append_singleton l b ih =>
    obtain ⟨hpos, hbuf⟩ := ih
    rw [List.foldl_append, List.foldl_cons, List.foldl_nil, List.length_append, List.length_singleton]
    set c := l.foldl (push N) ⟨0, buf⟩ with hc
    refine ⟨?_, fun j a hj hlate => ?_⟩
    · change (c.pos + 1) % N = (l.length + 1) % N
      rw [hpos, Nat.mod_add_mod]
    · change Function.update c.buf c.pos b (j % N) = a
      rw [hpos]
      have hlt : j < (l ++ [b]).length := (List.getElem?_eq_some_iff.1 hj).1
      rw [List.length_append, List.length_singleton] at hlt
      by_cases hlast : j = l.length
      · subst hlast
        rw [List.getElem?_append_right le_rfl, Nat.sub_self, List.getElem?_cons_zero] at hj
        rw [Function.update_self]
        exact Option.some.inj hj
      · -- an older item is in another cell: it is fewer than `N` items back
        have hne : j % N ≠ l.length % N := by
          intro he
          have hmod : (l.length - j) % N = 0 := Nat.sub_mod_eq_zero_of_mod_eq he.symm
          have hpos' : 0 < l.length - j := by omega
          have hsmall : l.length - j < N := by omega
          rw [Nat.mod_eq_of_lt hsmall] at hmod
          omega
        rw [List.getElem?_append_left (by omega)] at hj
        rw [Function.update_of_ne hne]
        exact hbuf j a hj (by omega)

end Circular

end Gubos.Core
