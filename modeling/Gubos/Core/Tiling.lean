/-
Intervals of natural numbers that tile a range.

An interval is its start and its length. `cover l x` is the number of intervals of `l` that contain `x`: it does not depend
on the order of `l`, it adds up when lists are joined, and an interval cut in two counts the same. So an operation that
moves, cuts or joins intervals keeps the count by rewriting, and "exactly once" is a count of 1.

- `cover_perm`, `cover_cons`, `cover_append`, `hit_split`: how the count changes;
- `apart_of_mem`: where nothing is counted twice, distinct non-empty intervals are disjoint;
- `tiles_of_cover`: a count of 1 inside a range and 0 outside is a tiling of it.
-/
import Mathlib.Tactic

namespace Gubos.Core.Tiling

/-- `x` is in the interval that starts at `b.1` and has length `b.2` -/
def covers (x : ℕ) (b : ℕ × ℕ) : Bool := b.1 ≤ x ∧ x < b.1 + b.2

/-- 1 if the interval contains `x`, else 0 -/
def hit (b : ℕ × ℕ) (x : ℕ) : ℕ := if covers x b then 1 else 0

/-- how many intervals of the list contain `x` -/
def cover (l : List (ℕ × ℕ)) (x : ℕ) : ℕ := l.countP (covers x)

def Apart (b c : ℕ × ℕ) : Prop := b.1 + b.2 ≤ c.1 ∨ c.1 + c.2 ≤ b.1

/-- the intervals are pairwise disjoint, stay inside the range of `n` from `a` on, and leave no gap there -/
structure Tiles (l : List (ℕ × ℕ)) (a n : ℕ) : Prop where
  apart : l.Pairwise Apart
  inside : ∀ b ∈ l, a ≤ b.1 ∧ b.1 + b.2 ≤ a + n
  covered : ∀ x, a ≤ x → x < a + n → ∃ b ∈ l, b.1 ≤ x ∧ x < b.1 + b.2

variable {l l₁ l₂ : List (ℕ × ℕ)} {b c : ℕ × ℕ} {a n x : ℕ}

theorem Apart.symm (h : Apart b c) : Apart c b := Or.symm h

theorem covers_iff : covers x b = true ↔ b.1 ≤ x ∧ x < b.1 + b.2 := by
  unfold covers
  rw [decide_eq_true_eq]

theorem hit_eq : hit b x = if b.1 ≤ x ∧ x < b.1 + b.2 then 1 else 0 := by
  unfold hit
  simp only [covers_iff]

@[simp] theorem cover_nil : cover [] x = 0 := rfl

@[simp] theorem cover_cons : cover (b :: l) x = hit b x + cover l x := by
  unfold cover hit
  rw [List.countP_cons, Nat.add_comm]

@[simp] theorem cover_append : cover (l₁ ++ l₂) x = cover l₁ x + cover l₂ x := List.countP_append

theorem cover_perm (h : l₁.Perm l₂) : cover l₁ x = cover l₂ x := h.countP_eq _

/-- an interval cut in two -/
theorem hit_split (a m n x : ℕ) : hit (a, m + n) x = hit (a, m) x + hit (a + m, n) x := by
  simp only [hit_eq]
  split_ifs <;> omega

theorem hit_of_mem (h1 : b.1 ≤ x) (h2 : x < b.1 + b.2) : hit b x = 1 := by
  rw [hit_eq, if_pos ⟨h1, h2⟩]

theorem hit_le_one : hit b x ≤ 1 := by
  unfold hit
  split_ifs
  · exact le_rfl
  · exact Nat.zero_le 1

theorem hit_le_cover (h : b ∈ l) : hit b x ≤ cover l x := by
  rw [cover_perm (List.perm_cons_erase h), cover_cons]
  exact Nat.le_add_right _ _

/-- a point that is counted is in one of the intervals -/
theorem exists_of_cover (h : 0 < cover l x) : ∃ b ∈ l, b.1 ≤ x ∧ x < b.1 + b.2 := by
  obtain ⟨b, hb, hx⟩ := List.countP_pos_iff.1 h
  exact ⟨b, hb, covers_iff.1 hx⟩

/-- what a second interval adds to the count -/
theorem hit_add_hit_le (hb : b ∈ l) (hc : c ∈ l) (hne : b ≠ c) : hit b x + hit c x ≤ cover l x := by
  rw [cover_perm (List.perm_cons_erase hb), cover_cons]
  have h : c ∈ l.erase b := (List.mem_erase_of_ne hne.symm).2 hc
  have := hit_le_cover (x := x) h
  omega

theorem apart_of_hits (hb : 0 < b.2) (hc : 0 < c.2) (h : ∀ x, hit b x + hit c x ≤ 1) : Apart b c := by
  unfold Apart
  by_contra hn
  rw [not_or, Nat.not_le, Nat.not_le] at hn
  have h' := h (max b.1 c.1)
  rw [hit_of_mem (le_max_left _ _) (by omega), hit_of_mem (le_max_right _ _) (by omega)] at h'
  omega

/-- where nothing is counted twice, distinct intervals of the list are disjoint -/
theorem apart_of_mem (h : ∀ x, cover l x ≤ 1) (hb : b ∈ l) (hc : c ∈ l) (hne : b ≠ c) (hb0 : 0 < b.2) (hc0 : 0 < c.2) :
    Apart b c :=
  apart_of_hits hb0 hc0 fun x => (hit_add_hit_le hb hc hne).trans (h x)

theorem pairwise_apart (h : ∀ x, cover l x ≤ 1) (h0 : ∀ b ∈ l, 0 < b.2) : l.Pairwise Apart := by
  induction l with
  | nil => exact List.Pairwise.nil
  | cons b l ih =>
    refine List.pairwise_cons.2 ⟨fun c hc => ?_, ih (fun x => ?_) fun c hc => h0 c (List.mem_cons_of_mem _ hc)⟩
    · refine apart_of_hits (h0 b (by simp)) (h0 c (List.mem_cons_of_mem _ hc)) fun x => ?_
      have h1 := h x
      have h2 := hit_le_cover (x := x) hc
      rw [cover_cons] at h1
      omega
    · have h1 := h x
      rw [cover_cons] at h1
      omega

/-- an interval of the list lies where the count is not 0 -/
theorem inside_of_mem (h : ∀ x, 0 < cover l x → a ≤ x ∧ x < a + n) (hb : b ∈ l) (hb0 : 0 < b.2) :
    a ≤ b.1 ∧ b.1 + b.2 ≤ a + n := by
  have hpos : ∀ x, b.1 ≤ x → x < b.1 + b.2 → a ≤ x ∧ x < a + n := fun x h1 h2 => by
    refine h x ?_
    have := hit_le_cover (x := x) hb
    rw [hit_of_mem h1 h2] at this
    omega
  have h1 := hpos b.1 le_rfl (by omega)
  have h2 := hpos (b.1 + b.2 - 1) (by omega) (by omega)
  omega

/-- **Exactly once is a tiling.** -/
theorem tiles_of_cover (h0 : ∀ b ∈ l, 0 < b.2) (h : ∀ x, cover l x = if a ≤ x ∧ x < a + n then 1 else 0) :
    Tiles l a n where
  apart := pairwise_apart (fun x => by rw [h]; split_ifs <;> omega) h0
  inside := fun b hb => by
    refine inside_of_mem (fun x hx => ?_) hb (h0 b hb)
    by_contra hn
    rw [h, if_neg hn] at hx
    omega
  covered := fun x h1 h2 => exists_of_cover (by rw [h, if_pos ⟨h1, h2⟩]; omega)

end Gubos.Core.Tiling
