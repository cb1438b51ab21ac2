/-
Counting loops.

`forLoop cond body fuel i s` is `for (; cond(i); ++i) s = body(s, i)`, cut off after `fuel` rounds.

- `forLoop_eq`: a loop whose condition is a bound on the counter folds its body over the counters below the bound;
- `foldl_range_inv`: the invariant rule for such a fold, indexed by the number of rounds done;
- `foldlM_range_inv`: the same for a loop whose body can fail;
- `foldlM_range_congr`: two loops whose bodies agree wherever the invariant holds.
-/
import Gubos.Core.Run

namespace Gubos.Core

variable {σ ε : Type}

def forLoop (cond : ℕ → Bool) (body : σ → ℕ → σ) : ℕ → ℕ → σ → σ
  | 0, _, s => s
  | fuel + 1, i, s => if cond i then forLoop cond body fuel (i + 1) (body s i) else s

variable {cond : ℕ → Bool} {body : σ → ℕ → σ} {fuel n : ℕ}

theorem forLoop_from (hcond : ∀ i, cond i = true ↔ i < n) (s : σ) {i : ℕ} (hn : n ≤ i + fuel) :
    forLoop cond body fuel i s = (List.range' i (n - i)).foldl body s := by
  induction fuel generalizing i s with
  | zero =>
    rw [Nat.sub_eq_zero_of_le (show n ≤ i from hn)]
    rfl
  | succ fuel ih =>
    unfold forLoop
    by_cases hi : i < n
    · rw [if_pos ((hcond i).2 hi), ih (body s i) (by omega), show n - i = n - (i + 1) + 1 by omega, List.range'_succ,
        List.foldl_cons]
    · rw [if_neg fun hc => hi ((hcond i).1 hc), Nat.sub_eq_zero_of_le (not_lt.1 hi)]
      rfl

theorem forLoop_eq (hcond : ∀ i, cond i = true ↔ i < n) (hn : n ≤ fuel) (s : σ) :
    forLoop cond body fuel 0 s = (List.range n).foldl body s := by
  rw [forLoop_from hcond s (by omega), Nat.sub_zero, List.range_eq_range']

/-- **Invariant rule.** -/
theorem foldl_range_inv {P : ℕ → σ → Prop} {s : σ} (h0 : P 0 s) (hstep : ∀ i < n, ∀ s, P i s → P (i + 1) (body s i)) :
    P n ((List.range n).foldl body s) := by
  induction n with
  | zero => exact h0
  | succ n ih =>
    rw [List.range_succ, List.foldl_append, List.foldl_cons, List.foldl_nil]
    apply hstep n (Nat.lt_succ_self n)
    exact ih fun i hi => hstep i (Nat.lt_succ_of_lt hi)

/-- **Invariant rule**, for a body that can fail. -/
theorem foldlM_range_inv {P : ℕ → σ → Prop} {body : σ → ℕ → Except ε σ} {s s' : σ} (h0 : P 0 s)
    (hstep : ∀ i < n, ∀ s s', P i s → body s i = .ok s' → P (i + 1) s')
    (hok : (List.range n).foldlM body s = .ok s') : P n s' := by
  induction n generalizing s' with
  | zero =>
    cases hok
    exact h0
  | succ n ih =>
    rw [List.range_succ, List.foldlM_append] at hok
    obtain ⟨s₁, hok₁, hok⟩ := bind_ok.1 hok
    rw [List.foldlM_cons] at hok
    obtain ⟨s₂, hok₂, hok⟩ := bind_ok.1 hok
    cases hok
    apply hstep n (Nat.lt_succ_self n) s₁ s' _ hok₂
    exact ih (fun i hi => hstep i (Nat.lt_succ_of_lt hi)) hok₁

/-- two loops that agree, round by round, where the invariant of the first holds -/
theorem foldlM_range_congr {I : ℕ → σ → Prop} {f g : σ → ℕ → Except ε σ} {i : ℕ} {s : σ}
    (hround : ∀ j, i ≤ j → j < i + n → ∀ s, I j s → f s j = g s j)
    (hinv : ∀ j s s', I j s → f s j = .ok s' → I (j + 1) s') (hs : I i s) :
    (List.range' i n).foldlM f s = (List.range' i n).foldlM g s := by
  induction n generalizing i s with
  | zero => rfl
  | succ n ih =>
    rw [List.range'_succ, List.foldlM_cons, List.foldlM_cons, ← hround i le_rfl (by omega) s hs]
    cases hf : f s i with
    | error e => rfl
    | ok s' => exact ih (fun j h1 h2 => hround j (by omega) (by omega)) (hinv i s s' hs hf)

end Gubos.Core
