/-
Digits by truncated division.

The loop `while (v) { … v % b …; v /= b; }` of a language whose division rounds towards zero gives the digits of `v`, the least
significant first, each with the sign of `v`. `tdigits b v` is that sequence.

- `tdigits_step`: one round of the loop;
- `tdigits_length_le`: how many digits there are;
- `tdigits_natCast`, `tdigits_neg`: the digits of a natural number and of a negated one.
-/
import Mathlib.Data.Nat.Digits.Lemmas
import Mathlib.Tactic

namespace Gubos.Core

def tdigits (b : ℕ) (v : ℤ) : List ℤ := (b.digits v.natAbs).map fun d : ℕ => v.sign * (d : ℤ)

variable {b : ℕ} {v : ℤ}

@[simp] theorem tdigits_zero (b : ℕ) : tdigits b 0 = [] := by simp [tdigits]

theorem tdigits_natCast (b n : ℕ) : tdigits b n = (b.digits n).map fun d : ℕ => (d : ℤ) := by
  cases n with
  | zero => simp
  | succ n =>
    unfold tdigits
    rw [Int.sign_eq_one_of_pos (by omega), Int.natAbs_natCast]
    simp

theorem tdigits_neg (b : ℕ) (v : ℤ) : tdigits b (-v) = (tdigits b v).map fun d => -d := by
  unfold tdigits
  rw [Int.natAbs_neg, Int.sign_neg, List.map_map]
  simp [Function.comp_def]

/-- **One round.** -/
theorem tdigits_step (hb : 2 ≤ b) (hv : v ≠ 0) : tdigits b v = v.tmod b :: tdigits b (v.tdiv b) := by
  have hnat : ∀ n : ℕ, n ≠ 0 → tdigits b n = (n : ℤ).tmod b :: tdigits b ((n : ℤ).tdiv b) := by
    intro n hn
    rw [tdigits_natCast, Nat.digits_of_two_le_of_pos hb (Nat.pos_of_ne_zero hn), List.map_cons, ← Int.ofNat_tdiv,
      ← Int.ofNat_tmod, tdigits_natCast]
  obtain ⟨n, rfl | rfl⟩ := v.eq_nat_or_neg
  · exact hnat n (by omega)
  · rw [tdigits_neg, hnat n (by omega), Int.neg_tmod, Int.neg_tdiv, tdigits_neg, List.map_cons]

theorem tdigits_length_le {k : ℕ} (hb : 2 ≤ b) : (tdigits b v).length ≤ k ↔ v.natAbs < b ^ k := by
  unfold tdigits
  rw [List.length_map]
  exact Nat.digits_length_le_iff hb _

/-- a digit is smaller than the base -/
theorem tdigits_lt (hb : 2 ≤ b) {d : ℤ} (hd : d ∈ tdigits b v) : d.natAbs < b := by
  obtain ⟨n, hn, rfl⟩ := List.mem_map.1 hd
  have hsign : v.sign.natAbs ≤ 1 := by rcases Int.sign_trichotomy v with h | h | h <;> simp [h]
  calc (v.sign * (n : ℤ)).natAbs = v.sign.natAbs * n := by rw [Int.natAbs_mul, Int.natAbs_natCast]
    _ ≤ 1 * n := Nat.mul_le_mul_right n hsign
    _ = n := Nat.one_mul n
    _ < b := Nat.digits_lt_base hb hn

end Gubos.Core
