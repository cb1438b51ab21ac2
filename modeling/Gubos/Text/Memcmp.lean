/-
Comparing memory (`string/memcmp.c`).

`memcmp` returns the difference of the first two bytes that differ. It keeps the difference in a `char`, which is signed on the
i386 and has eight bits, so that a difference of 128 or more becomes negative and one below -128 positive.

- `memcmp_spec`: what `memcmp` returns, in terms of the first difference;
- `byteDifference_neg_iff`, `byteDifference_pos_iff`: the sign of a difference that is cut to a `char`;
- `memcmp_orders_iff`: the result has the sign of the lexicographic order of unsigned bytes if and only if the first difference
  is between -128 and 127; among arrays for which it is, the results are antisymmetric and transitive;
- `far_byte_is_smaller`: 0x80 comes out smaller than 0x00.
-/
import Gubos.Text.Strings

namespace Gubos.Text

open Gubos.Core

/-! ## The code -/

/-- `const char v = p1[i] - p2[i]`: the bytes are subtracted as `int`, and the result is cut to a signed `char` -/
def byteDifference (x y : UInt8) : Int8 := Int8.ofInt ((x.toNat : ℤ) - y.toNat)

/-- the loop of `memcmp`, from index `i` on -/
def memcmpLoop (p1 p2 : List UInt8) : ℕ → ℕ → Except Err ℤ
  | 0, _ => .ok 0
  | rounds + 1, i => do
    let x ← read p1 i
    let y ← read p2 i
    let v := byteDifference x y
    if v ≠ 0 then .ok v.toInt else memcmpLoop p1 p2 rounds (i + 1)

/-- `memcmp` -/
def memcmp (p1 p2 : List UInt8) (num : ℕ) : Except Err ℤ := memcmpLoop p1 p2 num 0

/-! ## The first difference -/

/-- the first two bytes that differ -/
def firstDifference : List UInt8 → List UInt8 → Option (UInt8 × UInt8)
  | x :: xs, y :: ys => if x = y then firstDifference xs ys else some (x, y)
  | _, _ => none

section Differences

variable {x y : UInt8} {xs ys : List UInt8}

theorem byteDifference_toInt (x y : UInt8) : (byteDifference x y).toInt = ((x.toNat : ℤ) - y.toNat).bmod 256 :=
  Int8.toInt_ofInt

theorem byteDifference_eq_zero_iff : byteDifference x y = 0 ↔ x = y := by
  have hx := x.toNat_lt
  have hy := y.toNat_lt
  have hzero : byteDifference x y = 0 ↔ (byteDifference x y).toInt = 0 := Int8.toInt_inj.symm
  rw [hzero, byteDifference_toInt, Int.bmod_def, ← UInt8.toNat_inj]
  split_ifs <;> omega

/-- a negative difference is one of a smaller byte, unless it was 128 or more -/
theorem byteDifference_neg_iff : (byteDifference x y).toInt < 0 ↔
    x < y ∧ y.toNat ≤ x.toNat + 128 ∨ y.toNat + 128 ≤ x.toNat := by
  have hx := x.toNat_lt
  have hy := y.toNat_lt
  rw [byteDifference_toInt, Int.bmod_def, UInt8.lt_iff_toNat_lt]
  split_ifs <;> omega

theorem byteDifference_pos_iff : 0 < (byteDifference x y).toInt ↔
    y < x ∧ x.toNat ≤ y.toNat + 127 ∨ x.toNat + 129 ≤ y.toNat := by
  have hx := x.toNat_lt
  have hy := y.toNat_lt
  rw [byteDifference_toInt, Int.bmod_def, UInt8.lt_iff_toNat_lt]
  split_ifs <;> omega

theorem firstDifference_none (hlen : xs.length = ys.length) : firstDifference xs ys = none ↔ xs = ys := by
  induction xs generalizing ys with
  | nil =>
    cases ys with
    | nil => exact iff_of_true rfl rfl
    | cons y ys => cases hlen
  | cons x xs ih =>
    cases ys with
    | nil => cases hlen
    | cons y ys =>
      unfold firstDifference
      split_ifs with hxy
      · rw [ih (Nat.succ.inj hlen), hxy, List.cons.injEq]
        exact (and_iff_right rfl).symm
      · exact iff_of_false (by simp) fun h => hxy (List.cons.inj h).1

/-- the first two bytes that differ decide the order -/
theorem firstDifference_some (h : firstDifference xs ys = some (x, y)) :
    x ≠ y ∧ (xs < ys ↔ x < y) ∧ (ys < xs ↔ y < x) := by
  induction xs generalizing ys with
  | nil => cases h
  | cons a xs ih =>
    cases ys with
    | nil => cases h
    | cons b ys =>
      unfold firstDifference at h
      rw [List.cons_lt_cons_iff, List.cons_lt_cons_iff]
      split_ifs at h with hab
      · obtain ⟨hne, hlt, hgt⟩ := ih h
        subst hab
        simp [hne, hlt, hgt]
      · cases h
        simp [hab, Ne.symm hab]

/-- what is compared from a common prefix on -/
theorem memcmpLoop_spec {pre : List UInt8} (hlen : xs.length = ys.length) :
    memcmpLoop (pre ++ xs) (pre ++ ys) xs.length pre.length =
      .ok (((firstDifference xs ys).map fun d => (byteDifference d.1 d.2).toInt).getD 0) := by
  induction xs generalizing ys pre with
  | nil =>
    cases ys with
    | nil => rfl
    | cons y ys => cases hlen
  | cons x xs ih =>
    cases ys with
    | nil => cases hlen
    | cons y ys =>
      rw [List.length_cons, memcmpLoop, read_append, ok_bind, read_append, ok_bind]
      dsimp only
      unfold firstDifference
      by_cases hxy : x = y
      · subst hxy
        have hsnoc : ∀ zs : List UInt8, pre ++ x :: zs = pre ++ [x] ++ zs := by simp
        have hnext := @ih ys (pre ++ [x]) (Nat.succ.inj hlen)
        rw [List.length_append, List.length_singleton] at hnext
        rw [if_neg (not_not.2 (byteDifference_eq_zero_iff.2 rfl)), if_pos rfl, hsnoc xs, hsnoc ys]
        exact hnext
      · rw [if_pos (byteDifference_eq_zero_iff.not.2 hxy), if_neg hxy]
        rfl

/-- **What `memcmp` returns.** -/
theorem memcmp_spec {num : ℕ} (hx : xs.length = num) (hy : ys.length = num) :
    memcmp xs ys num = .ok (((firstDifference xs ys).map fun d => (byteDifference d.1 d.2).toInt).getD 0) := by
  subst hx
  exact @memcmpLoop_spec xs ys [] hy.symm

end Differences

/-! ## The order -/

/-- the result has the sign of the lexicographic order of unsigned bytes -/
structure Orders (xs ys : List UInt8) (result : ℤ) : Prop where
  equal : result = 0 ↔ xs = ys
  smaller : result < 0 ↔ xs < ys
  larger : 0 < result ↔ ys < xs

/-- the first difference, if there is one, is between -128 and 127 -/
def NearFirst (xs ys : List UInt8) : Prop :=
  ∀ d ∈ firstDifference xs ys, d.2.toNat ≤ d.1.toNat + 128 ∧ d.1.toNat ≤ d.2.toNat + 127

instance (xs ys : List UInt8) : Decidable (NearFirst xs ys) :=
  match h : firstDifference xs ys with
  | none => .isTrue fun d hd => by rw [h] at hd; cases hd
  | some d => decidable_of_iff (d.2.toNat ≤ d.1.toNat + 128 ∧ d.1.toNat ≤ d.2.toNat + 127) <| by
      unfold NearFirst
      rw [h]
      simp

section Order

variable {x y : UInt8} {xs ys zs : List UInt8} {num : ℕ}

/-- equal arrays -/
theorem orders_self (xs : List UInt8) : Orders xs xs 0 :=
  ⟨iff_of_true rfl rfl, iff_of_false (lt_irrefl 0) (List.lt_irrefl xs), iff_of_false (lt_irrefl 0) (List.lt_irrefl xs)⟩

/-- a difference has the sign of the order exactly if it is kept when it is cut -/
theorem orders_difference (h : firstDifference xs ys = some (x, y)) :
    Orders xs ys (byteDifference x y).toInt ↔ y.toNat ≤ x.toNat + 128 ∧ x.toNat ≤ y.toNat + 127 := by
  obtain ⟨hne, hlt, hgt⟩ := firstDifference_some h
  have hneNat : x.toNat ≠ y.toNat := fun he => hne (UInt8.toNat_inj.1 he)
  constructor
  · rintro ⟨_, hsmaller, hlarger⟩
    rw [byteDifference_neg_iff, hlt, UInt8.lt_iff_toNat_lt] at hsmaller
    rw [byteDifference_pos_iff, hgt, UInt8.lt_iff_toNat_lt] at hlarger
    omega
  · rintro ⟨hbelow, habove⟩
    have hdiff : xs ≠ ys := by
      rintro rfl
      rw [(firstDifference_none rfl).2 rfl] at h
      cases h
    refine ⟨iff_of_false (fun h0 => ?_) hdiff, ?_, ?_⟩
    · exact hne (byteDifference_eq_zero_iff.1 (Int8.toInt_inj.1 h0))
    · rw [byteDifference_neg_iff, hlt, UInt8.lt_iff_toNat_lt]
      omega
    · rw [byteDifference_pos_iff, hgt, UInt8.lt_iff_toNat_lt]
      omega

/-- `memcmp` orders two arrays -/
def MemcmpOrders (xs ys : List UInt8) (num : ℕ) : Prop := ∃ result, memcmp xs ys num = .ok result ∧ Orders xs ys result

/-- `memcmp` says that the first array is smaller, or that it is larger -/
def MemcmpBelow (xs ys : List UInt8) (num : ℕ) : Prop := ∃ result, memcmp xs ys num = .ok result ∧ result < 0
def MemcmpAbove (xs ys : List UInt8) (num : ℕ) : Prop := ∃ result, memcmp xs ys num = .ok result ∧ 0 < result

theorem memcmpOrders_iff (hx : xs.length = num) (hy : ys.length = num) : MemcmpOrders xs ys num ↔ NearFirst xs ys := by
  unfold MemcmpOrders NearFirst
  rw [memcmp_spec hx hy]
  simp only [Except.ok.injEq, exists_eq_left']
  cases h : firstDifference xs ys with
  | none =>
    obtain rfl := (firstDifference_none (hx.trans hy.symm)).1 h
    exact iff_of_true (orders_self xs) fun d hd => by cases hd
  | some d =>
    refine (orders_difference h).trans ?_
    simp

theorem MemcmpOrders.below_iff (h : MemcmpOrders xs ys num) : MemcmpBelow xs ys num ↔ xs < ys := by
  obtain ⟨result, hok, horders⟩ := h
  unfold MemcmpBelow
  rw [hok, ← horders.smaller]
  simp

theorem MemcmpOrders.above_iff (h : MemcmpOrders xs ys num) : MemcmpAbove xs ys num ↔ ys < xs := by
  obtain ⟨result, hok, horders⟩ := h
  unfold MemcmpAbove
  rw [hok, ← horders.larger]
  simp

/-- **Comparing memory.** For all arrays of one length the result of `memcmp` orders them as unsigned bytes if and only if the
first difference is between -128 and 127. Among arrays whose first differences are, the results are antisymmetric and
transitive. -/
theorem memcmp_orders_iff (hx : xs.length = num) (hy : ys.length = num) (hz : zs.length = num) :
    (MemcmpOrders xs ys num ↔ NearFirst xs ys) ∧
    (NearFirst xs ys → NearFirst ys xs → (MemcmpBelow xs ys num ↔ MemcmpAbove ys xs num)) ∧
    (NearFirst xs ys → NearFirst ys zs → NearFirst xs zs →
      MemcmpBelow xs ys num → MemcmpBelow ys zs num → MemcmpBelow xs zs num) := by
  refine ⟨memcmpOrders_iff hx hy, fun hxy hyx => ?_, fun hxy hyz hxz hlt hlt' => ?_⟩
  · rw [((memcmpOrders_iff hx hy).2 hxy).below_iff, ((memcmpOrders_iff hy hx).2 hyx).above_iff]
  · rw [((memcmpOrders_iff hx hy).2 hxy).below_iff] at hlt
    rw [((memcmpOrders_iff hy hz).2 hyz).below_iff] at hlt'
    rw [((memcmpOrders_iff hx hz).2 hxz).below_iff]
    exact List.lt_trans hlt hlt'

end Order

/-- three arrays that differ in their second bytes, by 128 at most -/
theorem memcmp_orders_iff_second_byte :
    NearFirst [1, 0, 9] [1, 100, 9] ∧ MemcmpOrders [1, 0, 9] [1, 100, 9] 3 ∧
      (MemcmpBelow [1, 0, 9] [1, 100, 9] 3 → MemcmpBelow [1, 100, 9] [1, 128, 9] 3 → MemcmpBelow [1, 0, 9] [1, 128, 9] 3) := by
  have h := @memcmp_orders_iff [1, 0, 9] [1, 100, 9] [1, 128, 9] 3 rfl rfl rfl
  exact ⟨by decide, h.1.2 (by decide), h.2.2 (by decide) (by decide) (by decide)⟩

/-- **A byte that is 128 larger comes out smaller**, and the two are smaller than each other. -/
theorem far_byte_is_smaller :
    memcmp [0x80] [0x00] 1 = .ok (-128) ∧ memcmp [0x00] [0x80] 1 = .ok (-128) ∧ ([0x00] : List UInt8) < [0x80] ∧
      ¬ MemcmpOrders [0x80] [0x00] 1 := by
  have hfar : memcmp [0x80] [0x00] 1 = .ok (-128) := by decide
  refine ⟨hfar, by decide, by decide, ?_⟩
  rintro ⟨result, hok, horders⟩
  rw [hfar] at hok
  cases hok
  exact absurd (horders.smaller.1 (by decide)) (by decide)

end Gubos.Text
