/-
Canonical numbers (`itoa.c`, `strupper` in `string/string.c`).

The text of a number should be its numeral: no leading zeros, the most significant digit first, and a value that is the number
again when it is read back. A string is what is in a buffer before the first NUL.

- `itoa_canonical_iff`: so it is for `itoa`, with a sign, except for the least `long long`. Its negation is itself, and digits that
  are negative give characters below '0' (`least_value_garbled`);
- `uitoa_canonical_iff`: `uitoa` leaves the digits in reverse, so it is so only for numbers that read the same from both ends, and
  then the text is that of `itoa` (`twelve_reversed`);
- `uitoaHex_canonical`: so it is for `uitoa_hex`, in at most 16 characters, and for the upper case of its text.

Premise: the buffer has more than 20 bytes, for `uitoa_hex` more than 16. `vprintk` passes one of 256.
-/
import Gubos.Core.Numeral
import Gubos.Text.Itoa

namespace Gubos.Text

open Gubos.Core

/-! ## Alphabets -/

def decimal : List UInt8 := ['0', '1', '2', '3', '4', '5', '6', '7', '8', '9'].map chr

def lowerHex : List UInt8 := decimal ++ ['a', 'b', 'c', 'd', 'e', 'f'].map chr

def upperHex : List UInt8 := decimal ++ ['A', 'B', 'C', 'D', 'E', 'F'].map chr

/-- the numeral of a signed number: a '-' in front exactly if the number is negative -/
def SignedNumeral (text : List UInt8) (v : ℤ) : Prop :=
  ∃ digits, Numeral decimal digits v.natAbs ∧ text = if v < 0 then chr '-' :: digits else digits

/-! ## Strings -/

/-- the string at the start of a buffer -/
structure IsString (buf text : List UInt8) : Prop where
  no_nul : 0 ∉ text
  start : ∃ rest, buf = text ++ 0 :: rest

/-- the computation returns, with a string in its buffer -/
def Leaves (result : Except Err (List UInt8)) (text : List UInt8) : Prop := ∃ buf, result = .ok buf ∧ IsString buf text

section Strings

variable {buf text text' room : List UInt8} {result : Except Err (List UInt8)} {value : BitVec 64}

theorem IsString.eq_takeWhile (h : IsString buf text) : text = buf.takeWhile (· ≠ 0) := by
  obtain ⟨hnul, rest, rfl⟩ := h
  have hall : ∀ c ∈ text, decide (c ≠ 0) = true := fun c hc => decide_eq_true fun h0 => hnul (h0 ▸ hc)
  rw [List.takeWhile_append_of_pos hall]
  simp

/-- a buffer has one string -/
theorem Leaves.unique (h : Leaves result text) (h' : Leaves result text') : text = text' := by
  obtain ⟨buf, rfl, hs⟩ := h
  obtain ⟨buf', hok, hs'⟩ := h'
  cases hok
  rw [hs.eq_takeWhile, hs'.eq_takeWhile]

theorem isString_withText (h : 0 ∉ text) : IsString (withText text room) text := ⟨h, _, rfl⟩

theorem itoa_leaves (hroom : 20 < room.length) : Leaves (itoa value room) (itoaText value) :=
  ⟨_, itoa_spec hroom, isString_withText (itoaText_fits value).1⟩

theorem uitoa_leaves (hroom : 20 < room.length) : Leaves (uitoa value room) (uitoaText value) :=
  ⟨_, uitoa_spec hroom, isString_withText (uitoaText_fits value).1⟩

end Strings

/-! ## Digits -/

/-- the digits of a natural number, the least significant first, as characters -/
theorem valueText_digits {char : ℤ → UInt8} (hzero : char 0 = chr '0') (base n : ℕ) :
    valueText char base n = (numeralDigits base n).map fun d : ℕ => char d := by
  rw [valueText_natCast]
  unfold numeralDigits
  split_ifs
  · rw [List.map_singleton, Nat.cast_zero, hzero]
  · rfl

/-- decimal digits, the least significant first, are a numeral in reading order -/
theorem decimal_iff {digits : List ℕ} {n : ℕ} (hlt : ∀ d ∈ digits, d < 10) :
    Numeral decimal (digits.map fun d : ℕ => digitChar d).reverse n ↔ digits = numeralDigits 10 n := by
  have hchar : ∀ d < 10, digitChar (d : ℕ) ∈ decimal ∧ decimal.idxOf (digitChar (d : ℕ)) = d := by decide
  exact @numeral_map_iff _ _ decimal n (fun d : ℕ => digitChar d) digits (by decide) hchar hlt

theorem decimal_numeral (n : ℕ) : Numeral decimal (valueText digitChar 10 n).reverse n := by
  rw [valueText_digits rfl, decimal_iff (numeralDigits_lt (by decide))]

/-! ## Signed numbers -/

section Signed

variable {value : BitVec 64} {room : List UInt8}

/-- the negation of every other value is its absolute value -/
theorem neg_toInt_of_ne (hne : value ≠ BitVec.intMin 64) : (-value).toInt = -value.toInt := by
  have hlt := @BitVec.toInt_lt 64 value
  have hge := @BitVec.le_toInt 64 value
  have hmin : value.toInt ≠ -2 ^ 63 := fun h => hne (BitVec.eq_of_toInt_eq (h.trans (by decide)))
  norm_num at hlt hge hmin
  rw [BitVec.toInt_neg]
  refine Int.bmod_eq_of_le ?_ ?_ <;> norm_num <;> omega

theorem itoaText_canonical (hne : value ≠ BitVec.intMin 64) : SignedNumeral (itoaText value) value.toInt := by
  unfold itoaText
  split_ifs with hneg
  · have habs : (-value).toInt = (value.toInt.natAbs : ℤ) := by
      rw [neg_toInt_of_ne hne]
      omega
    refine ⟨_, decimal_numeral value.toInt.natAbs, ?_⟩
    rw [if_pos hneg, habs]
  · have habs : value.toInt = (value.toInt.natAbs : ℤ) := by omega
    refine ⟨_, decimal_numeral value.toInt.natAbs, ?_⟩
    rw [if_neg hneg, ← habs]

/-- the last digit of the least value is -8, which gives a '(' -/
theorem least_digit : chr '(' ∈ valueText digitChar 10 (-BitVec.intMin 64).toInt := by
  have hzero : (-BitVec.intMin 64).toInt ≠ 0 := by decide
  have hchar : digitChar ((-BitVec.intMin 64).toInt.tmod (10 : ℕ)) = chr '(' := by decide
  unfold valueText
  rw [if_neg hzero, tdigits_step (by decide) hzero, List.map_cons, hchar]
  exact List.mem_cons_self

theorem itoaText_least : ¬ SignedNumeral (itoaText (BitVec.intMin 64)) (BitVec.intMin 64).toInt := by
  rintro ⟨digits, hnum, htext⟩
  have hneg : (BitVec.intMin 64).toInt < 0 := by decide
  unfold itoaText at htext
  rw [if_pos hneg, if_pos hneg, List.cons.injEq] at htext
  have hmem : chr '(' ∈ decimal := by
    apply hnum.chars
    rw [← htext.2, List.mem_reverse]
    exact least_digit
  exact absurd hmem (by decide)

/-- **Signed numbers.** For every 64-bit value the text of `itoa` is its canonical numeral, if and only if the value is not the
least one. -/
theorem itoa_canonical_iff (hroom : 20 < room.length) :
    (∃ text, Leaves (itoa value room) text ∧ SignedNumeral text value.toInt) ↔ value ≠ BitVec.intMin 64 := by
  constructor
  · rintro ⟨text, hleaves, hnum⟩ rfl
    rw [hleaves.unique (itoa_leaves hroom)] at hnum
    exact itoaText_least hnum
  · intro hne
    exact ⟨_, itoa_leaves hroom, itoaText_canonical hne⟩

end Signed

/-- the largest `long long`, and its negation -/
theorem itoa_canonical_iff_largest :
    (∃ text, Leaves (itoa (BitVec.intMax 64) (List.replicate 21 7)) text ∧ SignedNumeral text (2 ^ 63 - 1)) ∧
      ∃ text, Leaves (itoa (-BitVec.intMax 64) (List.replicate 21 7)) text ∧ SignedNumeral text (-(2 ^ 63 - 1)) :=
  ⟨(itoa_canonical_iff (by decide)).2 (by decide), (itoa_canonical_iff (by decide)).2 (by decide)⟩

/-- **The least `long long`** comes out as `-'..--).0-*(+,))+(0(`. -/
theorem least_value_garbled :
    itoa (BitVec.intMin 64) (List.replicate 21 7) =
      .ok (['-', '\'', '.', '.', '-', '-', ')', '.', '0', '-', '*', '(', '+', ',', ')', ')', '+', '(', '0', '('].map chr ++ [0]) ∧
    ¬ ∃ text, Leaves (itoa (BitVec.intMin 64) (List.replicate 21 7)) text ∧ SignedNumeral text (BitVec.intMin 64).toInt := by
  refine ⟨by decide +kernel, ?_⟩
  rintro ⟨text, hleaves, hnum⟩
  rw [hleaves.unique (itoa_leaves (by decide))] at hnum
  exact itoaText_least hnum

/-! ## Unsigned numbers -/

section Unsigned

variable {value : BitVec 64} {room room' : List UInt8}

theorem numeralDigits_palindrome_iff (b n : ℕ) :
    (numeralDigits b n).reverse = numeralDigits b n ↔ (b.digits n).reverse = b.digits n := by
  unfold numeralDigits
  split_ifs with hzero
  · rw [hzero, Nat.digits_zero]
    exact iff_of_true rfl rfl
  · rfl

/-- the text of `uitoa` is a numeral if the digits are the same in reverse -/
theorem uitoaText_canonical_iff : Numeral decimal (uitoaText value) value.toNat ↔
    (Nat.digits 10 value.toNat).reverse = Nat.digits 10 value.toNat := by
  have hlt : ∀ d ∈ (numeralDigits 10 value.toNat).reverse, d < 10 := fun d hd =>
    numeralDigits_lt (by decide) d (List.mem_reverse.1 hd)
  have htext : uitoaText value = ((numeralDigits 10 value.toNat).reverse.map fun d : ℕ => digitChar d).reverse := by
    rw [List.map_reverse, List.reverse_reverse]
    exact valueText_digits rfl 10 value.toNat
  rw [htext, decimal_iff hlt, numeralDigits_palindrome_iff]

theorem uitoaText_eq_itoaText (hpal : (Nat.digits 10 value.toNat).reverse = Nat.digits 10 value.toNat)
    (hlt : value.toNat < 2 ^ 63) : uitoaText value = itoaText value := by
  rw [itoaText_of_lt hlt]
  unfold uitoaText
  rw [valueText_digits rfl, ← List.map_reverse, (numeralDigits_palindrome_iff 10 _).2 hpal]

/-- **Unsigned numbers.** For every 64-bit value: the text of `uitoa` is its canonical numeral, and below 2^63 the text of
`itoa`, if and only if the decimal digits read the same from both ends. -/
theorem uitoa_canonical_iff (hroom : 20 < room.length) (hroom' : 20 < room'.length) :
    ((∃ text, Leaves (uitoa value room) text ∧ Numeral decimal text value.toNat) ∧
      (value.toNat < 2 ^ 63 → ∃ text, Leaves (uitoa value room) text ∧ Leaves (itoa value room') text)) ↔
      (Nat.digits 10 value.toNat).reverse = Nat.digits 10 value.toNat := by
  constructor
  · rintro ⟨⟨text, hleaves, hnum⟩, _⟩
    rw [hleaves.unique (uitoa_leaves hroom)] at hnum
    exact uitoaText_canonical_iff.1 hnum
  · intro hpal
    refine ⟨⟨_, uitoa_leaves hroom, uitoaText_canonical_iff.2 hpal⟩, fun hlt => ⟨_, uitoa_leaves hroom, ?_⟩⟩
    rw [uitoaText_eq_itoaText hpal hlt]
    exact itoa_leaves hroom'

end Unsigned

/-- 12321, in both -/
theorem uitoa_canonical_iff_palindrome :
    ∃ text, Leaves (uitoa 12321 (List.replicate 21 7)) text ∧ Leaves (itoa 12321 (List.replicate 21 7)) text := by
  have hpal : (Nat.digits 10 (12321 : BitVec 64).toNat).reverse = Nat.digits 10 (12321 : BitVec 64).toNat := by
    show (Nat.digits 10 12321).reverse = Nat.digits 10 12321
    norm_num
  exact ((uitoa_canonical_iff (by decide) (by decide)).2 hpal).2 (by decide)

/-- **12 comes out as 21.** -/
theorem twelve_reversed :
    Leaves (uitoa 12 (List.replicate 21 7)) [chr '2', chr '1'] ∧ Leaves (itoa 12 (List.replicate 21 7)) [chr '1', chr '2'] ∧
      ¬ Numeral decimal [chr '2', chr '1'] 12 := by
  refine ⟨⟨_, eq_returned [] (by decide), by decide, List.replicate 18 7, by decide⟩,
    ⟨_, eq_returned [] (by decide), by decide, List.replicate 18 7, by decide⟩, fun h => ?_⟩
  exact absurd h.value (by decide)

/-! ## Hexadecimal numbers -/

section Hexadecimal

variable {value : BitVec 64} {room : List UInt8}

theorem hexText_numeral (value : BitVec 64) : Numeral lowerHex (hexText value) value.toNat := by
  have hchar : ∀ d < 16, hexChar (d : ℕ) ∈ lowerHex ∧ lowerHex.idxOf (hexChar (d : ℕ)) = d := by decide
  unfold hexText
  rw [valueText_digits rfl]
  exact (@numeral_map_iff _ _ lowerHex _ (fun d : ℕ => hexChar d) _ (by decide) hchar (numeralDigits_lt (by decide))).2 rfl

theorem upperText_numeral (value : BitVec 64) : Numeral upperHex ((hexText value).map toupper) value.toNat := by
  have hchar : ∀ d < 16, toupper (hexChar (d : ℕ)) ∈ upperHex ∧ upperHex.idxOf (toupper (hexChar (d : ℕ))) = d := by decide
  unfold hexText
  rw [valueText_digits rfl, List.map_reverse, List.map_map]
  exact (@numeral_map_iff _ _ upperHex _ (fun d : ℕ => toupper (hexChar d)) _ (by decide) hchar
    (numeralDigits_lt (by decide))).2 rfl

/-- the text in lower case and the text in upper case have the same digits -/
theorem upperText_digits (value : BitVec 64) :
    ((hexText value).map toupper).map upperHex.idxOf = (hexText value).map lowerHex.idxOf := by
  have hlower := ((numeral_iff (by decide)).1 (hexText_numeral value)).2
  have hupper := ((numeral_iff (by decide)).1 (upperText_numeral value)).2
  rw [List.map_reverse] at hlower hupper
  exact List.reverse_injective (hupper.trans hlower.symm)

/-- **Hexadecimal numbers.** For every 64-bit value: the text of `uitoa_hex` is its canonical numeral, of at most 16 characters.
`strupper` makes of it the one with the same digits in upper case, which it does not change any more. -/
theorem uitoaHex_canonical (value : BitVec 64) (hroom : 16 < room.length) :
    ∃ buf text, uitoaHex value room = .ok buf ∧ IsString buf text ∧ text.length ≤ 16 ∧ Numeral lowerHex text value.toNat ∧
      ∃ buf' upper, strupper buf 0 = .ok buf' ∧ IsString buf' upper ∧ Numeral upperHex upper value.toNat ∧
        upper.map upperHex.idxOf = text.map lowerHex.idxOf ∧ strupper buf' 0 = .ok buf' := by
  obtain ⟨hnul, hlength⟩ := hexText_fits value
  have hupper := toupper_no_nul hnul
  refine ⟨_, hexText value, uitoaHex_spec hroom, isString_withText hnul, hlength, hexText_numeral value,
    _, (hexText value).map toupper, strupper_withText hnul, isString_withText hupper, upperText_numeral value,
    upperText_digits value, ?_⟩
  rw [strupper_withText hupper, List.map_map]
  have htwice : toupper ∘ toupper = toupper := funext toupper_toupper
  rw [htwice]

end Hexadecimal

/-- the largest value -/
theorem uitoaHex_canonical_largest :
    ∃ buf text, uitoaHex (BitVec.allOnes 64) (List.replicate 17 7) = .ok buf ∧ IsString buf text ∧
      Numeral lowerHex text (2 ^ 64 - 1) := by
  obtain ⟨buf, text, hok, hstring, _, hnum, _⟩ := @uitoaHex_canonical (List.replicate 17 7) (BitVec.allOnes 64) (by decide)
  exact ⟨buf, text, hok, hstring, hnum⟩

end Gubos.Text
