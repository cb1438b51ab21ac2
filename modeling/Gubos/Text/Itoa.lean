/-
Numbers as text (`itoa.c`).

The three routines write the digits of a number from the least significant on, then a NUL. `itoa` and `uitoa_hex` reverse the
digits afterwards, `uitoa` does not. A `long long` is divided towards zero, and the negation in `itoa` is that of 64-bit two's
complement, so the digits of the least value are those of 2^63 with the sign of each turned round.

- `putDigits_spec`: the loop writes `tdigits`;
- `itoa_spec`, `uitoa_spec`, `uitoaHex_spec`: what stands in the buffer afterwards;
- `itoaText_fits`, `uitoaText_fits`, `hexText_fits`: no text has a NUL in it, and none is longer than 20 bytes.
-/
import Gubos.Core.Digits
import Gubos.Text.Strings

namespace Gubos.Text

open Gubos.Core

/-! ## The code -/

/-- `(char)(value % 10 + '0')` -/
def digitChar (digit : ℤ) : UInt8 := UInt8.ofInt (digit + 48)

/-- a digit of `uitoa_hex` -/
def hexChar (digit : ℤ) : UInt8 := if digit < 10 then UInt8.ofInt (digit + 48) else UInt8.ofInt (digit - 10 + 97)

/-- the loop of the three routines; 64 bits have at most 64 digits -/
def putDigits (char : ℤ → UInt8) (base : ℕ) : ℕ → ℤ → List UInt8 → ℕ → Except Err (List UInt8 × ℕ)
  | 0, _, _, _ => .error (.fault .diverges)
  | fuel + 1, value, str, i =>
    if value ≠ 0 then do
      let str ← write str i (char (value.tmod base))
      putDigits char base fuel (value.tdiv base) str (i + 1)
    else .ok (str, i)

/-- a zero, or the digits -/
def putValue (char : ℤ → UInt8) (base : ℕ) (value : ℤ) (str : List UInt8) : Except Err (List UInt8 × ℕ) :=
  if value = 0 then do
    let str ← write str 0 (chr '0')
    .ok (str, 1)
  else putDigits char base 65 value str 0

/-- the digits of `itoa`, after the sign if there is one -/
def putSigned (value : BitVec 64) (str : List UInt8) : Except Err (List UInt8 × ℕ) :=
  if value.toInt < 0 then do
    let str ← write str 0 (chr '-')
    putDigits digitChar 10 65 (-value).toInt str 1
  else putValue digitChar 10 value.toInt str

/-- `itoa` -/
def itoa (value : BitVec 64) (str : List UInt8) : Except Err (List UInt8) := do
  let (str, i) ← putSigned value str
  let str ← write str i 0
  if value.toInt < 0 then strrev str 1 else strrev str 0

/-- `uitoa` -/
def uitoa (value : BitVec 64) (str : List UInt8) : Except Err (List UInt8) := do
  let (str, i) ← putValue digitChar 10 value.toNat str
  write str i 0

/-- `uitoa_hex` -/
def uitoaHex (value : BitVec 64) (str : List UInt8) : Except Err (List UInt8) := do
  let (str, i) ← putValue hexChar 16 value.toNat str
  let str ← write str i 0
  strrev str 0

/-! ## The texts -/

/-- a zero, or the digits from the least significant on -/
def valueText (char : ℤ → UInt8) (base : ℕ) (value : ℤ) : List UInt8 :=
  if value = 0 then [chr '0'] else (tdigits base value).map char

/-- what `itoa` writes -/
def itoaText (value : BitVec 64) : List UInt8 :=
  if value.toInt < 0 then chr '-' :: (valueText digitChar 10 (-value).toInt).reverse
  else (valueText digitChar 10 value.toInt).reverse

/-- what `uitoa` writes -/
def uitoaText (value : BitVec 64) : List UInt8 := valueText digitChar 10 value.toNat

/-- what `uitoa_hex` writes -/
def hexText (value : BitVec 64) : List UInt8 := (valueText hexChar 16 value.toNat).reverse

theorem valueText_natCast (char : ℤ → UInt8) (base n : ℕ) :
    valueText char base n = if n = 0 then [chr '0'] else (base.digits n).map fun d : ℕ => char d := by
  unfold valueText
  rw [tdigits_natCast, List.map_map]
  simp only [Int.natCast_eq_zero]
  rfl

/-- a value that is not negative as a `long long` -/
theorem itoaText_of_lt {value : BitVec 64} (hlt : value.toNat < 2 ^ 63) :
    itoaText value = (valueText digitChar 10 value.toNat).reverse := by
  have hint : value.toInt = value.toNat := BitVec.toInt_eq_toNat_of_lt (by omega)
  unfold itoaText
  rw [hint, if_neg (by omega)]

section Digits

variable {char : ℤ → UInt8} {base fuel : ℕ} {value : ℤ} {pre room str : List UInt8}

theorem putDigits_spec (hbase : 2 ≤ base) (hroom : (tdigits base value).length ≤ room.length)
    (hfuel : (tdigits base value).length < fuel) :
    putDigits char base fuel value (pre ++ room) pre.length =
      .ok (pre ++ (tdigits base value).map char ++ room.drop (tdigits base value).length,
        pre.length + (tdigits base value).length) := by
  induction fuel generalizing value pre room with
  | zero => omega
  | succ fuel ih =>
    unfold putDigits
    split_ifs with hzero
    · -- the least significant digit, and the rest
      rw [tdigits_step hbase hzero, List.length_cons] at hroom hfuel ⊢
      obtain ⟨c, room, rfl⟩ : ∃ c rest, room = c :: rest := by
        apply List.exists_cons_of_ne_nil
        rintro rfl
        exact absurd hroom (by simp)
      have hlen : pre.length + 1 = (pre ++ [char (value.tmod base)]).length := by simp
      have happ : pre ++ char (value.tmod base) :: room = pre ++ [char (value.tmod base)] ++ room := by simp
      rw [write_append, ok_bind, hlen, happ, ih (Nat.le_of_succ_le_succ hroom) (Nat.lt_of_succ_lt_succ hfuel), ← hlen]
      simp [Nat.add_assoc, Nat.add_comm 1]
    · rw [not_not.1 hzero, tdigits_zero, List.map_nil, List.append_nil, List.length_nil, List.drop_zero, Nat.add_zero]

/-- the digits of a zero are one zero -/
theorem putValue_spec (hbase : 2 ≤ base) (hroom : (valueText char base value).length ≤ room.length)
    (hfuel : (valueText char base value).length ≤ 64) :
    putValue char base value room = .ok (valueText char base value ++ room.drop (valueText char base value).length,
      (valueText char base value).length) := by
  unfold putValue valueText at *
  split_ifs at hroom hfuel ⊢ with hzero
  · match room, hroom with
    | c :: room, _ => rfl
  · rw [List.length_map] at hroom hfuel ⊢
    have h := @putDigits_spec char base 65 value [] room hbase hroom (by omega)
    simpa using h

/-! ## Texts in a buffer -/

/-- a string, its NUL, and what was in the buffer after them -/
def withText (text room : List UInt8) : List UInt8 := text ++ 0 :: room.drop (text.length + 1)

theorem withText_length {text room : List UInt8} (h : text.length < room.length) : (withText text room).length = room.length := by
  unfold withText
  rw [List.length_append, List.length_cons, List.length_drop]
  omega

/-- the NUL after the digits -/
theorem write_nul {text room : List UInt8} (h : text.length < room.length) :
    (write (text ++ room.drop text.length) text.length 0 : Except Err (List UInt8)) = .ok (withText text room) := by
  rw [List.drop_eq_getElem_cons h, write_append]
  rfl

/-- the digits after a sign, or after nothing, are reversed -/
theorem strrev_withText {digits room : List UInt8} (hdigits : 0 ∉ digits) :
    strrev (withText (pre ++ digits) room) pre.length = .ok (withText (pre ++ digits.reverse) room) := by
  unfold withText
  rw [strrev_spec hdigits rfl]
  simp only [List.length_append, List.length_reverse]

theorem strupper_withText {text room : List UInt8} (htext : 0 ∉ text) :
    strupper (withText text room) 0 = .ok (withText (text.map toupper) room) := by
  have hupper := @strupper_spec [] text (room.drop (text.length + 1)) 0 htext rfl
  unfold withText
  rwa [List.length_map]

end Digits

/-! ## Characters -/

theorem ofInt_toNat {x : ℤ} (h0 : 0 ≤ x) (hx : x < 256) : ((UInt8.ofInt x).toNat : ℤ) = x := by
  unfold UInt8.ofInt
  rw [UInt8.toNat_ofNat']
  omega

theorem digitChar_toNat {d : ℤ} (hd : d.natAbs < 10) : ((digitChar d).toNat : ℤ) = d + 48 :=
  ofInt_toNat (by omega) (by omega)

theorem hexChar_toNat {d : ℤ} (h0 : 0 ≤ d) (hd : d < 16) :
    ((hexChar d).toNat : ℤ) = if d < 10 then d + 48 else d + 87 := by
  unfold hexChar
  split_ifs with hdec
  · exact ofInt_toNat (by omega) (by omega)
  · rw [ofInt_toNat (by omega) (by omega)]
    omega

theorem digitChar_ne_zero {d : ℤ} (hd : d.natAbs < 10) : digitChar d ≠ 0 := by
  intro h
  have hn := digitChar_toNat hd
  rw [h, UInt8.toNat_zero] at hn
  omega

theorem hexChar_ne_zero {d : ℤ} (h0 : 0 ≤ d) (hd : d < 16) : hexChar d ≠ 0 := by
  intro h
  have hn := hexChar_toNat h0 hd
  rw [h, UInt8.toNat_zero] at hn
  split_ifs at hn <;> omega

theorem digits_no_nul (value : ℤ) : 0 ∉ valueText digitChar 10 value := by
  unfold valueText
  split_ifs with hzero
  · decide
  · intro h
    obtain ⟨d, hd, hchar⟩ := List.mem_map.1 h
    exact digitChar_ne_zero (tdigits_lt (by decide) hd) hchar

theorem hex_no_nul (n : ℕ) : 0 ∉ valueText hexChar 16 n := by
  unfold valueText
  split_ifs with hzero
  · decide
  · intro h
    rw [tdigits_natCast, List.map_map] at h
    obtain ⟨d, hd, hchar⟩ := List.mem_map.1 h
    have hlt := Nat.digits_lt_base (by decide) hd
    exact hexChar_ne_zero (Int.natCast_nonneg d) (by omega) hchar

theorem valueText_length_le {char : ℤ → UInt8} {base k : ℕ} {value : ℤ} (hbase : 2 ≤ base) (hk : 1 ≤ k)
    (hlt : value.natAbs < base ^ k) : (valueText char base value).length ≤ k := by
  unfold valueText
  split_ifs with hzero
  · exact hk
  · rw [List.length_map]
    exact (tdigits_length_le hbase).2 hlt

/-! ## The three routines -/

section Routines

variable {value : BitVec 64} {room : List UInt8}

theorem toInt_natAbs_lt (value : BitVec 64) : value.toInt.natAbs < 10 ^ 19 := by
  have hlt := @BitVec.toInt_lt 64 value
  have hge := @BitVec.le_toInt 64 value
  norm_num at hlt hge ⊢
  omega

theorem itoaText_fits (value : BitVec 64) : 0 ∉ itoaText value ∧ (itoaText value).length ≤ 20 := by
  unfold itoaText
  split_ifs with hneg
  · have hlen := @valueText_length_le digitChar 10 19 _ (by decide) (by decide) (toInt_natAbs_lt (-value))
    refine ⟨?_, by rw [List.length_cons, List.length_reverse]; omega⟩
    intro h
    rcases List.mem_cons.1 h with h | h
    · exact absurd h (by decide)
    · exact digits_no_nul _ (List.mem_reverse.1 h)
  · have hlen := @valueText_length_le digitChar 10 19 _ (by decide) (by decide) (toInt_natAbs_lt value)
    refine ⟨fun h => digits_no_nul _ (List.mem_reverse.1 h), ?_⟩
    rw [List.length_reverse]
    omega

theorem uitoaText_fits (value : BitVec 64) : 0 ∉ uitoaText value ∧ (uitoaText value).length ≤ 20 := by
  refine ⟨digits_no_nul _, valueText_length_le (by decide) (by decide) ?_⟩
  rw [Int.natAbs_natCast]
  exact value.isLt.trans (by decide)

theorem hexText_fits (value : BitVec 64) : 0 ∉ hexText value ∧ (hexText value).length ≤ 16 := by
  refine ⟨fun h => hex_no_nul _ (List.mem_reverse.1 h), ?_⟩
  unfold hexText
  rw [List.length_reverse]
  refine valueText_length_le (by decide) (by decide) ?_
  rw [Int.natAbs_natCast]
  exact value.isLt

/-- the digits go after the sign -/
theorem putSigned_neg (hneg : value.toInt < 0) (hroom : 20 < room.length) :
    putSigned value room = .ok (chr '-' :: valueText digitChar 10 (-value).toInt ++
        room.drop (chr '-' :: valueText digitChar 10 (-value).toInt).length,
      (chr '-' :: valueText digitChar 10 (-value).toInt).length) := by
  have hlen := (tdigits_length_le (by decide)).2 (toInt_natAbs_lt (-value))
  have hnonzero : (-value).toInt ≠ 0 := by
    intro h
    have hzero : value = 0#64 := by simpa using BitVec.eq_of_toInt_eq (h.trans BitVec.toInt_zero.symm)
    rw [hzero] at hneg
    exact absurd hneg (by decide)
  obtain ⟨c, rest, rfl⟩ := List.exists_cons_of_length_pos (Nat.zero_lt_of_lt hroom)
  rw [List.length_cons] at hroom
  have hput := @putDigits_spec digitChar 10 65 (-value).toInt [chr '-'] rest (by decide) (by omega) (by omega)
  unfold putSigned valueText
  rw [if_pos hneg, if_neg hnonzero]
  refine Eq.trans ?_ (hput.trans ?_)
  · rfl
  · simp [Nat.add_comm 1]

/-- **`itoa`.** -/
theorem itoa_spec (hroom : 20 < room.length) : itoa value room = .ok (withText (itoaText value) room) := by
  have hfits := (itoaText_fits value).2
  unfold itoa itoaText at *
  split_ifs at hfits ⊢ with hneg
  · rw [List.length_cons, List.length_reverse] at hfits
    rw [putSigned_neg hneg hroom, ok_bind]
    dsimp only
    rw [write_nul (by rw [List.length_cons]; omega), ok_bind]
    exact @strrev_withText [chr '-'] _ _ (digits_no_nul _)
  · rw [List.length_reverse] at hfits
    unfold putSigned
    rw [if_neg hneg, putValue_spec (by decide) (by omega) (by omega), ok_bind]
    dsimp only
    rw [write_nul (by omega), ok_bind]
    exact @strrev_withText [] _ _ (digits_no_nul _)

/-- **`uitoa`.** -/
theorem uitoa_spec (hroom : 20 < room.length) : uitoa value room = .ok (withText (uitoaText value) room) := by
  have hfits := (uitoaText_fits value).2
  unfold uitoa uitoaText at *
  rw [putValue_spec (by decide) (by omega) (by omega), ok_bind]
  exact write_nul (by omega)

/-- **`uitoa_hex`.** -/
theorem uitoaHex_spec (hroom : 16 < room.length) : uitoaHex value room = .ok (withText (hexText value) room) := by
  have hfits := (hexText_fits value).2
  unfold uitoaHex hexText at *
  rw [List.length_reverse] at hfits
  rw [putValue_spec (by decide) (by omega) (by omega), ok_bind]
  dsimp only
  rw [write_nul (by omega), ok_bind]
  exact @strrev_withText [] _ _ (hex_no_nul _)

end Routines

end Gubos.Text
