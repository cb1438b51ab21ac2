/-
What `ll` changes.

`%u` goes through `itoa` and `%llu` through `uitoa`, which leaves the digits in the order in which it finds them. In `%llX` the
test for `X` looks at the first `l`, so that the digits stay in lower case.

- `itoa_eq_uitoa_iff`: the two decimal texts of a 32-bit value are the same if the digits read the same from both ends;
- `upper_hexText_iff`: the upper-cased hexadecimal text is the same if no digit is a letter;
- `long_same_text_iff`: the 32-bit and the 64-bit conversion print the same text in these cases only, for `u` and for `X`, and
  always for the other letters;
- `long_twelve_reversed`: 12 as `%u` and as `%llu`.
-/
import Gubos.Text.Grammar

namespace Gubos.Text

open Gubos.Core Gubos.Tty

/-! ## Digits and characters -/

section Texts

variable {v : BitVec 32}

/-- the digit of a character -/
theorem digitChar_sub {d : ℕ} (hd : d < 10) : (digitChar d).toNat - 48 = d := by
  have h := @digitChar_toNat d (by omega)
  omega

theorem valueText_palindrome_iff (n : ℕ) :
    (valueText digitChar 10 n).reverse = valueText digitChar 10 n ↔ (Nat.digits 10 n).reverse = Nat.digits 10 n := by
  rw [valueText_natCast]
  split_ifs with hzero
  · rw [hzero]
    simp
  · -- the digits can be read back from the characters
    have hback : ∀ l : List ℕ, (∀ d ∈ l, d < 10) →
        ((l.map fun d : ℕ => digitChar d).map fun c => c.toNat - 48) = l := by
      intro l hl
      rw [List.map_map]
      exact (List.map_congr_left fun d hd => digitChar_sub (hl d hd)).trans (List.map_id' l)
    have hlt : ∀ d ∈ Nat.digits 10 n, d < 10 := fun d hd => Nat.digits_lt_base (by decide) hd
    rw [← List.map_reverse]
    constructor
    · intro h
      have h' := congrArg (List.map fun c : UInt8 => c.toNat - 48) h
      rwa [hback _ fun d hd => hlt d (List.mem_reverse.1 hd), hback _ hlt] at h'
    · intro h
      rw [h]

theorem setWidth_toNat (v : BitVec 32) : (v.setWidth 64).toNat = v.toNat := by
  have hlt := v.isLt
  rw [BitVec.toNat_setWidth]
  omega

theorem itoaText_setWidth (v : BitVec 32) : itoaText (v.setWidth 64) = (valueText digitChar 10 v.toNat).reverse := by
  have hlt := v.isLt
  rw [itoaText_of_lt (by rw [setWidth_toNat]; omega), setWidth_toNat]

/-- `%u` and `%llu` -/
theorem itoa_eq_uitoa_iff : itoaText (v.setWidth 64) = uitoaText (v.setWidth 64) ↔
    (Nat.digits 10 v.toNat).reverse = Nat.digits 10 v.toNat := by
  unfold uitoaText
  rw [itoaText_setWidth, setWidth_toNat, valueText_palindrome_iff]

theorem islower_hexChar {d : ℕ} (hd : d < 16) : islower (hexChar d) = true ↔ 10 ≤ d := by
  interval_cases d <;> decide

/-- `%X` and `%x` -/
theorem upper_hexText_iff : (hexText (v.setWidth 64)).map toupper = hexText (v.setWidth 64) ↔
    ∀ d ∈ Nat.digits 16 v.toNat, d < 10 := by
  have hmap : ∀ l : List UInt8, l.map toupper = l ↔ ∀ c ∈ l, islower c = false := by
    intro l
    calc l.map toupper = l ↔ l.map toupper = l.map id := by rw [List.map_id]
      _ ↔ ∀ c ∈ l, toupper c = c := List.map_inj_left
      _ ↔ ∀ c ∈ l, islower c = false := forall₂_congr fun c _ => toupper_eq_iff c
  unfold hexText
  rw [hmap, setWidth_toNat, valueText_natCast]
  split_ifs with hzero
  · rw [hzero, Nat.digits_zero, List.reverse_singleton]
    refine iff_of_true (fun c hc => ?_) (by simp)
    rw [List.mem_singleton.1 hc]
    rfl
  · simp only [List.mem_reverse, List.forall_mem_map]
    refine forall₂_congr fun d hd => ?_
    have hlow := islower_hexChar (Nat.digits_lt_base (by decide) hd)
    rw [← Bool.not_eq_true, hlow, not_le]

end Texts

/-! ## The conversions -/

/-- the letters that can stand after `ll` -/
inductive Letter where
  | d | i | u | x | X
deriving DecidableEq, Repr

def Letter.short : Letter → Spec
  | .d => .d
  | .i => .i
  | .u => .u
  | .x => .x
  | .X => .X

def Letter.long : Letter → Spec
  | .d => .lld
  | .i => .lli
  | .u => .llu
  | .x => .llx
  | .X => .llX

/-- a signed or an unsigned value in 64 bits -/
def Letter.extend : Letter → BitVec 32 → BitVec 64
  | .d, v | .i, v => v.signExtend 64
  | .u, v | .x, v | .X, v => v.setWidth 64

/-- the values that a letter prints the same with and without `ll` -/
def Letter.SameText : Letter → BitVec 32 → Prop
  | .d, _ | .i, _ | .x, _ => True
  | .u, v => (Nat.digits 10 v.toNat).reverse = Nat.digits 10 v.toNat
  | .X, v => ∀ d ∈ Nat.digits 16 v.toNat, d < 10

theorem output_eq_iff (flag : Option Flag) (letter : Letter) (v : BitVec 32) :
    letter.short.output flag (.word v) = letter.long.output flag (.dword (letter.extend v)) ↔ letter.SameText v := by
  cases letter with
  | d | i | x => exact iff_of_true rfl trivial
  | u => exact itoa_eq_uitoa_iff
  | X => exact (List.append_right_inj _).trans upper_hexText_iff

theorem convText_short (flag : Option Flag) (spec : Spec) : 0 ∉ convText flag spec ∧ (convText flag spec).length < 2 ^ 31 := by
  revert flag spec
  decide

/-- a format of one conversion -/
theorem vprintk_conv (logLevel : UInt8) (flag : Option Flag) {spec : Spec} {arg : Arg} {formattedArg : List UInt8}
    (hkind : spec.kind ≠ .none) (hmatch : Matches [.conv flag spec] [arg]) (hbuf : formattedArg.length = 256) :
    vprintk logLevel (convText flag spec ++ [0]) [arg] formattedArg =
      .ok ⟨(convText flag spec).length, [], inColor (logLevelToVgaColor logLevel) (spec.output flag arg)⟩ := by
  have hparse : Parse (convText flag spec) [.conv flag spec] [] := ⟨by simp [Item.Ok], by simp [Item.text], .inl rfl⟩
  have hshort := convText_short flag spec
  have h := @vprintk_spec _ _ _ [arg] [] logLevel formattedArg hparse hshort.1 hshort.2 hmatch hbuf
  rwa [printed_conv hkind, if_pos rfl, printed, List.append_nil, List.append_nil] at h

/-- **What `ll` changes.** For every letter and every 32-bit value, with and without `#`: both conversions return, and their
texts are the same if and only if the value is one of `SameText`. -/
theorem long_same_text_iff (logLevel : UInt8) (flag : Option Flag) (letter : Letter) (v : BitVec 32)
    {formattedArg formattedArg' : List UInt8} (hbuf : formattedArg.length = 256) (hbuf' : formattedArg'.length = 256) :
    ∃ ret ret' text text',
      vprintk logLevel (convText flag letter.short ++ [0]) [.word v] formattedArg =
        .ok ⟨ret, [], inColor (logLevelToVgaColor logLevel) text⟩ ∧
      vprintk logLevel (convText flag letter.long ++ [0]) [.dword (letter.extend v)] formattedArg' =
        .ok ⟨ret', [], inColor (logLevelToVgaColor logLevel) text'⟩ ∧
      (text = text' ↔ letter.SameText v) := by
  refine ⟨_, _, _, _, vprintk_conv logLevel flag ?_ ?_ hbuf, vprintk_conv logLevel flag ?_ ?_ hbuf',
    output_eq_iff flag letter v⟩
  all_goals cases letter <;> first | decide | rfl

/-- 12321, in both -/
theorem long_same_text_iff_palindrome :
    ∃ ret ret' text,
      vprintk 0 (convText none Letter.u.short ++ [0]) [.word 12321] (List.replicate 256 0) =
        .ok ⟨ret, [], inColor (logLevelToVgaColor 0) text⟩ ∧
      vprintk 0 (convText none Letter.u.long ++ [0]) [.dword 12321] (List.replicate 256 0) =
        .ok ⟨ret', [], inColor (logLevelToVgaColor 0) text⟩ := by
  obtain ⟨ret, ret', text, text', h, h', hiff⟩ :=
    long_same_text_iff 0 none .u 12321 (@List.length_replicate UInt8 256 0) (@List.length_replicate UInt8 256 0)
  have hsame : Letter.u.SameText 12321 := by
    show (Nat.digits 10 12321).reverse = Nat.digits 10 12321
    norm_num
  exact ⟨ret, ret', text, h, hiff.2 hsame ▸ h'⟩

/-- **The digits of `%llu` are reversed.** 12 is printed as `12` by `%u` and as `21` by `%llu`. -/
theorem long_twelve_reversed :
    vprintk 0 (convText none Letter.u.short ++ [0]) [.word 12] (List.replicate 256 0) =
      .ok ⟨2, [], inColor (logLevelToVgaColor 0) [chr '1', chr '2']⟩ ∧
    vprintk 0 (convText none Letter.u.long ++ [0]) [.dword (Letter.u.extend 12)] (List.replicate 256 0) =
      .ok ⟨4, [], inColor (logLevelToVgaColor 0) [chr '2', chr '1']⟩ ∧
    inColor (logLevelToVgaColor 0) [chr '1', chr '2'] ≠ inColor (logLevelToVgaColor 0) [chr '2', chr '1'] := by
  decide +kernel

end Gubos.Text
