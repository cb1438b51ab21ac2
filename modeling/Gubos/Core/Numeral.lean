/-
Numerals over an alphabet.

An alphabet lists the characters of the digits in order: its length is the base, and the digit of a character is its place in
it. `Numeral alphabet text n` says that `text` is the canonical numeral of `n`: it has only characters of the alphabet, does not
start with a zero unless that is all of it, and its value, read with the most significant digit first, is `n`.

- `numeral_iff`: the digits of the canonical numeral of `n` are `numeralDigits`, that is those of `Nat.digits`, or one zero;
- `numeral_map_iff`: when digits that are mapped to characters and put in reading order are the numeral of `n`.
-/
import Mathlib.Data.Nat.Digits.Lemmas
import Mathlib.Tactic

namespace Gubos.Core

variable {α : Type} [DecidableEq α]

/-- the value of a text, with the most significant digit first -/
def textValue (alphabet text : List α) : ℕ := text.foldl (fun n c => n * alphabet.length + alphabet.idxOf c) 0

structure Numeral (alphabet text : List α) (n : ℕ) : Prop where
  nonempty : text ≠ []
  chars : ∀ c ∈ text, c ∈ alphabet
  leading : text.head? = alphabet.head? → text.length = 1
  value : textValue alphabet text = n

/-- the digits of a numeral, with the least significant first -/
def numeralDigits (b n : ℕ) : List ℕ := if n = 0 then [0] else b.digits n

variable {alphabet text : List α} {b n : ℕ}

theorem textValue_eq (alphabet text : List α) :
    textValue alphabet text = Nat.ofDigits alphabet.length (text.reverse.map alphabet.idxOf) := by
  unfold textValue
  rw [Nat.ofDigits_eq_foldr, List.foldr_map, List.foldr_reverse]
  congr 1
  funext n c
  rw [Nat.mul_comm, Nat.add_comm]
  rfl

theorem numeralDigits_lt (hb : 2 ≤ b) : ∀ d ∈ numeralDigits b n, d < b := by
  intro d hd
  unfold numeralDigits at hd
  split_ifs at hd
  · rw [List.mem_singleton.1 hd]
    omega
  · exact Nat.digits_lt_base hb hd

theorem numeralDigits_ne_nil : numeralDigits b n ≠ [] := by
  unfold numeralDigits
  split_ifs with hn
  · exact List.cons_ne_nil _ _
  · exact Nat.digits_ne_nil_iff_ne_zero.2 hn

theorem ofDigits_numeralDigits (b n : ℕ) : Nat.ofDigits b (numeralDigits b n) = n := by
  unfold numeralDigits
  split_ifs with hn
  · rw [Nat.ofDigits_singleton, hn]
  · exact Nat.ofDigits_digits b n

/-- digits below the base, the last of them not zero unless it is the only one -/
theorem eq_numeralDigits {digits : List ℕ} (hb : 2 ≤ b) (hne : digits ≠ []) (hlt : ∀ d ∈ digits, d < b)
    (hlast : digits.getLast hne = 0 → digits.length = 1) : digits = numeralDigits b (Nat.ofDigits b digits) := by
  by_cases hzero : digits.getLast hne = 0
  · obtain ⟨d, rfl⟩ := List.length_eq_one_iff.1 (hlast hzero)
    rw [List.getLast_singleton] at hzero
    subst hzero
    rfl
  · have hdigits := Nat.digits_ofDigits b hb digits hlt fun _ => hzero
    have hn : Nat.ofDigits b digits ≠ 0 := by
      intro h0
      rw [h0, Nat.digits_zero] at hdigits
      exact hne hdigits.symm
    unfold numeralDigits
    rw [if_neg hn, hdigits]

theorem numeralDigits_last (hne : numeralDigits b n ≠ []) (h : (numeralDigits b n).getLast hne = 0) :
    (numeralDigits b n).length = 1 := by
  by_cases hn : n = 0
  · simp [numeralDigits, hn]
  · have heq : numeralDigits b n = b.digits n := if_neg hn
    have hlast := Nat.getLast_digit_ne_zero b hn
    simp only [heq] at h
    exact absurd h hlast

/-- **The digits of a numeral.** -/
theorem numeral_iff (hb : 2 ≤ alphabet.length) :
    Numeral alphabet text n ↔
      (∀ c ∈ text, c ∈ alphabet) ∧ text.reverse.map alphabet.idxOf = numeralDigits alphabet.length n := by
  have halpha : alphabet ≠ [] := by
    rintro rfl
    rw [List.length_nil] at hb
    omega
  -- the last of the digits, which come in reverse, is that of the first character
  have hlast : ∀ hne : text.reverse.map alphabet.idxOf ≠ [],
      (text.reverse.map alphabet.idxOf).getLast hne = 0 ↔ text.head? = alphabet.head? := by
    intro hne
    cases text with
    | nil => exact absurd rfl hne
    | cons c text =>
      rw [List.getLast_map, List.getLast_reverse, List.head_cons, List.idxOf_eq_zero_iff_head_eq halpha,
        List.head?_eq_some_head halpha, List.head?_cons, Option.some.injEq]
      exact eq_comm
  have hlength : (text.reverse.map alphabet.idxOf).length = text.length := by simp
  constructor
  · rintro ⟨hne, hchars, hleading, hvalue⟩
    refine ⟨hchars, ?_⟩
    have hne' : text.reverse.map alphabet.idxOf ≠ [] := by simpa using hne
    have hlt : ∀ d ∈ text.reverse.map alphabet.idxOf, d < alphabet.length := by
      intro d hd
      obtain ⟨c, hc, rfl⟩ := List.mem_map.1 hd
      exact List.idxOf_lt_length_iff.2 (hchars c (List.mem_reverse.1 hc))
    rw [← hvalue, textValue_eq]
    exact eq_numeralDigits hb hne' hlt fun h0 => hlength.trans (hleading ((hlast hne').1 h0))
  · rintro ⟨hchars, hdigits⟩
    have hne : text.reverse.map alphabet.idxOf ≠ [] := hdigits ▸ numeralDigits_ne_nil
    refine ⟨by simpa using hne, hchars, fun hhead => ?_, ?_⟩
    · have h0 := (hlast hne).2 hhead
      simp only [hdigits] at h0
      rw [← hlength, hdigits]
      exact numeralDigits_last _ h0
    · rw [textValue_eq, hdigits, ofDigits_numeralDigits]

/-- **Digits as characters.** -/
theorem numeral_map_iff {char : ℕ → α} {digits : List ℕ} (hb : 2 ≤ alphabet.length)
    (hchar : ∀ d < alphabet.length, char d ∈ alphabet ∧ alphabet.idxOf (char d) = d) (hlt : ∀ d ∈ digits, d < alphabet.length) :
    Numeral alphabet (digits.map char).reverse n ↔ digits = numeralDigits alphabet.length n := by
  have hback : (digits.map char).map alphabet.idxOf = digits := by
    rw [List.map_map]
    exact (List.map_congr_left fun d hd => (hchar d (hlt d hd)).2).trans (List.map_id digits)
  rw [numeral_iff hb, List.reverse_reverse, hback]
  refine and_iff_right fun c hc => ?_
  obtain ⟨d, hd, rfl⟩ := List.mem_map.1 (List.mem_reverse.1 hc)
  exact (hchar d (hlt d hd)).1

end Gubos.Core
