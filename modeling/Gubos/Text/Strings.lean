/-
Strings in buffers (`string/string.c`).

A string is a position `s` in a buffer: the bytes from there up to the first NUL. Every read and write is checked against the
size of the buffer.

- `strlen_spec`: the number of bytes before the NUL;
- `strrev_spec`: the bytes before the NUL are reversed where they are, and no other byte changes;
- `strupper_spec`: each of them is upper-cased.
-/
import Gubos.Core.Buffer

namespace Gubos.Text

open Gubos.Core

/-- what can go wrong besides a read or a write outside a buffer: a loop that does not end, and an argument that is not there
or has another type -/
inductive Fault where
  | diverges
  | argument
deriving DecidableEq, Repr

abbrev Err := Checked Fault

/-- the byte of an ASCII character -/
def chr (c : Char) : UInt8 := c.toUInt8

/-! ## The code -/

/-- the loop of `strlen` -/
def strlenLoop (buf : List UInt8) (s : ℕ) : ℕ → ℕ → Except Err ℕ
  | 0, _ => .error (.fault .diverges)
  | fuel + 1, len => do
    let c ← read buf (s + len)
    if c ≠ 0 then strlenLoop buf s fuel (len + 1) else .ok len

/-- `strlen` -/
def strlen (buf : List UInt8) (s : ℕ) : Except Err ℕ := strlenLoop buf s (buf.length + 1) 0

/-- `buf[dst] = buf[i] ^ buf[j]` -/
def xorStore (buf : List UInt8) (dst i j : ℕ) : Except Err (List UInt8) := do
  let x ← read buf i
  let y ← read buf j
  write buf dst (x ^^^ y)

/-- the body of the loop of `strrev`: the XOR swap -/
def xorSwap (buf : List UInt8) (i j : ℕ) : Except Err (List UInt8) := do
  let buf ← xorStore buf i i j
  let buf ← xorStore buf j i j
  xorStore buf i i j

/-- the loop of `strrev`, on two signed indices -/
def strrevLoop (s : ℕ) : ℕ → List UInt8 → ℤ → ℤ → Except Err (List UInt8)
  | 0, _, _, _ => .error (.fault .diverges)
  | fuel + 1, buf, i, j =>
    if i > j then do
      let buf ← xorSwap buf (s + i.toNat) (s + j.toNat)
      strrevLoop s fuel buf (i - 1) (j + 1)
    else .ok buf

/-- `strrev` -/
def strrev (buf : List UInt8) (s : ℕ) : Except Err (List UInt8) := do
  let len ← strlen buf s
  strrevLoop s (len + 1) buf ((len : ℤ) - 1) 0

/-- `islower` -/
def islower (c : UInt8) : Bool := c ≥ chr 'a' ∧ c ≤ chr 'z'

/-- `toupper` -/
def toupper (c : UInt8) : UInt8 := if islower c then c + (chr 'A' - chr 'a') else c

/-- the body of the loop of `strupper` -/
def upperAt (buf : List UInt8) (p : ℕ) : Except Err (List UInt8) := do
  let c ← read buf p
  if islower c then write buf p (toupper c) else .ok buf

/-- the loop of `strupper`, which measures the string in every round -/
def strupperLoop (s : ℕ) : ℕ → List UInt8 → ℕ → Except Err (List UInt8)
  | 0, _, _ => .error (.fault .diverges)
  | fuel + 1, buf, i => do
    let len ← strlen buf s
    if i < len then do
      let buf ← upperAt buf (s + i)
      strupperLoop s fuel buf (i + 1)
    else .ok buf

/-- `strupper` -/
def strupper (buf : List UInt8) (s : ℕ) : Except Err (List UInt8) := strupperLoop s (buf.length + 1) buf 0

section Specs

variable {pre str post buf : List UInt8} {s fuel len : ℕ}

/-! ## Length -/

theorem strlenLoop_spec (hstr : 0 ∉ str) (hs : s + len = pre.length) (hfuel : str.length < fuel) :
    strlenLoop (pre ++ str ++ 0 :: post) s fuel len = .ok (len + str.length) := by
  induction str generalizing pre fuel len with
  | nil =>
    obtain ⟨fuel, rfl⟩ : ∃ f, fuel = f + 1 := ⟨fuel - 1, by omega⟩
    rw [strlenLoop, hs, List.append_nil, read_append]
    rfl
  | cons c str ih =>
    obtain ⟨fuel, rfl⟩ : ∃ f, fuel = f + 1 := ⟨fuel - 1, by omega⟩
    have hc : c ≠ 0 := fun h => hstr (h ▸ List.mem_cons_self)
    have hrest : 0 ∉ str := fun h => hstr (List.mem_cons_of_mem c h)
    have hread : (read (pre ++ c :: str ++ 0 :: post) (s + len) : Except Err UInt8) = .ok c :=
      read_at (List.append_assoc _ _ _) hs
    have happ : pre ++ c :: str ++ 0 :: post = pre ++ [c] ++ str ++ 0 :: post := by simp
    rw [List.length_cons] at hfuel
    calc strlenLoop (pre ++ c :: str ++ 0 :: post) s (fuel + 1) len
        = strlenLoop (pre ++ c :: str ++ 0 :: post) s fuel (len + 1) := by
          rw [strlenLoop, hread]
          exact if_pos hc
      _ = .ok (len + 1 + str.length) := by
          rw [happ]
          exact ih hrest (by rw [List.length_append, List.length_singleton]; omega) (by omega)
      _ = .ok (len + (c :: str).length) := by rw [List.length_cons, Nat.add_assoc, Nat.add_comm 1]

theorem strlen_spec (hstr : 0 ∉ str) (hs : s = pre.length) : strlen (pre ++ str ++ 0 :: post) s = .ok str.length := by
  unfold strlen
  rw [strlenLoop_spec hstr (by omega) (by simp only [List.length_append, List.length_cons]; omega), Nat.zero_add]

/-! ## Reversal -/

theorem xorStore_of {dst i j : ℕ} {x y c : UInt8} (hx : (read buf i : Except Err UInt8) = .ok x)
    (hy : (read buf j : Except Err UInt8) = .ok y) (hbuf : buf = pre ++ c :: post) (hdst : dst = pre.length) :
    xorStore buf dst i j = .ok (pre ++ (x ^^^ y) :: post) := by
  unfold xorStore
  rw [hx, hy]
  exact write_at hbuf hdst

/-- the three XORs exchange two bytes -/
theorem xorSwap_spec {x y : UInt8} {mid : List UInt8} {i j : ℕ} (hj : j = pre.length)
    (hi : i = pre.length + 1 + mid.length) :
    xorSwap (pre ++ x :: (mid ++ y :: post)) i j = .ok (pre ++ y :: (mid ++ x :: post)) := by
  have happ : ∀ a b : UInt8, pre ++ a :: (mid ++ b :: post) = (pre ++ a :: mid) ++ b :: post := by simp
  have hlen : ∀ a : UInt8, i = (pre ++ a :: mid).length := fun a => by
    rw [hi, List.length_append, List.length_cons]
    omega
  have hri : ∀ a b : UInt8, (read (pre ++ a :: (mid ++ b :: post)) i : Except Err UInt8) = .ok b :=
    fun a b => read_at (happ a b) (hlen a)
  have hrj : ∀ a b : UInt8, (read (pre ++ a :: (mid ++ b :: post)) j : Except Err UInt8) = .ok a := fun a b => read_at rfl hj
  have hwi : ∀ a b : UInt8, xorStore (pre ++ a :: (mid ++ b :: post)) i i j = .ok (pre ++ a :: (mid ++ (b ^^^ a) :: post)) :=
    fun a b => (xorStore_of (hri a b) (hrj a b) (happ a b) (hlen a)).trans (by rw [happ])
  have hwj : ∀ a b : UInt8, xorStore (pre ++ a :: (mid ++ b :: post)) j i j = .ok (pre ++ (b ^^^ a) :: (mid ++ b :: post)) :=
    fun a b => xorStore_of (hri a b) (hrj a b) rfl hj
  have hfst : y ^^^ x ^^^ x = y := by rw [UInt8.xor_assoc, UInt8.xor_self, UInt8.xor_zero]
  have hsnd : y ^^^ x ^^^ y = x := by rw [UInt8.xor_comm y x, UInt8.xor_assoc, UInt8.xor_self, UInt8.xor_zero]
  calc xorSwap (pre ++ x :: (mid ++ y :: post)) i j
      = (xorStore (pre ++ x :: (mid ++ (y ^^^ x) :: post)) j i j >>= fun buf => xorStore buf i i j) := by
        unfold xorSwap
        rw [hwi]
        rfl
    _ = xorStore (pre ++ y :: (mid ++ (y ^^^ x) :: post)) i i j := by
        rw [hwj, hfst]
        rfl
    _ = .ok (pre ++ y :: (mid ++ x :: post)) := by rw [hwi, hsnd]

/-- two indices that move towards each other reverse what is between them -/
theorem strrevLoop_spec {i j : ℤ} (hj : s + j.toNat = pre.length) (hj0 : 0 ≤ j) (hi : i = j + str.length - 1)
    (hfuel : str.length < fuel) :
    strrevLoop s fuel (pre ++ str ++ post) i j = .ok (pre ++ str.reverse ++ post) := by
  induction fuel generalizing pre str post i j with
  | zero => omega
  | succ fuel ih =>
    unfold strrevLoop
    split_ifs with hgt
    · -- at least two bytes are left: the first and the last are exchanged
      obtain ⟨x, rest, rfl⟩ : ∃ x rest, str = x :: rest := by
        apply List.exists_cons_of_ne_nil
        rintro rfl
        rw [List.length_nil] at hi
        omega
      rw [List.length_cons] at hi hfuel
      obtain ⟨mid, y, rfl⟩ : ∃ mid y, rest = mid ++ [y] := by
        rcases List.eq_nil_or_concat rest with rfl | ⟨mid, y, h⟩
        · rw [List.length_nil] at hi
          omega
        · exact ⟨mid, y, by rw [h, List.concat_eq_append]⟩
      rw [List.length_append, List.length_singleton] at hi hfuel
      have hswap := @xorSwap_spec pre post x y mid (s + i.toNat) (s + j.toNat) hj (by omega)
      have happ : pre ++ x :: (mid ++ [y]) ++ post = pre ++ x :: (mid ++ y :: post) := by simp
      have hnext : pre ++ y :: (mid ++ x :: post) = (pre ++ [y]) ++ mid ++ (x :: post) := by simp
      have hpre : s + (j + 1).toNat = (pre ++ [y]).length := by
        rw [List.length_append, List.length_singleton]
        omega
      rw [happ, hswap]
      calc strrevLoop s fuel (pre ++ y :: (mid ++ x :: post)) (i - 1) (j + 1)
          = .ok ((pre ++ [y]) ++ mid.reverse ++ (x :: post)) := by
            rw [hnext]
            exact ih hpre (by omega) (by omega) (by omega)
        _ = .ok (pre ++ (x :: (mid ++ [y])).reverse ++ post) := by simp
    · -- at most one byte is left
      have hshort : str.length ≤ 1 := by omega
      have hrev : str.reverse = str := by
        match str, hshort with
        | [], _ => rfl
        | [x], _ => rfl
      rw [hrev]

/-- **Reversal.** -/
theorem strrev_spec (hstr : 0 ∉ str) (hs : s = pre.length) :
    strrev (pre ++ str ++ 0 :: post) s = .ok (pre ++ str.reverse ++ 0 :: post) := by
  unfold strrev
  rw [strlen_spec hstr hs]
  exact strrevLoop_spec (by simp [hs]) le_rfl (by omega) (Nat.lt_succ_self _)

/-! ## Upper case -/

/-- the code of an upper-case letter -/
theorem toupper_toNat {c : UInt8} (hc : islower c = true) : (toupper c).toNat = c.toNat - 32 ∧ 97 ≤ c.toNat := by
  have hle : chr 'a' ≤ c ∧ c ≤ chr 'z' := by simpa [islower] using hc
  have ha : (chr 'a').toNat = 97 := rfl
  have hz : (chr 'z').toNat = 122 := rfl
  have hshift : (chr 'A' - chr 'a').toNat = 224 := rfl
  rw [UInt8.le_iff_toNat_le, UInt8.le_iff_toNat_le, ha, hz] at hle
  unfold toupper
  rw [if_pos hc, UInt8.toNat_add, hshift]
  omega

theorem toupper_ne_zero {c : UInt8} (hc : c ≠ 0) : toupper c ≠ 0 := by
  cases hlow : islower c with
  | false =>
    unfold toupper
    rwa [hlow]
  | true =>
    intro h
    obtain ⟨hup, hge⟩ := toupper_toNat hlow
    rw [h] at hup
    simp at hup
    omega

theorem toupper_eq_iff (c : UInt8) : toupper c = c ↔ islower c = false := by
  constructor
  · intro h
    by_contra hlow
    obtain ⟨hup, hge⟩ := toupper_toNat (Bool.eq_true_of_not_eq_false hlow)
    rw [h] at hup
    omega
  · intro h
    unfold toupper
    rw [h, if_neg Bool.false_ne_true]

/-- an upper-cased character is not in lower case -/
theorem islower_toupper (c : UInt8) : islower (toupper c) = false := by
  cases hlow : islower c with
  | false => rwa [(toupper_eq_iff c).2 hlow]
  | true =>
    have hle : chr 'a' ≤ c ∧ c ≤ chr 'z' := by simpa [islower] using hlow
    have hup := (toupper_toNat hlow).1
    have hz := UInt8.le_iff_toNat_le.1 hle.2
    have hbelow : ¬ chr 'a' ≤ toupper c := by
      rw [UInt8.le_iff_toNat_le, hup]
      have ha : (chr 'a').toNat = 97 := rfl
      have hz' : (chr 'z').toNat = 122 := rfl
      omega
    simp [islower, hbelow]

/-- upper-casing a second time changes nothing -/
theorem toupper_toupper (c : UInt8) : toupper (toupper c) = toupper c := (toupper_eq_iff _).2 (islower_toupper c)

theorem upperAt_spec {c : UInt8} {p : ℕ} (hp : p = pre.length) :
    upperAt (pre ++ c :: post) p = .ok (pre ++ toupper c :: post) := by
  unfold upperAt
  rw [read_at rfl hp, ok_bind]
  split_ifs with hlow
  · exact write_at rfl hp
  · unfold toupper
    rw [if_neg hlow]

/-- the bytes `done` were upper-cased in earlier rounds -/
theorem strupperLoop_spec {done : List UInt8} (hdone : 0 ∉ done) (hstr : 0 ∉ str) (hs : s = pre.length)
    (hfuel : str.length < fuel) :
    strupperLoop s fuel (pre ++ (done ++ str) ++ 0 :: post) done.length =
      .ok (pre ++ (done ++ str.map toupper) ++ 0 :: post) := by
  induction str generalizing done fuel with
  | nil =>
    obtain ⟨fuel, rfl⟩ : ∃ f, fuel = f + 1 := ⟨fuel - 1, by omega⟩
    rw [strupperLoop, List.append_nil, strlen_spec hdone hs, ok_bind, if_neg (Nat.lt_irrefl _), List.map_nil,
      List.append_nil]
  | cons c str ih =>
    obtain ⟨fuel, rfl⟩ : ∃ f, fuel = f + 1 := ⟨fuel - 1, by omega⟩
    have hc : c ≠ 0 := fun h => hstr (h ▸ List.mem_cons_self)
    have hrest : 0 ∉ str := fun h => hstr (List.mem_cons_of_mem c h)
    have hall : 0 ∉ done ++ c :: str := by simp [hdone, hstr]
    have hdone' : 0 ∉ done ++ [toupper c] := by simp [hdone, (toupper_ne_zero hc).symm]
    have happ : ∀ d : UInt8, pre ++ (done ++ d :: str) ++ 0 :: post = (pre ++ done) ++ d :: (str ++ 0 :: post) := by simp
    have hpos : s + done.length = (pre ++ done).length := by rw [hs, List.length_append]
    have hlt : done.length < (done ++ c :: str).length := by simp
    have hnext : done ++ toupper c :: str = (done ++ [toupper c]) ++ str := by simp
    calc strupperLoop s (fuel + 1) (pre ++ (done ++ c :: str) ++ 0 :: post) done.length
        = strupperLoop s fuel (pre ++ (done ++ toupper c :: str) ++ 0 :: post) (done.length + 1) := by
          rw [strupperLoop, strlen_spec hall hs, ok_bind, if_pos hlt, happ c, upperAt_spec hpos, ok_bind, happ]
      _ = .ok (pre ++ (done ++ [toupper c] ++ str.map toupper) ++ 0 :: post) := by
          rw [hnext, ← ih hdone' hrest (Nat.lt_of_succ_lt_succ hfuel), List.length_append, List.length_singleton]
      _ = .ok (pre ++ (done ++ (c :: str).map toupper) ++ 0 :: post) := by simp

theorem toupper_no_nul (hstr : 0 ∉ str) : 0 ∉ str.map toupper := by
  intro h
  obtain ⟨c, hc, hzero⟩ := List.mem_map.1 h
  refine toupper_ne_zero ?_ hzero
  rintro rfl
  exact hstr hc

/-- **Upper case.** -/
theorem strupper_spec (hstr : 0 ∉ str) (hs : s = pre.length) :
    strupper (pre ++ str ++ 0 :: post) s = .ok (pre ++ str.map toupper ++ 0 :: post) := by
  refine @strupperLoop_spec pre str post s _ [] (by simp) hstr hs ?_
  simp only [List.length_append, List.length_cons]
  omega

end Specs

end Gubos.Text
