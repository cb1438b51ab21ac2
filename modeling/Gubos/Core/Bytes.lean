/-
Byte-addressed memory with little-endian 32-bit words.

Addresses are natural numbers; wrapping at 2^32 is `u32`, and is done where a program computes an address. A word may
start at any byte.

- `load32_store32`, `load32_store32_ne`: reading back a word, and a word that does not overlap the one written;
- `load32_congr`: a word depends on its four bytes only;
- `store32_of_outside`: a store changes no other byte;
- `fill_succ`: a range that is written byte by byte.
-/
import Mathlib.Tactic

namespace Gubos.Core

/-- 32-bit wrap-around -/
def u32 (n : ℕ) : ℕ := n % 4294967296

theorem u32_lt (n : ℕ) : u32 n < 4294967296 := Nat.mod_lt _ (by decide)

theorem u32_of_lt {n : ℕ} (h : n < 4294967296) : u32 n = n := Nat.mod_eq_of_lt h

abbrev Mem := ℕ → UInt8

def load32 (m : Mem) (a : ℕ) : ℕ :=
  (m a).toNat + 256 * (m (a + 1)).toNat + 65536 * (m (a + 2)).toNat + 16777216 * (m (a + 3)).toNat

def load16 (m : Mem) (a : ℕ) : ℕ := (m a).toNat + 256 * (m (a + 1)).toNat

def load64 (m : Mem) (a : ℕ) : ℕ := load32 m a + 4294967296 * load32 m (a + 4)

def store8 (m : Mem) (a : ℕ) (v : UInt8) : Mem := Function.update m a v

def store32 (m : Mem) (a v : ℕ) : Mem := fun x =>
  if x = a then UInt8.ofNat v
  else if x = a + 1 then UInt8.ofNat (v / 256)
  else if x = a + 2 then UInt8.ofNat (v / 65536)
  else if x = a + 3 then UInt8.ofNat (v / 16777216)
  else m x

/-- the bytes of `f` are written to `n` addresses from `a` on -/
def fill (m : Mem) (a n : ℕ) (f : ℕ → UInt8) : Mem := fun x => if a ≤ x ∧ x < a + n then f (x - a) else m x

/-- the memory that holds the words `ws` from address 0 on, and zeros after them -/
def ofWords (ws : List ℕ) : Mem := fun a => UInt8.ofNat (ws.getD (a / 4) 0 / 256 ^ (a % 4))

variable {m m' : Mem} {a b v : ℕ}

theorem load32_lt (m : Mem) (a : ℕ) : load32 m a < 4294967296 := by
  have h0 := (m a).toNat_lt
  have h1 := (m (a + 1)).toNat_lt
  have h2 := (m (a + 2)).toNat_lt
  have h3 := (m (a + 3)).toNat_lt
  unfold load32
  omega

theorem load32_congr (h : ∀ x, a ≤ x → x < a + 4 → m' x = m x) : load32 m' a = load32 m a := by
  unfold load32
  rw [h a (by omega) (by omega), h (a + 1) (by omega) (by omega), h (a + 2) (by omega) (by omega),
    h (a + 3) (by omega) (by omega)]

theorem store32_of_outside (m : Mem) (v : ℕ) (h : b < a ∨ a + 4 ≤ b) : store32 m a v b = m b := by
  unfold store32
  rw [if_neg (by omega), if_neg (by omega), if_neg (by omega), if_neg (by omega)]

theorem load32_store32 (m : Mem) (a : ℕ) (h : v < 4294967296) : load32 (store32 m a v) a = v := by
  have e0 : store32 m a v a = UInt8.ofNat v := by simp [store32]
  have e1 : store32 m a v (a + 1) = UInt8.ofNat (v / 256) := by simp [store32]
  have e2 : store32 m a v (a + 2) = UInt8.ofNat (v / 65536) := by simp [store32]
  have e3 : store32 m a v (a + 3) = UInt8.ofNat (v / 16777216) := by simp [store32]
  unfold load32
  rw [e0, e1, e2, e3]
  simp only [UInt8.toNat_ofNat']
  omega

theorem load32_store32_ne (m : Mem) (v : ℕ) (h : a + 4 ≤ b ∨ b + 4 ≤ a) :
    load32 (store32 m a v) b = load32 m b :=
  load32_congr fun x h1 h2 => store32_of_outside m v (by omega)

theorem fill_inside (m : Mem) {n k : ℕ} (f : ℕ → UInt8) (h : k < n) : fill m a n f (a + k) = f k := by
  unfold fill
  rw [if_pos (by omega), Nat.add_sub_cancel_left]

theorem fill_outside (m : Mem) {n : ℕ} (f : ℕ → UInt8) (h : b < a ∨ a + n ≤ b) : fill m a n f b = m b := by
  unfold fill
  rw [if_neg (by omega)]

theorem fill_zero (m : Mem) (a : ℕ) (f : ℕ → UInt8) : fill m a 0 f = m := by
  funext x
  exact fill_outside m f (by omega)

/-- the next byte -/
theorem fill_succ (m : Mem) (a n : ℕ) (f : ℕ → UInt8) : store8 (fill m a n f) (a + n) (f n) = fill m a (n + 1) f := by
  funext x
  unfold store8
  by_cases hx : x = a + n
  · subst hx
    rw [Function.update_self, fill_inside m f (Nat.lt_succ_self n)]
  · rw [Function.update_of_ne hx]
    unfold fill
    by_cases hin : a ≤ x ∧ x < a + n
    · rw [if_pos hin, if_pos (by omega)]
    · rw [if_neg hin, if_neg (by omega)]

end Gubos.Core
