/-
Computations that check what they read.

A program that reads a buffer of `len` bytes without looking at its length is modelled twice: as it is, over a total function
from offsets to bytes, and with a check before every read. The checked computation stops at the first read that is out of
bounds.

`Guarded P x y` says that the checked computation `x` does what the unchecked `y` does unless it stops so, that `P` is enough
for it never to stop so, and that `P` holds whenever `x` returns.

- `check_bind`, `check_bind_ok`: a check that is passed, and one that was;
- `guarded_unchecked`, `guarded_check`, `guarded_bind`: the rules for a step without reads, for a check, and for a sequence;
- `guarded_foldlM`: the rule for a counting loop, with an invariant.
-/
import Gubos.Core.Run

namespace Gubos.Core

variable {ε α β σ : Type}

inductive Checked (ε : Type) where
  | fault (e : ε)
  | outOfBounds (offset : ℕ)
deriving DecidableEq, Repr

/-- a computation that reads nothing -/
def unchecked : Except ε α → Except (Checked ε) α
  | .ok a => .ok a
  | .error e => .error (.fault e)

/-- `n` bytes at an offset are about to be read -/
def check (len offset n : ℕ) : Except (Checked ε) Unit := if offset + n ≤ len then .ok () else .error (.outOfBounds offset)

/-- no read is out of bounds -/
def InBounds (x : Except (Checked ε) α) : Prop := ∀ offset, x ≠ .error (.outOfBounds offset)

structure Guarded (P : Prop) (x : Except (Checked ε) α) (y : Except ε α) : Prop where
  sim : InBounds x → x = unchecked y
  enough : P → InBounds x
  needed : ∀ a, x = .ok a → P

variable {P Q : Prop} {x : Except (Checked ε) α} {y : Except ε α}

@[simp] theorem unchecked_ok {a : α} : unchecked y = .ok a ↔ y = .ok a := by
  cases y <;> simp [unchecked]

theorem inBounds_unchecked (y : Except ε α) : InBounds (unchecked y) := by
  intro offset
  cases y <;> simp [unchecked]

theorem inBounds_ok {a : α} : InBounds (.ok a : Except (Checked ε) α) := fun _ => by simp

theorem Guarded.ok_of_ok (h : Guarded P x y) {a : α} (hx : x = .ok a) : y = .ok a := by
  have hsim := h.sim (hx ▸ inBounds_ok)
  rw [hx] at hsim
  exact unchecked_ok.1 hsim.symm

theorem Guarded.congr (h : Guarded P x y) (hPQ : P ↔ Q) : Guarded Q x y :=
  ⟨h.sim, fun hq => h.enough (hPQ.2 hq), fun a ha => hPQ.1 (h.needed a ha)⟩

theorem guarded_unchecked (y : Except ε α) : Guarded True (unchecked y) y :=
  ⟨fun _ => rfl, fun _ => inBounds_unchecked y, fun _ _ => trivial⟩

theorem check_bind {len offset n : ℕ} {f : Unit → Except (Checked ε) α} (h : offset + n ≤ len) :
    (check len offset n >>= f) = f () := by
  unfold check
  rw [if_pos h]
  rfl

theorem check_bind_ok {len offset n : ℕ} {f : Unit → Except (Checked ε) α} {a : α}
    (h : (check len offset n >>= f) = .ok a) : f () = .ok a := by
  unfold check at h
  split_ifs at h
  · exact h
  · cases h

/-- a check, and what follows when it is passed -/
theorem guarded_check {len offset n : ℕ} {f : Unit → Except (Checked ε) α} (h : Guarded P (f ()) y) :
    Guarded (offset + n ≤ len ∧ P) (check len offset n >>= f) y := by
  unfold check
  split_ifs with hin
  · have hbind : ((.ok () : Except (Checked ε) Unit) >>= f) = f () := rfl
    rw [hbind]
    exact h.congr (by simp [hin])
  · refine ⟨fun hb => absurd rfl (hb offset), fun hp => absurd hp.1 hin, fun a ha => ?_⟩
    cases ha

/-- one computation after another -/
theorem guarded_bind {f : α → Except (Checked ε) β} {g : α → Except ε β} (hx : Guarded P x y)
    (hf : ∀ a, y = .ok a → Guarded Q (f a) (g a)) : Guarded (P ∧ Q) (x >>= f) (y >>= g) := by
  cases x with
  | error e =>
    have hbind : ((.error e : Except (Checked ε) α) >>= f) = .error e := rfl
    rw [hbind]
    cases e with
    | outOfBounds offset =>
      exact ⟨fun hb => absurd rfl (hb offset), fun hp => absurd rfl (hx.enough hp.1 offset), fun b hb => by cases hb⟩
    | fault e =>
      have hsim := hx.sim fun _ => by simp
      refine ⟨fun _ => ?_, fun _ _ => by simp, fun b hb => by cases hb⟩
      cases y with
      | ok a => cases hsim
      | error e' =>
        cases hsim
        rfl
  | ok a =>
    have hy := hx.ok_of_ok rfl
    have hfa := hf a hy
    subst hy
    exact ⟨hfa.sim, fun hp => hfa.enough hp.2, fun b hb => ⟨hx.needed a rfl, hfa.needed b hb⟩⟩

/-- **Invariant rule** for a counting loop: each round is guarded by its own condition. -/
theorem guarded_foldlM {I : ℕ → σ → Prop} {R : ℕ → Prop} {f : σ → ℕ → Except (Checked ε) σ} {g : σ → ℕ → Except ε σ}
    (hround : ∀ i s, I i s → Guarded (R i) (f s i) (g s i))
    (hinv : ∀ i s s', I i s → g s i = .ok s' → I (i + 1) s') (n i : ℕ) (s : σ) (hs : I i s) :
    Guarded (∀ j, i ≤ j → j < i + n → R j) ((List.range' i n).foldlM f s) ((List.range' i n).foldlM g s) := by
  induction n generalizing i s with
  | zero => exact ⟨fun _ => rfl, fun _ => inBounds_ok, fun _ _ j h1 h2 => absurd h2 (by omega)⟩
  | succ n ih =>
    rw [List.range'_succ, List.foldlM_cons, List.foldlM_cons]
    refine (guarded_bind (hround i s hs) fun s' hs' => ih (i + 1) s' (hinv i s s' hs hs')).congr ?_
    constructor
    · rintro ⟨hi, hrest⟩ j h1 h2
      rcases Nat.eq_or_lt_of_le h1 with rfl | hlt
      · exact hi
      · exact hrest j hlt (by omega)
    · intro hall
      exact ⟨hall i le_rfl (by omega), fun j h1 h2 => hall j (by omega) (by omega)⟩

end Gubos.Core
