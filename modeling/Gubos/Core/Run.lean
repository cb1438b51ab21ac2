/-
Runs of a fallible state machine.

A machine is a step function `step : σ → ο → Except ε σ`: an operation either returns the next state or fails (a panic,
a NULL dereference, a loop that does not end). `Runs step C s ops t` is a run in which every operation is taken in a
state that meets `C` and every operation returns. A prefix of such a run is again such a run, so a property of the last
state of every run is a property of every state a run goes through.

- `bind_ok`, `ok_bind`, `error_iff`: what a fallible computation that returned went through, and when it failed;
- `Runs.inv`, `Runs.inv_trace`: the invariant rule, and the same with the operations done so far in view;
- `Runs.mono`: changing the condition;
- `Runs.of_exec`: a run got by executing the operations, for concrete ones.
-/
import Mathlib.Tactic

namespace Gubos.Core

variable {σ ο ε α β : Type}

theorem bind_ok {x : Except ε α} {f : α → Except ε β} {b : β} :
    (x >>= f) = .ok b ↔ ∃ a, x = .ok a ∧ f a = .ok b := by
  cases x with
  | error e => simp [bind, Except.bind]
  | ok a => simp [bind, Except.bind]

theorem ok_bind (a : α) (f : α → Except ε β) : ((.ok a : Except ε α) >>= f) = f a := rfl

theorem error_iff {x : Except ε α} : (∃ e, x = .error e) ↔ ¬ ∃ a, x = .ok a := by
  cases x with
  | error e => simp
  | ok a => simp

/-- a run whose operations all return, each taken in a state that meets `C` -/
inductive Runs (step : σ → ο → Except ε σ) (C : σ → ο → Prop) : σ → List ο → σ → Prop
  | nil (s : σ) : Runs step C s [] s
  | cons {s t u : σ} {o : ο} {ops : List ο} :
      C s o → step s o = .ok t → Runs step C t ops u → Runs step C s (o :: ops) u

namespace Runs

variable {step : σ → ο → Except ε σ} {C D : σ → ο → Prop} {s t : σ} {l : List ο}

/-- **Invariant rule.** What the first state has and every conforming step preserves, the last state has. -/
theorem inv {P : σ → Prop} (hstep : ∀ s o t, P s → C s o → step s o = .ok t → P t)
    (hr : Runs step C s l t) (hs : P s) : P t := by
  induction hr with
  | nil s => exact hs
  | cons hC hok _ ih => exact ih (hstep _ _ _ hs hC hok)

/-- the invariant rule with the operations done so far: `P p s` is about the state `s` reached by `p` -/
theorem inv_trace {P : List ο → σ → Prop} {p : List ο}
    (hstep : ∀ p s o t, P p s → C s o → step s o = .ok t → P (p ++ [o]) t)
    (hr : Runs step C s l t) (hs : P p s) : P (p ++ l) t := by
  induction hr generalizing p with
  | nil s => simpa using hs
  | cons hC hok _ ih =>
    have h := ih (hstep _ _ _ _ hs hC hok)
    rwa [List.append_assoc, List.singleton_append] at h

theorem mono (h : ∀ s o, C s o → D s o) (hr : Runs step C s l t) : Runs step D s l t := by
  induction hr with
  | nil s => exact .nil s
  | cons hC hok _ ih => exact .cons (h _ _ hC) hok ih

/-- run the operations, stopping at the first that fails -/
def exec (step : σ → ο → Except ε σ) : σ → List ο → Except ε σ
  | s, [] => .ok s
  | s, o :: ops => (step s o).bind fun t => exec step t ops

/-- every operation returns and is taken in a state that meets `C` -/
def Conforms (step : σ → ο → Except ε σ) (C : σ → ο → Prop) : σ → List ο → Prop
  | _, [] => True
  | s, o :: ops => C s o ∧
    match step s o with
    | .ok t => Conforms step C t ops
    | .error _ => False

instance decConforms (step : σ → ο → Except ε σ) (C : σ → ο → Prop) [∀ s o, Decidable (C s o)] (a : σ)
    (ops : List ο) : Decidable (Conforms step C a ops) :=
  match ops with
  | [] => .isTrue trivial
  | o :: ops =>
    match h : step a o with
    | .ok b =>
      haveI := decConforms step C b ops
      decidable_of_iff (C a o ∧ Conforms step C b ops) (by simp only [Conforms, h])
    | .error _ => .isFalse fun hc => by simp only [Conforms, h, and_false] at hc

/-- what `exec` returns is the end of a run -/
theorem of_exec (hC : Conforms step C s l) (h : exec step s l = .ok t) : Runs step C s l t := by
  induction l generalizing s with
  | nil => cases h; exact .nil _
  | cons o l ih =>
    obtain ⟨h1, h2⟩ := hC
    simp only [exec] at h
    cases ho : step s o with
    | error e => rw [ho] at h; cases h
    | ok u =>
      rw [ho] at h h2
      exact .cons h1 ho (ih h2 h)

end Runs

/-- the value a fallible computation returns, or `d` if it fails -/
def returned (d : α) : Except ε α → α
  | .ok a => a
  | .error _ => d

theorem eq_returned {x : Except ε α} (d : α) (h : x.toBool = true) : x = .ok (returned d x) := by
  cases x with
  | error e => cases h
  | ok a => rfl

theorem eq_returned_pair {x : Except ε (α × β)} (d : α × β) {b : β} (h : x.toBool = true) (hb : (returned d x).2 = b) :
    x = .ok ((returned d x).1, b) := by
  rw [← hb]
  exact eq_returned d h

end Gubos.Core
