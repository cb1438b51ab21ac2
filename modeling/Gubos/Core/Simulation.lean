/-
Simulation of a machine by a more abstract one.

A machine answers operations: `step : σ → ο → Except ε (σ × α)`. `respond` is a run, with its answers.

A computation follows another (`Follows F R`) if both return, with results that are related by `R`, or both fail with the same
error. The concrete one may also fail with an error of `F`, which stands for what the abstract one does not have: a resource that
runs out.

- `Follows.bind`: step by step;
- `Follows.respond`: a machine whose steps follow those of another gives the same answers in every run;
- `Part.respond`: a part of a machine that is touched by its own operations only gives the answers that it gives alone.
-/
import Gubos.Core.Run

namespace Gubos.Core

variable {σ τ ο κ ε α β γ δ : Type}

/-- `x` ends as `y` does, up to `R`, or fails with an error of `F` -/
inductive Follows (F : ε → Prop) (R : α → β → Prop) : Except ε α → Except ε β → Prop
  | ok {a : α} {b : β} : R a b → Follows F R (.ok a) (.ok b)
  | error (e : ε) : Follows F R (.error e) (.error e)
  | fails {e : ε} (y : Except ε β) : F e → Follows F R (.error e) y

namespace Follows

variable {F : ε → Prop} {R : α → β → Prop} {S : γ → δ → Prop} {x : Except ε α} {y : Except ε β}

theorem bind {f : α → Except ε γ} {g : β → Except ε δ} (hx : Follows F R x y)
    (hf : ∀ a b, R a b → Follows F S (f a) (g b)) : Follows F S (x >>= f) (y >>= g) := by
  cases hx with
  | ok hab => exact hf _ _ hab
  | error e => exact .error e
  | fails y he => exact .fails _ he

/-- a step of the concrete one that the abstract one does not have -/
theorem bind_left {f : α → Except ε γ} {b : β} {z : Except ε δ} (hx : Follows F R x (.ok b))
    (hf : ∀ a, R a b → Follows F S (f a) z) : Follows F S (x >>= f) z := by
  cases hx with
  | ok hab => exact hf _ hab
  | fails y he => exact .fails _ he

/-- a step that only the abstract one has -/
theorem bind_right {S : α → δ → Prop} {g : β → Except ε δ} (hx : Follows F R x y)
    (hg : ∀ a b, R a b → Follows F S (.ok a) (g b)) : Follows F S x (y >>= g) := by
  cases hx with
  | ok hab => exact hg _ _ hab
  | error e => exact .error e
  | fails y he => exact .fails _ he

theorem mono {R' : α → β → Prop} (hx : Follows F R x y) (h : ∀ a b, R a b → R' a b) : Follows F R' x y := by
  cases hx with
  | ok hab => exact .ok (h _ _ hab)
  | error e => exact .error e
  | fails y he => exact .fails y he

/-- where the concrete one returns, so does the abstract one -/
theorem returns {a : α} (h : Follows F R (.ok a) y) : ∃ b, y = .ok b ∧ R a b := by
  cases h with
  | ok hab => exact ⟨_, rfl, hab⟩

end Follows

/-! ## Runs with answers -/

/-- the state after a run, and the answers to its operations -/
def respond (step : σ → ο → Except ε (σ × α)) : σ → List ο → Except ε (σ × List α)
  | s, [] => .ok (s, [])
  | s, o :: ops => do
    let (t, a) ← step s o
    let (u, as) ← respond step t ops
    .ok (u, a :: as)

/-- **Simulation.** What one step keeps, a run keeps, and all answers are the same. -/
theorem Follows.respond {F : ε → Prop} {R : σ → τ → Prop} {C : ο → Prop} {step : σ → ο → Except ε (σ × α)}
    {absStep : τ → ο → Except ε (τ × α)} {s : σ} {t : τ} {ops : List ο}
    (hstep : ∀ s t o, R s t → C o → Follows F (fun x y => R x.1 y.1 ∧ x.2 = y.2) (step s o) (absStep t o)) (hs : R s t)
    (hC : ∀ o ∈ ops, C o) :
    Follows F (fun x y => R x.1 y.1 ∧ x.2 = y.2) (Core.respond step s ops) (Core.respond absStep t ops) := by
  induction ops generalizing s t with
  | nil => exact .ok ⟨hs, rfl⟩
  | cons o ops ih =>
    refine (hstep s t o hs (hC o List.mem_cons_self)).bind ?_
    rintro ⟨s₁, a⟩ ⟨t₁, b⟩ ⟨h₁, hab⟩
    refine (ih h₁ fun o ho => hC o (List.mem_cons_of_mem _ ho)).bind ?_
    rintro ⟨s₂, as⟩ ⟨t₂, bs⟩ ⟨h₂, habs⟩
    exact .ok ⟨h₂, congrArg₂ List.cons hab habs⟩

/-! ## Parts of a machine -/

/-- a part of a machine is itself a machine: `own o` is what operation `o` asks of it, if anything -/
structure Part (step : σ → ο → Except ε (σ × α)) (act : τ → κ → Except ε (τ × α)) (part : σ → τ → Prop)
    (own : ο → Option κ) : Prop where
  acts : ∀ {s s' : σ} {t : τ} {o : ο} {k : κ} {a : α}, part s t → own o = some k → step s o = .ok (s', a) →
    ∃ t', act t k = .ok (t', a) ∧ part s' t'
  idle : ∀ {s s' : σ} {t : τ} {o : ο} {a : α}, part s t → own o = none → step s o = .ok (s', a) → part s' t

/-- the answers to the operations of a part -/
def ownAnswers (own : ο → Option κ) : List ο → List α → List α
  | o :: ops, a :: as => if (own o).isSome then a :: ownAnswers own ops as else ownAnswers own ops as
  | _, _ => []

/-- **A part alone.** -/
theorem Part.respond {step : σ → ο → Except ε (σ × α)} {act : τ → κ → Except ε (τ × α)} {part : σ → τ → Prop}
    {own : ο → Option κ} (hp : Part step act part own) {s s' : σ} {t : τ} {ops : List ο} {as : List α} (hs : part s t)
    (hok : Core.respond step s ops = .ok (s', as)) :
    ∃ t', Core.respond act t (ops.filterMap own) = .ok (t', ownAnswers own ops as) ∧ part s' t' := by
  induction ops generalizing s t as with
  | nil =>
    cases hok
    exact ⟨t, rfl, hs⟩
  | cons o ops ih =>
    obtain ⟨⟨s₁, a⟩, hstep, hok⟩ := bind_ok.1 hok
    obtain ⟨⟨s₂, as'⟩, hrest, hok⟩ := bind_ok.1 hok
    cases hok
    cases ho : own o with
    | none =>
      obtain ⟨t', hrun, hpart⟩ := ih (hp.idle hs ho hstep) hrest
      refine ⟨t', ?_, hpart⟩
      rw [List.filterMap_cons_none ho, ownAnswers, ho]
      exact hrun
    | some k =>
      obtain ⟨t₁, hact, hpart₁⟩ := hp.acts hs ho hstep
      obtain ⟨t', hrun, hpart⟩ := ih hpart₁ hrest
      refine ⟨t', ?_, hpart⟩
      rw [List.filterMap_cons_some ho, ownAnswers, ho]
      exact bind_ok.2 ⟨_, hact, bind_ok.2 ⟨_, hrun, rfl⟩⟩

end Gubos.Core
