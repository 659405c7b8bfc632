import Mathlib.Data.List.Basic

set_option relaxedAutoImplicit false
set_option autoImplicit false

/-!
# Runs of a system

A system takes labelled steps. A run is a sequence of them, and what each step keeps every run
keeps.

## Main definitions

* `Run` — the states a system reaches by a sequence of steps.
* `Guarded` — the steps that meet a condition on the state before them.

## Main results

* `Run.invariant` — what holds at the start and is kept by each step holds at the end.
* `Run.guarded_or` — a run meets a condition in all steps, or something goes wrong for good.
-/

variable {σ α : Type}

/-- The states that are reached by a sequence of steps. -/
inductive Run (step : σ → α → σ → Prop) : σ → List α → σ → Prop
  | nil (s : σ) : Run step s [] s
  | cons {s t u : σ} {a : α} {as : List α} (first : step s a t) (rest : Run step t as u) :
    Run step s (a :: as) u

/-- The steps that meet a condition. -/
def Guarded (step : σ → α → σ → Prop) (cond : σ → α → Prop) (s : σ) (a : α) (t : σ) : Prop :=
  step s a t ∧ cond s a

namespace Run

variable {step : σ → α → σ → Prop} {s t : σ} {as : List α}

/-- **What each step keeps, a run keeps.** -/
theorem invariant {P : σ → Prop} (hrun : Run step s as t) (hs : P s)
    (hstep : ∀ {s a t}, P s → step s a t → P t) : P t := by
  induction hrun with
  | nil s => exact hs
  | cons first rest ih => exact ih (hstep hs first)

/-- Steps that meet a condition are steps. -/
theorem of_guarded {cond : σ → α → Prop} (hrun : Run (Guarded step cond) s as t) :
    Run step s as t := by
  induction hrun with
  | nil s => exact .nil s
  | cons first rest ih => exact .cons first.1 ih

/-- **A run meets the condition in all steps, or something goes wrong for good.** -/
theorem guarded_or {cond : σ → α → Prop} {P Q : σ → Prop} (hrun : Run step s as t) (hs : P s)
    (hgood : ∀ {s a t}, P s → step s a t → cond s a → P t)
    (hbad : ∀ {s a t}, P s → step s a t → ¬ cond s a → Q t)
    (hstays : ∀ {s a t}, Q s → step s a t → Q t) :
    Run (Guarded step cond) s as t ∧ P t ∨ Q t := by
  induction hrun with
  | nil s => exact .inl ⟨.nil s, hs⟩
  | cons first rest ih =>
    rename_i s t u a as
    by_cases hcond : cond s a
    · refine (ih (hgood hs first hcond)).imp_left fun hboth => ?_
      exact ⟨.cons ⟨first, hcond⟩ hboth.1, hboth.2⟩
    · exact .inr (rest.invariant (hbad hs first hcond) hstays)

end Run
