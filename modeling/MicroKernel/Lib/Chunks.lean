import Mathlib.Data.List.Infix

set_option autoImplicit false

/-! # Runs that yield chunks

A run whose steps each yield a list yields their concatenation. What holds of the run at its start
and is kept by a step, taken together with what has been yielded, holds at its end.
-/

namespace MicroKernel.Lib

variable {σ α : Type}

/-- A run of `step` from one state to another, and what it yields. -/
inductive Yields (step : σ → List α → σ → Prop) : σ → List α → σ → Prop where
  | start (s : σ) : Yields step s [] s
  | step {s s₁ s₂ : σ} {out chunk : List α} (h : Yields step s out s₁) (hs : step s₁ chunk s₂) :
      Yields step s (out ++ chunk) s₂

/-- The induction over a run. -/
theorem Yields.invariant {step : σ → List α → σ → Prop} (inv : List α → σ → Prop) {s s' : σ}
    {out : List α} (h : Yields step s out s') (h0 : inv [] s)
    (hstep : ∀ out s₁ chunk s₂, inv out s₁ → step s₁ chunk s₂ → inv (out ++ chunk) s₂) :
    inv out s' := by
  induction h with
  | start => exact h0
  | step _ hs ih => exact hstep _ _ _ _ ih hs

theorem Yields.single {step : σ → List α → σ → Prop} {s s' : σ} {chunk : List α}
    (h : step s chunk s') : Yields step s chunk s' := .step (.start s) h

end MicroKernel.Lib
