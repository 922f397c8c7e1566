import Mathlib.Tactic

set_option autoImplicit false

/-! # Programs over a state, an environment and non-termination

`Prog ε σ α` is a program that reads an environment `ε`, changes a state `σ` and returns an
`α`, or never returns (`none`). The environment is what the program does not control: which of
its calls to the outside fail, and what memory it has not written to holds.

The `run_` lemmas compute what a program returns; `run_bind_eq_some` takes a program that has
returned apart.
-/

namespace MicroKernel.Lib

/-- A program with environment `ε`, state `σ` and result `α`. -/
def Prog (ε σ α : Type) : Type := ε → σ → Option (α × σ)

namespace Prog

variable {ε σ α β : Type}

/-- What the program returns from the state `s`, and the state then. -/
def run (m : Prog ε σ α) (e : ε) (s : σ) : Option (α × σ) := m e s

instance : Monad (Prog ε σ) where
  pure a := fun _ s => some (a, s)
  bind m f := fun e s => (m e s).bind fun r => f r.1 e r.2

/-- The state. -/
def get : Prog ε σ σ := fun _ s => some (s, s)

/-- Change the state. -/
def modify (f : σ → σ) : Prog ε σ Unit := fun _ s => some ((), f s)

/-- A value that depends on the environment. -/
def ask (f : ε → α) : Prog ε σ α := fun e s => some (f e, s)

/-- Run in another environment. -/
def under (g : ε → ε) (m : Prog ε σ α) : Prog ε σ α := fun e s => m (g e) s

/-- A program on a part of the state. -/
def zoom {τ : Type} (part : σ → τ) (put : σ → τ → σ) (m : Prog ε τ α) : Prog ε σ α := fun e s =>
  (m.run e (part s)).map fun r => (r.1, put s r.2)

/-- Never return. -/
def diverge : Prog ε σ α := fun _ _ => none

/-! ## Running a program -/

section run

variable (e : ε) (s : σ)

@[simp] theorem run_pure (a : α) : (pure a : Prog ε σ α).run e s = some (a, s) := rfl

@[simp] theorem run_bind (m : Prog ε σ α) (f : α → Prog ε σ β) :
    (m >>= f).run e s = (m.run e s).bind fun r => (f r.1).run e r.2 := rfl

@[simp] theorem run_get : (get : Prog ε σ σ).run e s = some (s, s) := rfl

@[simp] theorem run_modify (f : σ → σ) :
    (modify f : Prog ε σ Unit).run e s = some ((), f s) := rfl

@[simp] theorem run_ask (f : ε → α) : (ask f : Prog ε σ α).run e s = some (f e, s) := rfl

@[simp] theorem run_under (g : ε → ε) (m : Prog ε σ α) :
    (under g m).run e s = m.run (g e) s := rfl

@[simp] theorem run_diverge : (diverge : Prog ε σ α).run e s = none := rfl

@[simp] theorem run_ite (c : Prop) [Decidable c] (m m' : Prog ε σ α) :
    (if c then m else m').run e s = if c then m.run e s else m'.run e s := by
  split <;> rfl

/-- A first step that returns. -/
theorem run_bind_of_some {m : Prog ε σ α} {f : α → Prog ε σ β} {a : α} {s' : σ}
    (h : m.run e s = some (a, s')) : (m >>= f).run e s = (f a).run e s' := by
  rw [run_bind, h, Option.bind_some]

/-- A program that returns went through a state between its two parts. -/
theorem run_bind_eq_some {m : Prog ε σ α} {f : α → Prog ε σ β} {b : β} {s' : σ} :
    (m >>= f).run e s = some (b, s') ↔
      ∃ a s₁, m.run e s = some (a, s₁) ∧ (f a).run e s₁ = some (b, s') := by
  rw [run_bind, Option.bind_eq_some_iff]
  constructor
  · rintro ⟨⟨a, s₁⟩, h1, h2⟩
    exact ⟨a, s₁, h1, h2⟩
  · rintro ⟨a, s₁, h1, h2⟩
    exact ⟨(a, s₁), h1, h2⟩

/-- A program on a part of the state, where it returns. -/
theorem run_zoom_of_some {τ : Type} {part : σ → τ} {put : σ → τ → σ} {m : Prog ε τ α} {a : α} {t : τ}
    (h : m.run e (part s) = some (a, t)) : (zoom part put m).run e s = some (a, put s t) := by
  change (m.run e (part s)).map _ = _
  rw [h]
  rfl

end run

end Prog

end MicroKernel.Lib
