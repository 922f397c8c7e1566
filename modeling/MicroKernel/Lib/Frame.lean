import MicroKernel.Lib.Prog

set_option autoImplicit false

/-! # What a program changes and what it looks at

`Prog.Keeps R m`: a run of `m` relates the state before it to the state after it by `R`.
`Prog.Ignores f m`: `m` does not look at what `f` changes in a state, and does not change it
either, so that running it after `f` comes to running `f` after it.

Both are proved along a program, with one rule for each way of putting programs together.
-/

namespace MicroKernel.Lib

namespace Prog

variable {ε σ α β : Type}

/-! ## What is changed -/

/-- The states before and after a run of `m` are in the relation `R`. -/
structure Keeps (R : σ → σ → Prop) (m : Prog ε σ α) : Prop where
  related : ∀ e s a s', m.run e s = some (a, s') → R s s'

/-- `m` does not change the state. -/
abbrev ReadOnly (m : Prog ε σ α) : Prop := Keeps (· = ·) m

namespace Keeps

variable {R : σ → σ → Prop}

/-- A program that changes nothing keeps whatever is reflexive. -/
theorem of_readOnly [Std.Refl R] {m : Prog ε σ α} (h : ReadOnly m) : Keeps R m := by
  constructor
  intro e s a s' hr
  obtain rfl := h.related e s a s' hr
  exact Std.Refl.refl s

theorem modify {f : σ → σ} (h : ∀ s, R s (f s)) : Keeps R (Prog.modify f : Prog ε σ Unit) := by
  constructor
  intro e s a s' hr
  obtain ⟨-, rfl⟩ := Prod.mk.inj (Option.some.inj hr)
  exact h s

theorem under {m : Prog ε σ α} (h : Keeps R m) (g : ε → ε) : Keeps R (Prog.under g m) :=
  ⟨fun e s a s' hr => h.related (g e) s a s' hr⟩

theorem diverge : Keeps R (Prog.diverge : Prog ε σ α) := by
  constructor
  intro e s a s' hr
  cases hr

theorem ite {c : Prop} [Decidable c] {m m' : Prog ε σ α} (h : Keeps R m) (h' : Keeps R m') :
    Keeps R (if c then m else m') := by
  split
  · exact h
  · exact h'

theorem bind [IsTrans σ R] {m : Prog ε σ α} {k : α → Prog ε σ β} (h : Keeps R m)
    (hk : ∀ a, Keeps R (k a)) : Keeps R (m >>= k) := by
  constructor
  intro e s b s' hr
  obtain ⟨a, s₁, h1, h2⟩ := (run_bind_eq_some e s).mp hr
  exact IsTrans.trans s s₁ s' (h.related e s a s₁ h1) ((hk a).related e s₁ b s' h2)

theorem pure [Std.Refl R] (a : α) : Keeps R (Pure.pure a : Prog ε σ α) := by
  apply of_readOnly
  exact ⟨fun e s b s' hr => (Prod.mk.inj (Option.some.inj hr)).2⟩

theorem get [Std.Refl R] : Keeps R (Prog.get : Prog ε σ σ) := by
  apply of_readOnly
  exact ⟨fun e s b s' hr => (Prod.mk.inj (Option.some.inj hr)).2⟩

theorem ask [Std.Refl R] (f : ε → α) : Keeps R (Prog.ask f : Prog ε σ α) := by
  apply of_readOnly
  exact ⟨fun e s b s' hr => (Prod.mk.inj (Option.some.inj hr)).2⟩

/-- What a program does to a part of the state, seen in the whole of it. -/
theorem zoom {τ : Type} {Q : τ → τ → Prop} {part : σ → τ} {put : σ → τ → σ} {m : Prog ε τ α}
    (h : Keeps Q m) (hput : ∀ s t, Q (part s) t → R s (put s t)) :
    Keeps R (Prog.zoom part put m) := by
  constructor
  intro e s a s' hr
  obtain ⟨⟨a', t⟩, hm, heq⟩ := Option.map_eq_some_iff.mp hr
  obtain ⟨-, rfl⟩ := Prod.mk.inj heq
  exact hput s t (h.related e (part s) a' t hm)

end Keeps

/-! ## What is looked at -/

/-- Running `m` after `f` comes to running `f` after `m`. -/
structure Ignores (f : σ → σ) (m : Prog ε σ α) : Prop where
  run_eq : ∀ e s, m.run e (f s) = (m.run e s).map fun r => (r.1, f r.2)

namespace Ignores

variable {f : σ → σ}

theorem pure (a : α) : Ignores f (Pure.pure a : Prog ε σ α) := ⟨fun _ _ => rfl⟩

theorem ask (g : ε → α) : Ignores f (Prog.ask g : Prog ε σ α) := ⟨fun _ _ => rfl⟩

theorem diverge : Ignores f (Prog.diverge : Prog ε σ α) := ⟨fun _ _ => rfl⟩

theorem under {m : Prog ε σ α} (h : Ignores f m) (g : ε → ε) : Ignores f (Prog.under g m) :=
  ⟨fun e s => h.run_eq (g e) s⟩

theorem ite {c : Prop} [Decidable c] {m m' : Prog ε σ α} (h : Ignores f m) (h' : Ignores f m') :
    Ignores f (if c then m else m') := by
  split
  · exact h
  · exact h'

theorem bind {m : Prog ε σ α} {k : α → Prog ε σ β} (h : Ignores f m) (hk : ∀ a, Ignores f (k a)) :
    Ignores f (m >>= k) := by
  constructor
  intro e s
  rw [run_bind, run_bind, h.run_eq e s]
  cases m.run e s with
  | none => rfl
  | some r => exact (hk r.1).run_eq e r.2

theorem modify {g : σ → σ} (h : ∀ s, g (f s) = f (g s)) :
    Ignores f (Prog.modify g : Prog ε σ Unit) := by
  constructor
  intro e s
  change some ((), g (f s)) = some ((), f (g s))
  rw [h s]

/-- A program that looks at parts of the state which `f` leaves alone. -/
theorem get_bind {k : σ → Prog ε σ β} (hf : ∀ s, k (f s) = k s) (hk : ∀ s, Ignores f (k s)) :
    Ignores f (Prog.get >>= k) := by
  constructor
  intro e s
  change (k (f s)).run e (f s) = _
  rw [hf s]
  exact (hk s).run_eq e s

end Ignores

end Prog

end MicroKernel.Lib
