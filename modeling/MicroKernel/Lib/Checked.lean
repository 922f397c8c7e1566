import MicroKernel.Lib.Prog

set_option autoImplicit false

/-! # Programs with checks

A check ends a program that is about to do what it must not do: it has no outcome then. A program
with checks is below the same program without them (`Prog.Below`), so that an outcome of the one is
the outcome of the other, and says in addition that no check has failed.
-/

namespace MicroKernel.Lib

namespace Prog

variable {ε σ α β : Type}

/-- Go on if `c` holds. -/
def check (c : Prop) [Decidable c] : Prog ε σ Unit := if c then pure () else diverge

theorem run_check_of {c : Prop} [Decidable c] (h : c) (e : ε) (s : σ) :
    (check c : Prog ε σ Unit).run e s = some ((), s) := by
  unfold check
  rw [if_pos h]
  rfl

/-- A check goes through or ends the program. -/
theorem run_check_bind {c : Prop} [Decidable c] (m : Prog ε σ α) (e : ε) (s : σ) :
    (check c >>= fun _ => m).run e s = if c then m.run e s else none := by
  unfold check
  rw [run_bind, run_ite]
  split <;> rfl

/-- Where `m` has an outcome, `m'` has the same. -/
structure Below (m m' : Prog ε σ α) : Prop where
  run_eq : ∀ e s r, m.run e s = some r → m'.run e s = some r

namespace Below

theorem refl (m : Prog ε σ α) : Below m m := ⟨fun _ _ _ h => h⟩

theorem diverge (m : Prog ε σ α) : Below Prog.diverge m := ⟨fun _ _ _ h => nomatch h⟩

theorem under {m m' : Prog ε σ α} (h : Below m m') (g : ε → ε) :
    Below (Prog.under g m) (Prog.under g m') := ⟨fun e s r hr => h.run_eq (g e) s r hr⟩

theorem ite {c : Prop} [Decidable c] {m m' n n' : Prog ε σ α} (h : Below m m') (hn : Below n n') :
    Below (if c then m else n) (if c then m' else n') := by
  split
  · exact h
  · exact hn

theorem bind {m m' : Prog ε σ α} {k k' : α → Prog ε σ β} (h : Below m m')
    (hk : ∀ a, Below (k a) (k' a)) : Below (m >>= k) (m' >>= k') := by
  constructor
  rintro e s ⟨b, s'⟩ hr
  obtain ⟨a, s₁, h1, h2⟩ := (run_bind_eq_some e s).mp hr
  rw [run_bind_of_some e s (h.run_eq e s _ h1)]
  exact (hk a).run_eq e s₁ _ h2

/-- A check in front of a program. -/
theorem check_bind {c : Prop} [Decidable c] {m m' : Prog ε σ α} (h : Below m m') :
    Below (check c >>= fun _ => m) m' := by
  constructor
  intro e s r hr
  by_cases hc : c
  · rw [run_bind_of_some e s (run_check_of hc e s)] at hr
    exact h.run_eq e s r hr
  · unfold check at hr
    rw [if_neg hc] at hr
    cases hr

end Below

end Prog

end MicroKernel.Lib
