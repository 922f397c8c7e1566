import Mathlib.Data.List.Infix
import Mathlib.Tactic

set_option autoImplicit false

/-! # Pieces of a list between separators

`Pieces sep l ps rest`: the lists `ps` lie in `l` one behind the other, with nothing but separators
between them and in front of the first, and `rest` is what is left behind the last. When no piece has
a separator in it, the pieces together are the beginning of `l` without its separators
(`Pieces.filter`), and a separator of `l` has each piece on one side of it (`Pieces.apart`).
-/

namespace MicroKernel.Lib

variable {α : Type} {sep : α → Bool} {l rest : List α} {ps : List (List α)}

/-- The lists `ps` are pieces of `l`, and `rest` is behind them. -/
inductive Pieces (sep : α → Bool) : List α → List (List α) → List α → Prop
  | nil (l : List α) : Pieces sep l [] l
  | cons {gap p l rest : List α} {ps : List (List α)} :
      (∀ x ∈ gap, sep x = true) → Pieces sep l ps rest → Pieces sep (gap ++ (p ++ l)) (p :: ps) rest

/-- The piece has no separator. -/
def Whole (sep : α → Bool) (p : List α) : Prop := ∀ x ∈ p, sep x = false

/-- The list without its separators. -/
def withoutSep (sep : α → Bool) (l : List α) : List α := l.filter fun x => !sep x

theorem withoutSep_append (l l' : List α) :
    withoutSep sep (l ++ l') = withoutSep sep l ++ withoutSep sep l' := List.filter_append ..

theorem withoutSep_gap {gap : List α} (h : ∀ x ∈ gap, sep x = true) : withoutSep sep gap = [] := by
  rw [withoutSep, List.filter_eq_nil_iff]
  intro x hx
  simp [h x hx]

theorem withoutSep_whole {p : List α} (h : Whole sep p) : withoutSep sep p = p := by
  rw [withoutSep, List.filter_eq_self]
  intro x hx
  simp [h x hx]

/-- **Nothing is lost**: the pieces, and then what is left. -/
theorem Pieces.filter (h : Pieces sep l ps rest) (hw : ∀ p ∈ ps, Whole sep p) :
    withoutSep sep l = ps.flatten ++ withoutSep sep rest := by
  induction h with
  | nil l => rfl
  | @cons gap p l rest ps hgap _ ih =>
      rw [withoutSep_append, withoutSep_append, withoutSep_gap hgap,
        withoutSep_whole (hw p (by simp)), ih fun q hq => hw q (by simp [hq]), List.flatten_cons,
        List.nil_append, List.append_assoc]

theorem Pieces.flatten_isPrefix (h : Pieces sep l ps rest) (hw : ∀ p ∈ ps, Whole sep p) :
    ps.flatten <+: withoutSep sep l := by
  rw [h.filter hw]
  exact List.prefix_append ..

/-- Separators in front. What is left may begin with them then. -/
theorem Pieces.gap {gap : List α} (h : Pieces sep l ps rest) (hgap : ∀ x ∈ gap, sep x = true) :
    ∃ rest', Pieces sep (gap ++ l) ps rest' ∧ withoutSep sep rest' = withoutSep sep rest := by
  cases h with
  | nil l =>
      exact ⟨gap ++ l, .nil _, by rw [withoutSep_append, withoutSep_gap hgap, List.nil_append]⟩
  | @cons gap' p l rest ps hgap' hps =>
      refine ⟨rest, ?_, rfl⟩
      rw [← List.append_assoc]
      exact .cons (fun x hx => (List.mem_append.mp hx).elim (hgap x) (hgap' x)) hps

/-- An element of an appended list is in one of the two parts. -/
theorem append_eq_append_cons {l₁ l₂ a b : List α} {x : α} (h : l₁ ++ l₂ = a ++ x :: b) :
    (∃ c, l₁ = a ++ x :: c ∧ b = c ++ l₂) ∨ ∃ c, a = l₁ ++ c ∧ l₂ = c ++ x :: b := by
  rcases List.append_eq_append_iff.mp h with ⟨c, ha, hl₂⟩ | ⟨c, hl₁, hb⟩
  · exact Or.inr ⟨c, ha, hl₂⟩
  · cases c with
    | nil => exact Or.inr ⟨[], by rw [hl₁, List.append_nil, List.append_nil], hb.symm⟩
    | cons y c =>
        obtain ⟨rfl, rfl⟩ := List.cons.inj hb
        exact Or.inl ⟨c, hl₁, rfl⟩

/-- **No piece goes across a separator.** -/
theorem Pieces.apart (h : Pieces sep l ps rest) (hw : ∀ p ∈ ps, Whole sep p) {a b : List α} {x : α}
    (hl : l = a ++ x :: b) (hx : sep x = true) : ∃ ps₁ ps₂, ps = ps₁ ++ ps₂ ∧
      ps₁.flatten <+: withoutSep sep a ∧ ps₂.flatten <+: withoutSep sep b := by
  induction h generalizing a with
  | nil l => exact ⟨[], [], rfl, List.nil_prefix, List.nil_prefix⟩
  | @cons gap p l rest ps hgap hps ih =>
      have hwp : Whole sep p := hw p (by simp)
      rcases append_eq_append_cons hl with ⟨c, rfl, rfl⟩ | ⟨c, rfl, hc⟩
      · -- the separator is in front of the piece
        have hgap' : ∀ z ∈ c, sep z = true := fun z hz => hgap z (by simp [hz])
        exact ⟨[], p :: ps, rfl, List.nil_prefix, (Pieces.cons hgap' hps).flatten_isPrefix hw⟩
      · rcases append_eq_append_cons hc with ⟨d, rfl, -⟩ | ⟨d, rfl, hd⟩
        · have hfalse := hwp x (by simp)
          rw [hx] at hfalse
          cases hfalse
        · obtain ⟨ps₁, ps₂, rfl, h₁, h₂⟩ := ih (fun q hq => hw q (by simp [hq])) hd
          refine ⟨p :: ps₁, ps₂, rfl, ?_, h₂⟩
          rw [withoutSep_append, withoutSep_append, withoutSep_gap hgap, withoutSep_whole hwp,
            List.flatten_cons, List.nil_append]
          exact (List.prefix_append_right_inj p).mpr h₁

end MicroKernel.Lib
