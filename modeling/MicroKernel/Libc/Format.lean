import MicroKernel.Lib.Word
import Mathlib.Tactic

set_option autoImplicit false

/-! # Formats and their arguments (`lib/libc/stdio.c`)

What `printf`, `sprintf` and `snprintf` have in common: the arguments behind the format, and the way
a walk over the format may end. Each of the three takes the character behind a `%` and its modifiers
for a conversion, also where that is the zero at the end, and goes on behind it.
-/

namespace MicroKernel.Libc

open MicroKernel.Lib

/-- The arguments behind a format: their words, and the string that each pointer leads to. -/
structure VaList where
  word : Nat → UInt32
  text : UInt32 → List UInt8
  zero_not_mem : ∀ p, 0 ∉ text p

theorem zero_not_mem_empty (_p : UInt32) : 0 ∉ ([] : List UInt8) := List.not_mem_nil

/-- Argument `i` as an `int`. -/
def VaList.int (args : VaList) (i : Nat) : Int := asInt (args.word i).toNat

/-- The string that argument `i` leads to. -/
def VaList.string (args : VaList) (i : Nat) : List UInt8 := args.text (args.word i)

/-- The format ends inside a conversion: nothing is left behind a `%` and what `modifiers` drops of
the characters behind it. -/
inductive EndsInside (modifiers : List UInt8 → List UInt8) : List UInt8 → Prop
  | here {l : List UInt8} : modifiers l = [] → EndsInside modifiers (0x25 :: l)
  | conversion {c : UInt8} {l l' : List UInt8} :
      modifiers l = c :: l' → EndsInside modifiers l' → EndsInside modifiers (0x25 :: l)
  | literal {c : UInt8} {l : List UInt8} :
      c ≠ 0x25 → EndsInside modifiers l → EndsInside modifiers (c :: l)

section endsInside

variable {modifiers : List UInt8 → List UInt8} {c : UInt8} {l l' : List UInt8}

theorem not_endsInside_nil : ¬ EndsInside modifiers [] := fun h => nomatch h

theorem endsInside_literal (hc : c ≠ 0x25) :
    EndsInside modifiers (c :: l) ↔ EndsInside modifiers l := by
  constructor
  · intro h
    cases h with
    | here _ => exact absurd rfl hc
    | conversion _ _ => exact absurd rfl hc
    | literal _ h => exact h
  · exact .literal hc

theorem endsInside_conversion (h : modifiers l = c :: l') :
    EndsInside modifiers (0x25 :: l) ↔ EndsInside modifiers l' := by
  constructor
  · intro hends
    cases hends with
    | here h' => rw [h] at h'; cases h'
    | conversion h' hrest =>
        rw [h] at h'
        cases h'
        exact hrest
    | literal hne _ => exact absurd rfl hne
  · exact .conversion h

theorem endsInside_pair (c : UInt8) (l : List UInt8) :
    EndsInside id (0x25 :: c :: l) ↔ EndsInside id l := endsInside_conversion rfl

/-- Where nothing is dropped, the format ends in a `%`. -/
theorem EndsInside.eq_append (h : EndsInside id l) : ∃ l', l = l' ++ [0x25] := by
  induction h with
  | @here l hl => exact ⟨[], by rw [id] at hl; rw [hl]; rfl⟩
  | @conversion c l l' hl _ ih =>
      obtain ⟨l'', rfl⟩ := ih
      rw [id] at hl
      exact ⟨0x25 :: c :: l'', by rw [hl]; rfl⟩
  | @literal c l _ _ ih =>
      obtain ⟨l'', rfl⟩ := ih
      exact ⟨c :: l'', rfl⟩

end endsInside

end MicroKernel.Libc
