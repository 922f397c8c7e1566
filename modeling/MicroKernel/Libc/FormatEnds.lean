import MicroKernel.Libc.Printf
import MicroKernel.Libc.Snprintf

set_option autoImplicit false

/-! # Where a format may end (`lib/libc/stdio.c`)

`printf`, `sprintf` and `snprintf` walk over a format up to its zero. Behind a `%` and the modifiers
that it knows each of them takes the next character for a specifier and goes on behind that, so that
a format that ends there is left: the three have no result on `l ++ [0]` just then
(`walks_stop_iff`). Only a full buffer of `snprintf` ends its walk before.
-/

namespace MicroKernel.Libc

open MicroKernel.Lib

/-! ## `sprintf` -/

/-- The characters of a number, as many as `int_to_str` says. -/
def sprintfNumber (arg base : Int) : List UInt8 :=
  let (temp, len) := intToStr arg base
  temp.take len

/-- The loop of `sprintf`, from argument `i` on: what it writes. -/
def sprintfLoop (args : VaList) : List UInt8 → Nat → Option (List UInt8)
  | [], _ => none
  | c :: p, i =>
      if c = 0 then some []
      else if c = 0x25 then
        match p with
        | [] => none
        | d :: p =>
            if d = 0x73 then (sprintfLoop args p (i + 1)).map (args.string i ++ ·)
            else if d = 0x64 then
              (sprintfLoop args p (i + 1)).map (sprintfNumber (args.int i) 10 ++ ·)
            else if d = 0x78 then
              (sprintfLoop args p (i + 1)).map (sprintfNumber (args.int i) 16 ++ ·)
            else (sprintfLoop args p i).map ([0x25, d] ++ ·)
      else (sprintfLoop args p i).map (c :: ·)

/-- `sprintf`: its result and the cells of the buffer that it has written. -/
def sprintf (args : VaList) (format : List UInt8) : Option (Int × List UInt8) := do
  let str ← sprintfLoop args format 0
  some (asInt (u32 str.length), str ++ [0])

section sprintf

variable {l : List UInt8}

/-- A conversion takes the character behind the `%`, whatever it is. -/
theorem sprintfLoop_conversion (args : VaList) (d : UInt8) (p : List UInt8) (i : Nat) :
    ∃ i', (sprintfLoop args (0x25 :: d :: p) i).isSome = (sprintfLoop args p i').isSome := by
  rw [sprintfLoop, if_neg (by decide), if_pos rfl]
  split
  · exact ⟨i + 1, Option.isSome_map⟩
  · split
    · exact ⟨i + 1, Option.isSome_map⟩
    · split
      · exact ⟨i + 1, Option.isSome_map⟩
      · exact ⟨i, Option.isSome_map⟩

theorem sprintfLoop_literal (args : VaList) {c : UInt8} (h0 : c ≠ 0) (hc : c ≠ 0x25) (p : List UInt8)
    (i : Nat) : (sprintfLoop args (c :: p) i).isSome = (sprintfLoop args p i).isSome := by
  rw [sprintfLoop.eq_def]
  dsimp only
  rw [if_neg h0, if_neg hc, Option.isSome_map]

theorem sprintfLoop_isSome_iff (args : VaList) (hl : 0 ∉ l) (i : Nat) :
    (sprintfLoop args (l ++ [0]) i).isSome ↔ ¬ EndsInside id l := by
  induction hn : l.length using Nat.strong_induction_on generalizing l i with
  | _ n ih =>
      subst hn
      cases l with
      | nil => exact iff_of_true rfl not_endsInside_nil
      | cons c l =>
          by_cases hc : c = 0x25
          · subst hc
            cases l with
            | nil => exact iff_of_false Bool.false_ne_true fun h => h (.here rfl)
            | cons d l =>
                -- the walk goes on behind the pair, with some next argument
                obtain ⟨i', hconversion⟩ := sprintfLoop_conversion args d (l ++ [0]) i
                simp only [List.mem_cons, not_or] at hl
                rw [List.cons_append, List.cons_append, hconversion, endsInside_pair]
                exact ih l.length (by simp) hl.2.2 i' rfl
          · rw [List.mem_cons, not_or] at hl
            rw [List.cons_append, sprintfLoop_literal args (Ne.symm hl.1) hc, endsInside_literal hc]
            exact ih l.length (by simp) hl.2 i rfl

/-- **Where `sprintf` stops at the zero.** -/
theorem sprintf_isSome_iff (args : VaList) (hl : 0 ∉ l) :
    (sprintf args (l ++ [0])).isSome ↔ ¬ EndsInside id l := by
  rw [← sprintfLoop_isSome_iff args hl 0, sprintf, Option.bind_eq_bind, Option.isSome_bind]
  cases sprintfLoop args (l ++ [0]) 0 <;> rfl

end sprintf

/-! ## The modifiers of `printf` -/

/-- What is left behind a flag. -/
def dropFlag : List UInt8 → List UInt8
  | [] => []
  | c :: l => if c = 0x2D ∨ c = 0x30 then l else c :: l

/-- What is left behind digits. -/
def dropDigits (l : List UInt8) : List UInt8 := l.dropWhile fun c => decide (IsDigit c)

/-- What is left behind a width. -/
def dropWidth : List UInt8 → List UInt8
  | [] => []
  | c :: l => if c = 0x2A then l else dropDigits (c :: l)

/-- What is left behind a precision. -/
def dropPrecision : List UInt8 → List UInt8
  | [] => []
  | c :: l => if c = 0x2E then dropDigits l else c :: l

/-- What is left behind a length modifier. -/
def dropLl : List UInt8 → List UInt8
  | c :: c' :: l => if c = 0x6C ∧ c' = 0x6C then l else c :: c' :: l
  | l => l

/-- What is left behind all modifiers. -/
def dropModifiers (l : List UInt8) : List UInt8 :=
  dropLl (dropPrecision (dropWidth (dropFlag l)))

section modifiers

variable {l rest : List UInt8}

theorem dropFlag_suffix (l : List UInt8) : dropFlag l <:+ l := by
  cases l with
  | nil => exact List.suffix_rfl
  | cons c l =>
      rw [dropFlag]
      split
      · exact List.suffix_cons c l
      · exact List.suffix_rfl

theorem dropDigits_suffix (l : List UInt8) : dropDigits l <:+ l := List.dropWhile_suffix _

theorem dropWidth_suffix (l : List UInt8) : dropWidth l <:+ l := by
  cases l with
  | nil => exact List.suffix_rfl
  | cons c l =>
      rw [dropWidth]
      split
      · exact List.suffix_cons c l
      · exact dropDigits_suffix (c :: l)

theorem dropPrecision_suffix (l : List UInt8) : dropPrecision l <:+ l := by
  cases l with
  | nil => exact List.suffix_rfl
  | cons c l =>
      rw [dropPrecision]
      split
      · exact (dropDigits_suffix l).trans (List.suffix_cons c l)
      · exact List.suffix_rfl

theorem dropLl_suffix (l : List UInt8) : dropLl l <:+ l := by
  unfold dropLl
  split
  · split
    · exact (List.suffix_cons _ _).trans (List.suffix_cons _ _)
    · exact List.suffix_rfl
  · exact List.suffix_rfl

theorem dropModifiers_suffix (l : List UInt8) : dropModifiers l <:+ l :=
  calc dropModifiers l <:+ dropPrecision (dropWidth (dropFlag l)) := dropLl_suffix _
    _ <:+ dropWidth (dropFlag l) := dropPrecision_suffix _
    _ <:+ dropFlag l := dropWidth_suffix _
    _ <:+ l := dropFlag_suffix l

theorem readFlags_eq (l rest : List UInt8) :
    ∃ leftAlign zeroPadding, readFlags (l ++ 0 :: rest)
      = some (leftAlign, zeroPadding, dropFlag l ++ 0 :: rest) := by
  cases l with
  | nil => exact ⟨false, false, rfl⟩
  | cons c l =>
      rw [List.cons_append, readFlags, takeChar, dropFlag]
      by_cases hminus : c = 0x2D
      · rw [if_pos hminus, if_pos (Or.inl hminus)]
        exact ⟨true, false, rfl⟩
      · rw [if_neg hminus, Option.bind_eq_bind, Option.bind_some]
        dsimp only
        rw [if_neg Bool.false_ne_true, takeChar]
        by_cases hzero : c = 0x30
        · rw [if_pos hzero, if_pos (Or.inr hzero)]
          exact ⟨false, true, rfl⟩
        · rw [if_neg hzero, if_neg (not_or.mpr ⟨hminus, hzero⟩)]
          exact ⟨false, false, rfl⟩

theorem readNumber_eq (n : Nat) (seen : Bool) (l rest : List UInt8) :
    ∃ n' seen', readNumber n seen (l ++ 0 :: rest) = some (n', seen', dropDigits l ++ 0 :: rest) := by
  induction l generalizing n seen with
  | nil => exact ⟨n, seen, rfl⟩
  | cons c l ih =>
      rw [List.cons_append, readNumber, dropDigits]
      by_cases hc : IsDigit c
      · rw [if_pos hc, List.dropWhile_cons_of_pos (by simpa using hc)]
        exact ih _ _
      · rw [if_neg hc, List.dropWhile_cons_of_neg (by simpa using hc)]
        exact ⟨n, seen, rfl⟩

theorem readWidth_eq (args : VaList) (i : Nat) (l rest : List UInt8) :
    ∃ n specified i', readWidth args i (l ++ 0 :: rest)
      = some (n, specified, i', dropWidth l ++ 0 :: rest) := by
  cases l with
  | nil => exact ⟨0, false, i, rfl⟩
  | cons c l =>
      rw [List.cons_append, readWidth, takeChar, dropWidth]
      by_cases hstar : c = 0x2A
      · rw [if_pos hstar, if_pos hstar]
        exact ⟨(args.word i).toNat, true, i + 1, rfl⟩
      · obtain ⟨n, seen, hread⟩ := readNumber_eq 0 false (c :: l) rest
        rw [List.cons_append] at hread
        rw [if_neg hstar, if_neg hstar, Option.bind_eq_bind, Option.bind_some]
        dsimp only
        rw [if_neg Bool.false_ne_true, hread]
        exact ⟨n, seen, i, rfl⟩

theorem readPrecision_eq (l rest : List UInt8) :
    ∃ v, readPrecision (l ++ 0 :: rest) = some (v, dropPrecision l ++ 0 :: rest) := by
  cases l with
  | nil => exact ⟨-1, rfl⟩
  | cons c l =>
      rw [List.cons_append, readPrecision, takeChar, dropPrecision]
      by_cases hdot : c = 0x2E
      · obtain ⟨n, seen, hread⟩ := readNumber_eq 0 false l rest
        rw [if_pos hdot, if_pos hdot, Option.bind_eq_bind, Option.bind_some]
        dsimp only
        rw [if_pos rfl, hread]
        exact ⟨asInt n, rfl⟩
      · rw [if_neg hdot, if_neg hdot]
        exact ⟨-1, rfl⟩

/-- An `l` in front of the zero is left alone. -/
theorem readLl_eq (l rest : List UInt8) :
    ∃ isLl, readLl (l ++ 0 :: rest) = some (isLl, dropLl l ++ 0 :: rest) := by
  rcases l with _ | ⟨c, _ | ⟨c', l⟩⟩
  · exact ⟨false, rfl⟩
  · rw [List.singleton_append, readLl]
    split
    · exact ⟨false, rfl⟩
    · exact ⟨false, rfl⟩
  · rw [List.cons_append, List.cons_append, readLl, dropLl]
    by_cases hc : c = 0x6C
    · by_cases hc' : c' = 0x6C
      · rw [if_pos hc, if_pos hc', if_pos ⟨hc, hc'⟩]
        exact ⟨true, rfl⟩
      · rw [if_pos hc, if_neg hc', if_neg fun h => hc' h.2]
        exact ⟨false, rfl⟩
    · rw [if_neg hc, if_neg fun h => hc h.1]
      exact ⟨false, rfl⟩

/-- **The modifiers are read up to the zero at most.** -/
theorem readDirective_eq (args : VaList) (i : Nat) (l rest : List UInt8) :
    ∃ d i', readDirective args i (l ++ 0 :: rest) = some (d, i', dropModifiers l ++ 0 :: rest) := by
  obtain ⟨left, zero, hflags⟩ := readFlags_eq l rest
  obtain ⟨n, specified, i', hwidth⟩ := readWidth_eq args i (dropFlag l) rest
  obtain ⟨v, hprecision⟩ := readPrecision_eq (dropWidth (dropFlag l)) rest
  obtain ⟨isLl, hll⟩ := readLl_eq (dropPrecision (dropWidth (dropFlag l))) rest
  refine ⟨⟨left, zero, specified, asInt n, v, isLl⟩, i', ?_⟩
  rw [readDirective, hflags, Option.bind_eq_bind, Option.bind_some]
  dsimp only
  rw [hwidth, Option.bind_eq_bind, Option.bind_some]
  dsimp only
  rw [hprecision, Option.bind_eq_bind, Option.bind_some]
  dsimp only
  rw [hll]
  rfl

/-- Behind a `%` the walk goes on behind the specifier, or behind the zero. -/
theorem printfFrom_conversion (args : VaList) (i : Nat) {c : UInt8} {l' : List UInt8}
    (h : dropModifiers l ++ [0] = c :: l') :
    ∃ i', (printfFrom args i (0x25 :: (l ++ [0]))).isSome = (printfFrom args i' l').isSome := by
  obtain ⟨d, i', hread⟩ := readDirective_eq args i l []
  rw [h] at hread
  by_cases hc : c = 0x25
  · subst hc
    exact ⟨i', by rw [printfFrom_percent hread, Option.isSome_map]⟩
  · exact ⟨(convert args d c i').2, by rw [printfFrom_directive hc hread, Option.isSome_map]⟩

theorem printfFrom_isSome_iff (args : VaList) (hl : 0 ∉ l) (i : Nat) :
    (printfFrom args i (l ++ [0])).isSome ↔ ¬ EndsInside dropModifiers l := by
  induction hn : l.length using Nat.strong_induction_on generalizing l i with
  | _ n ih =>
      subst hn
      cases l with
      | nil => exact iff_of_true rfl not_endsInside_nil
      | cons c l =>
          rw [List.mem_cons, not_or] at hl
          by_cases hc : c = 0x25
          · subst hc
            cases hdrop : dropModifiers l with
            | nil =>
                -- the zero is the specifier
                have hbehind : dropModifiers l ++ [0] = [0] := by rw [hdrop, List.nil_append]
                obtain ⟨i', hpast⟩ := printfFrom_conversion args i hbehind
                rw [List.cons_append, hpast, printfFrom_nil]
                exact iff_of_false Bool.false_ne_true fun h => h (.here hdrop)
            | cons d l' =>
                -- the walk goes on behind the specifier
                have hbehind : dropModifiers l ++ [0] = d :: (l' ++ [0]) := by
                  rw [hdrop, List.cons_append]
                have hsuffix : l' <:+ l :=
                  (List.suffix_cons d l').trans (hdrop ▸ dropModifiers_suffix l)
                have hlen := hsuffix.length_le
                obtain ⟨i', hrun⟩ := printfFrom_conversion args i hbehind
                rw [List.cons_append, hrun, endsInside_conversion hdrop]
                exact ih l'.length (by simp; omega) (fun h0 => hl.2 (hsuffix.mem h0)) i' rfl
          · rw [List.cons_append, printfFrom_literal args i (Ne.symm hl.1) hc, Option.isSome_map,
              endsInside_literal hc]
            exact ih l.length (by simp) hl.2 i rfl

/-- **Where `printf` stops at the zero.** -/
theorem printf_isSome_iff (args : VaList) (hl : 0 ∉ l) :
    (printf args (l ++ [0])).isSome ↔ ¬ EndsInside dropModifiers l :=
  printfFrom_isSome_iff args hl 0

end modifiers

/-! ## The three walks -/

/-- **Where `snprintf` stops at the zero**, or at the end of its buffer. -/
theorem snprintf_isSome_iff (args : VaList) {l str : List UInt8} {size : Nat} (hl : 0 ∉ l)
    (hstr : str.length = size) :
    (snprintf str size (l ++ [0]) args).isSome ↔
      ¬ (EndsInside id l ∧ (rendering args l 0).length < size) := by
  by_cases h : EndsInside id l ∧ (rendering args l 0).length < size
  · rw [snprintf_past args hl hstr h]
    exact iff_of_false Bool.false_ne_true fun hn => hn h
  · obtain ⟨str', hrun, -⟩ := snprintf_eq args hl [] hstr h
    rw [hrun]
    exact iff_of_true rfl h

/-- **The walks stop at the zero** of a format just where it does not end inside a conversion: for
`printf` that is behind a `%` and modifiers of it, for the others behind a `%`, which `snprintf` does
not come to when its buffer is full before. -/
theorem walks_stop_iff (args : VaList) {l str : List UInt8} {size : Nat} (hl : 0 ∉ l)
    (hstr : str.length = size) :
    ((printf args (l ++ [0])).isSome ↔ ¬ EndsInside dropModifiers l) ∧
    ((sprintf args (l ++ [0])).isSome ↔ ¬ EndsInside id l) ∧
    ((snprintf str size (l ++ [0]) args).isSome ↔
      ¬ (EndsInside id l ∧ (rendering args l 0).length < size)) :=
  ⟨printf_isSome_iff args hl, sprintf_isSome_iff args hl, snprintf_isSome_iff args hl hstr⟩

/-- In "%l" all of them take the `l` for the specifier. -/
theorem walks_stop_iff_l :
    ((printf (constantArgs 0) [0x25, 0x6C, 0]).isSome ↔ ¬ EndsInside dropModifiers [0x25, 0x6C]) ∧
    ((sprintf (constantArgs 0) [0x25, 0x6C, 0]).isSome ↔ ¬ EndsInside id [0x25, 0x6C]) ∧
    ((snprintf [1, 1] 2 [0x25, 0x6C, 0] (constantArgs 0)).isSome ↔
      ¬ (EndsInside id [0x25, 0x6C] ∧ (rendering (constantArgs 0) [0x25, 0x6C] 0).length < 2)) :=
  @walks_stop_iff (constantArgs 0) [0x25, 0x6C] [1, 1] 2 (by decide) rfl

/-- A `%` at the end of the format. -/
theorem not_walks_stop : printf (constantArgs 0) [0x25, 0] = none ∧
    sprintf (constantArgs 0) [0x25, 0] = none ∧
    snprintf [1, 1] 2 [0x25, 0] (constantArgs 0) = none := by decide

end MicroKernel.Libc
