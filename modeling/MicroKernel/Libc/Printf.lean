import MicroKernel.Libc.Conversions
import MicroKernel.Libc.Format
import MicroKernel.Libc.String

set_option autoImplicit false

/-! # `printf` (`lib/libc/stdio.c`)

The loop over the format, with the flags, the width, the precision and the length modifier of each
conversion. What it does is a list of events: a character that goes to `putchar`, and the cells of
its local buffer that a conversion has written. What lies behind a buffer is not modelled; the number
of the cells says whether a write has left it.

The pointer `format` is the list of the cells from it on, and a read behind the last cell has no
result.
-/

namespace MicroKernel.Libc

open MicroKernel.Lib

/-! ## Events -/

/-- What can be seen of `printf`. -/
inductive Event
  | put (c : UInt8)
  | fill (cells : List UInt8)
  deriving DecidableEq

/-- The characters that are printed. -/
def emitted (es : List Event) : List UInt8 :=
  es.filterMap fun
    | .put c => some c
    | .fill _ => none

/-- The buffers of 32 cells are not left. -/
def InBuffers (es : List Event) : Prop := ∀ cells, Event.fill cells ∈ es → cells.length ≤ 32

/-- `pad_out`. -/
def padOut (count : Int) (zero : Bool) : List Event :=
  List.replicate count.toNat (.put (if zero then 0x30 else 0x20))

/-- The loops that print a string. -/
def putAll (s : List UInt8) : List Event := s.map .put

/-! ## Between the `%` and the specifier -/

/-- What stands between a `%` and its specifier. -/
structure Directive where
  leftAlign : Bool
  zeroPadding : Bool
  widthSpecified : Bool
  width : Int
  precision : Int
  isLl : Bool
  deriving DecidableEq

/-- `if (*format == x) format++`, and whether it was. -/
def takeChar (x : UInt8) : List UInt8 → Option (Bool × List UInt8)
  | [] => none
  | c :: format => if c = x then some (true, format) else some (false, c :: format)

/-- The loops over the digits of the width and the precision: the number, as a word, and whether there
was a digit. -/
def readNumber : Nat → Bool → List UInt8 → Option (Nat × Bool × List UInt8)
  | _, _, [] => none
  | n, seen, c :: format =>
      if IsDigit c then readNumber (u32 (n * 10 + digit c)) true format
      else some (n, seen, c :: format)

/-- The flags. -/
def readFlags (format : List UInt8) : Option (Bool × Bool × List UInt8) := do
  let (leftAlign, format) ← takeChar 0x2D format
  let (zeroPadding, format) ← if leftAlign then some (false, format) else takeChar 0x30 format
  some (leftAlign, zeroPadding, format)

/-- The width, which may be the next argument: whether there is one, and its word. -/
def readWidth (args : VaList) (i : Nat) (format : List UInt8) :
    Option (Nat × Bool × Nat × List UInt8) := do
  let (star, format) ← takeChar 0x2A format
  if star then some ((args.word i).toNat, true, i + 1, format)
  else do
    let (width, widthSpecified, format) ← readNumber 0 false format
    some (width, widthSpecified, i, format)

/-- The precision. -/
def readPrecision (format : List UInt8) : Option (Int × List UInt8) := do
  let (dot, format) ← takeChar 0x2E format
  if dot then do
    let (precision, _, format) ← readNumber 0 false format
    some (asInt precision, format)
  else some (-1, format)

/-- The length modifier. -/
def readLl : List UInt8 → Option (Bool × List UInt8)
  | [] => none
  | c :: format =>
      if c = 0x6C then
        match format with
        | [] => none
        | c' :: format' =>
            -- one `l` is left alone
            if c' = 0x6C then some (true, format') else some (false, c :: c' :: format')
      else some (false, c :: format)

/-- All of it, with the number of the next argument and the specifier in front of what is left. -/
def readDirective (args : VaList) (i : Nat) (format : List UInt8) :
    Option (Directive × Nat × List UInt8) := do
  let (leftAlign, zeroPadding, format) ← readFlags format
  let (width, widthSpecified, i, format) ← readWidth args i format
  let (precision, format) ← readPrecision format
  let (isLl, format) ← readLl format
  some (⟨leftAlign, zeroPadding, widthSpecified, asInt width, precision, isLl⟩, i, format)

/-! ## The conversions -/

/-- The local variable `pad`. -/
def Directive.pad (d : Directive) (len : Int) : Int :=
  if d.widthSpecified ∧ len < d.width then d.width - len else 0

/-- A text with its padding, as most branches of the `switch` print it. -/
def Directive.padded (d : Directive) (s : List UInt8) : List Event :=
  (if d.leftAlign then [] else padOut (d.pad s.length) d.zeroPadding) ++ putAll s
    ++ if d.leftAlign then padOut (d.pad s.length) false else []

/-- `case 'c'`. -/
def Directive.printChar (d : Directive) (c : UInt8) : List Event :=
  (if ¬ d.leftAlign ∧ d.widthSpecified ∧ 1 < d.width then padOut (d.width - 1) d.zeroPadding else [])
    ++ [.put c]
    ++ if d.leftAlign ∧ d.widthSpecified ∧ 1 < d.width then padOut (d.width - 1) false else []

/-- `case 's'`, where the precision cuts the string. -/
def Directive.printString (d : Directive) (s : List UInt8) : List Event :=
  d.padded (if 0 ≤ d.precision ∧ d.precision < s.length then s.take d.precision.toNat else s)

/-- `case 'd'`. -/
def Directive.printInt (d : Directive) (v : Int) : List Event :=
  let neg := decide (v < 0)
  let uv := if neg then negate v else v
  let buf := (intToStr uv 10).1
  let pad := d.pad ((text buf).length + if neg then 1 else 0)
  -- of a negative number only the zeros are put behind the sign, and the blanks come all the same
  [.fill buf]
    ++ (if d.leftAlign then [] else padOut pad (d.zeroPadding && !neg))
    ++ (if neg then [.put 0x2D] else [])
    ++ (if d.zeroPadding ∧ ¬ d.leftAlign ∧ 0 < pad ∧ neg then padOut pad true else [])
    ++ putAll (text buf)
    ++ if d.leftAlign then padOut pad false else []

/-- `case 'u'`. -/
def Directive.printUnsigned (d : Directive) (u : Nat) : List Event :=
  let buf := unsignedIntToStr u 10
  .fill buf :: d.padded (text buf)

/-- `case 'X'` and `case 'p'`. -/
def Directive.printHex (d : Directive) (x : Nat) : List Event :=
  let buf := intToHexStr x (if d.widthSpecified then d.width else 0) d.zeroPadding
  .fill buf :: putAll (text buf)

/-- The loop that makes letters of a buffer upper case. -/
def upperHex (s : List UInt8) : List UInt8 :=
  s.map fun c => if 0x61 ≤ c ∧ c ≤ 0x66 then c - 0x61 + 0x41 else c

/-- `default`, with `%llX` and `%llu`: what is printed, and how many words of the arguments it
takes. -/
def Directive.printOther (d : Directive) (c : UInt8) (v : Nat) : List Event × Nat :=
  if d.isLl ∧ c = 0x58 then
    let tmp := uint64ToStr v 16
    (.fill tmp :: d.padded (upperHex (text tmp)), 2)
  else if d.isLl ∧ c = 0x75 then
    let buf := uint64ToStr v 10
    (.fill buf :: d.padded (text buf), 2)
  else
    ([.put 0x25] ++ (if d.isLl then [.put 0x6C, .put 0x6C] else [])
      ++ if c ≠ 0 then [.put c] else [], 0)

/-- "(null)". -/
def nullText : List UInt8 := [0x28, 0x6E, 0x75, 0x6C, 0x6C, 0x29]

/-- The `switch` over the specifier: what it does, and the number of the next argument. -/
def convert (args : VaList) (d : Directive) (c : UInt8) (i : Nat) : List Event × Nat :=
  if c = 0x63 then (d.printChar (args.word i).toUInt8, i + 1)
  else if c = 0x73 then
    (d.printString (if args.word i = 0 then nullText else args.string i), i + 1)
  else if c = 0x64 then (d.printInt (args.int i), i + 1)
  else if c = 0x75 then (d.printUnsigned (args.word i).toNat, i + 1)
  else if c = 0x58 then (d.printHex (args.word i).toNat, i + 1)
  else if c = 0x70 then (d.printHex (args.word i).toNat, i + 1)
  else
    let r := d.printOther c ((args.word i).toNat + 2 ^ 32 * (args.word (i + 1)).toNat)
    (r.1, i + r.2)

/-! ## The loop -/

/-- The loop of `printf`, from argument `i` on. Each round takes a cell at least, so that `k` rounds
are enough for `k` cells. -/
def printfLoop (args : VaList) : Nat → Nat → List UInt8 → Option (List Event)
  | 0, _, _ => none
  | _ + 1, _, [] => none
  | k + 1, i, c :: format =>
      if c = 0 then some []
      else if c ≠ 0x25 then (printfLoop args k i format).map (.put c :: ·)
      else
        match readDirective args i format with
        | some (d, i, c :: format) =>
            -- `%%`, behind any modifiers
            if c = 0x25 then (printfLoop args k i format).map (.put 0x25 :: ·)
            else
              (printfLoop args k (convert args d c i).2 format).map ((convert args d c i).1 ++ ·)
        | _ => none

/-- `printf`, from argument `i` on. -/
def printfFrom (args : VaList) (i : Nat) (format : List UInt8) : Option (List Event) :=
  printfLoop args format.length i format

/-- `printf`. -/
def printf (args : VaList) (format : List UInt8) : Option (List Event) := printfFrom args 0 format

/-! ## How the loop goes on -/

section loop

variable {args : VaList} {format format' : List UInt8}

theorem takeChar_length {x : UInt8} {b : Bool} (h : takeChar x format = some (b, format')) :
    format'.length ≤ format.length := by
  cases format with
  | nil => cases h
  | cons c format =>
      rw [takeChar] at h
      split at h
      · cases h
        exact Nat.le_succ _
      · cases h
        exact Nat.le_refl _

theorem readNumber_length {n m : Nat} {b b' : Bool}
    (h : readNumber n b format = some (m, b', format')) : format'.length ≤ format.length := by
  induction format generalizing n b with
  | nil => cases h
  | cons c format ih =>
      rw [readNumber] at h
      split at h
      · exact Nat.le_succ_of_le (ih h)
      · cases h
        exact Nat.le_refl _

theorem readLl_length {b : Bool} (h : readLl format = some (b, format')) :
    format'.length ≤ format.length := by
  unfold readLl at h
  split at h
  · cases h
  · split at h
    · split at h
      · cases h
      · split at h
        · cases h
          simp
          omega
        · cases h
          exact Nat.le_refl _
    · cases h
      exact Nat.le_refl _

theorem readFlags_length {b b' : Bool} (h : readFlags format = some (b, b', format')) :
    format'.length ≤ format.length := by
  simp only [readFlags, Option.bind_eq_bind, Option.bind_eq_some_iff] at h
  obtain ⟨⟨left, f₁⟩, hleft, h⟩ := h
  have h₁ := takeChar_length hleft
  dsimp only at h
  split at h
  · cases h
    exact h₁
  · simp only [Option.bind_eq_some_iff] at h
    obtain ⟨⟨zero, f₂⟩, hzero, heq⟩ := h
    cases heq
    exact Nat.le_trans (takeChar_length hzero) h₁

theorem readWidth_length {i i' n : Nat} {b : Bool}
    (h : readWidth args i format = some (n, b, i', format')) : format'.length ≤ format.length := by
  simp only [readWidth, Option.bind_eq_bind, Option.bind_eq_some_iff] at h
  obtain ⟨⟨star, f₁⟩, hstar, h⟩ := h
  have h₁ := takeChar_length hstar
  dsimp only at h
  split at h
  · cases h
    exact h₁
  · simp only [Option.bind_eq_some_iff] at h
    obtain ⟨⟨m, seen, f₂⟩, hnumber, heq⟩ := h
    cases heq
    exact Nat.le_trans (readNumber_length hnumber) h₁

theorem readPrecision_length {v : Int} (h : readPrecision format = some (v, format')) :
    format'.length ≤ format.length := by
  simp only [readPrecision, Option.bind_eq_bind, Option.bind_eq_some_iff] at h
  obtain ⟨⟨dot, f₁⟩, hdot, h⟩ := h
  have h₁ := takeChar_length hdot
  dsimp only at h
  split at h
  · simp only [Option.bind_eq_some_iff] at h
    obtain ⟨⟨m, seen, f₂⟩, hnumber, heq⟩ := h
    cases heq
    exact Nat.le_trans (readNumber_length hnumber) h₁
  · cases h
    exact h₁

/-- Nothing is put in front of the format. -/
theorem readDirective_length {i i' : Nat} {d : Directive}
    (h : readDirective args i format = some (d, i', format')) : format'.length ≤ format.length := by
  simp only [readDirective, Option.bind_eq_bind, Option.bind_eq_some_iff] at h
  obtain ⟨⟨left, zero, f₁⟩, hflags, ⟨width, specified, i'', f₂⟩, hwidth, ⟨precision, f₃⟩, hprecision,
    ⟨isLl, f₄⟩, hll, heq⟩ := h
  cases heq
  calc f₄.length ≤ f₃.length := readLl_length hll
    _ ≤ f₂.length := readPrecision_length hprecision
    _ ≤ f₁.length := readWidth_length hwidth
    _ ≤ format.length := readFlags_length hflags

/-- More rounds than cells make no difference. -/
theorem printfLoop_eq (k : Nat) (i : Nat) (hk : format.length ≤ k) :
    printfLoop args k i format = printfFrom args i format := by
  unfold printfFrom
  induction k using Nat.strong_induction_on generalizing i format with
  | _ k ih =>
      cases format with
      | nil => cases k <;> rfl
      | cons c format =>
          rw [List.length_cons] at hk ⊢
          obtain ⟨k, rfl⟩ : ∃ j, k = j + 1 := ⟨k - 1, by omega⟩
          rw [printfLoop, printfLoop]
          by_cases h0 : c = 0
          · rw [if_pos h0, if_pos h0]
          rw [if_neg h0, if_neg h0]
          by_cases hc : c ≠ 0x25
          · rw [if_pos hc, if_pos hc, ih k (by omega) i (by omega)]
          rw [if_neg hc, if_neg hc]
          cases hread : readDirective args i format with
          | none => rfl
          | some r =>
              obtain ⟨d, i', f⟩ := r
              have hlen := readDirective_length hread
              cases f with
              | nil => rfl
              | cons x f =>
                  rw [List.length_cons] at hlen
                  dsimp only
                  -- both sides go on with as many rounds as there are cells
                  have hgo : ∀ j, printfLoop args k j f = printfLoop args format.length j f := by
                    intro j
                    rw [ih k (by omega) j (by omega)]
                    rcases Nat.lt_or_ge format.length (k + 1) with hlt | hge
                    · exact (ih format.length hlt j (by omega)).symm
                    · omega
                  rw [hgo, hgo]

theorem printfFrom_nil (args : VaList) (i : Nat) : printfFrom args i [] = none := rfl

theorem printfFrom_end (args : VaList) (i : Nat) (rest : List UInt8) :
    printfFrom args i (0 :: rest) = some [] := rfl

theorem printfFrom_literal (args : VaList) (i : Nat) {c : UInt8} (h0 : c ≠ 0) (hc : c ≠ 0x25)
    (format : List UInt8) :
    printfFrom args i (c :: format) = (printfFrom args i format).map (.put c :: ·) := by
  rw [printfFrom, List.length_cons, printfLoop, if_neg h0, if_pos hc]
  rfl

/-- **A directive**: what its conversion does, and then the rest of the format. -/
theorem printfFrom_directive {i i' : Nat} {d : Directive} {c : UInt8} (hc : c ≠ 0x25)
    (h : readDirective args i format = some (d, i', c :: format')) :
    printfFrom args i (0x25 :: format) = (printfFrom args (convert args d c i').2 format').map
      ((convert args d c i').1 ++ ·) := by
  have hlen := readDirective_length h
  rw [List.length_cons] at hlen
  rw [printfFrom, List.length_cons, printfLoop, if_neg (by decide), if_neg (by decide), h]
  dsimp only
  rw [if_neg hc, printfLoop_eq _ _ (by omega)]

theorem printfFrom_percent {i i' : Nat} {d : Directive}
    (h : readDirective args i format = some (d, i', 0x25 :: format')) :
    printfFrom args i (0x25 :: format) = (printfFrom args i' format').map (.put 0x25 :: ·) := by
  have hlen := readDirective_length h
  rw [List.length_cons] at hlen
  rw [printfFrom, List.length_cons, printfLoop, if_neg (by decide), if_neg (by decide), h]
  dsimp only
  rw [if_pos rfl, printfLoop_eq _ _ (by omega)]

end loop

end MicroKernel.Libc
