import MicroKernel.Fat32.Entry
import MicroKernel.Lib.Positional

set_option autoImplicit false

/-! # Numbers in strings (`lib/libc/string.c`)

`strtoul` keeps an unsigned number in an `int`. From `2 ^ 31` on that is negative, and is not more
than the cutoff any more, so that the next digit overflows without being noticed. And the cutoff is
computed before a base of zero has been replaced by the one that the prefix says, which is a division
by zero. `strtoul_iff` says for which strings the result is right all the same.

A pointer is the cells that it leads to. The `int` variables are held as words, as they are in the
processor, which computes modulo `2 ^ 32`.
-/

namespace MicroKernel.Libc

open MicroKernel.Lib Positional
open MicroKernel.Fat32 (toupper)

/-! ## Characters -/

/-- `isspace`. -/
def isspace (c : UInt8) : Bool := c == 0x20 || c == 0x09 || c == 0x0A || c == 0x0D

/-- `isdigit`. -/
def isdigit (c : UInt8) : Bool := 0x30 ≤ c && c ≤ 0x39

/-- `isalpha`. -/
def isalpha (c : UInt8) : Bool := (0x41 ≤ c && c ≤ 0x5A) || (0x61 ≤ c && c ≤ 0x7A)

/-- `ULONG_MAX`. -/
def ulongMax : Nat := 2 ^ 32 - 1

/-! ## `strtoul` -/

/-- A step without a result that C defines. -/
inductive Fault
  | divideError
  | outOfBounds
  deriving DecidableEq

/-- `a / b`. -/
def divide (a b : Nat) : Except Fault Nat := if b = 0 then .error .divideError else .ok (a / b)

/-- `a % b`. -/
def remainder (a b : Nat) : Except Fault Nat := if b = 0 then .error .divideError else .ok (a % b)

/-- The loop over white space. -/
def skipWhite : List UInt8 → Except Fault (List UInt8)
  | [] => .error .outOfBounds
  | c :: str => if isspace c then skipWhite str else .ok (c :: str)

/-- The base and where the digits begin, for a base that is given or for base zero. -/
def takeBase (base : Nat) (str : List UInt8) : Except Fault (Nat × List UInt8) :=
  if base ≠ 0 then .ok (base, str)
  else
    match str with
    | [] => .error .outOfBounds
    | c :: str' =>
        if c = 0x30 then
          match str' with
          | [] => .error .outOfBounds
          | x :: str'' => if x = 0x78 ∨ x = 0x58 then .ok (16, str'') else .ok (8, str')
        else .ok (10, str)

/-- The value of a character as a digit, if it is one. -/
def digitOf (c : UInt8) : Option Nat :=
  if isdigit c then some (c.toNat - 0x30)
  else if isalpha c then some ((toupper c).toNat - 0x41 + 10)
  else none

/-- The loop over the digits. -/
def strtoulLoop (base cutoff cutlim : Nat) : List UInt8 → Nat → Except Fault (Nat × List UInt8)
  | [], _ => .error .outOfBounds
  | c :: str, result =>
      if c = 0 then .ok (result, c :: str)
      else
        match digitOf c with
        | none => .ok (result, c :: str)
        | some digit =>
            if base ≤ digit then .ok (result, c :: str)
            else if asInt cutoff < asInt result ∨
                (asInt result = asInt cutoff ∧ asInt cutlim < digit) then
              .ok (ulongMax, c :: str)
            else strtoulLoop base cutoff cutlim str (u32 (result * base + digit))

/-- `strtoul`: the result, and the cells that `*endptr` leads to. -/
def strtoul (str : List UInt8) (base : Int) : Except Fault (Nat × List UInt8) := do
  if base ≠ 0 ∧ (base < 2 ∨ 36 < base) then return (0, str)
  let base := base.toNat
  let cutoff ← divide ulongMax base
  let cutlim ← remainder ulongMax base
  let str ← skipWhite str
  let (base, str) ← takeBase base str
  strtoulLoop base cutoff cutlim str 0

/-! ## What it should return -/

/-- The character is a digit of the base. -/
def isDigitOf (base : Nat) (c : UInt8) : Bool := (digitOf c).any (· < base)

/-- The run of digits that a string begins with. -/
def run (base : Nat) (s : List UInt8) : List Nat := (s.takeWhile (isDigitOf base)).filterMap digitOf

/-- The base and where the digits begin in a string. -/
def baseOf (base : Nat) (s : List UInt8) : Nat × List UInt8 :=
  if base ≠ 0 then (base, s)
  else
    match s with
    | 0x30 :: 0x78 :: s => (16, s)
    | 0x30 :: 0x58 :: s => (16, s)
    | 0x30 :: s => (8, s)
    | s => (10, s)

/-- The value of the run of digits, or the largest number, and what is behind the run. -/
def expected (base : Nat) (s : List UInt8) : Nat × List UInt8 :=
  let (b, s) := baseOf base (s.dropWhile isspace)
  (min (valueFrom b 0 (run b s)) ulongMax, s.dropWhile (isDigitOf b))

/-- At no digit is an overflow noticed: the number `p` in front of it, modulo `2 ^ 32`, is negative as
an `int`, or the digit does not take it above the largest number. -/
def Unnoticed (base v : Nat) (ds : List Nat) : Prop :=
  ∀ p d q, ds = p ++ d :: q →
    2 ^ 31 ≤ valueFrom base v p % 2 ^ 32 ∨ valueFrom base v p % 2 ^ 32 * base + d ≤ ulongMax

/-- The number fits, or its low 32 bits are ones and no overflow is noticed. -/
def Fits (base : Nat) (ds : List Nat) : Prop :=
  valueFrom base 0 ds ≤ ulongMax ∨
    (valueFrom base 0 ds % 2 ^ 32 = ulongMax ∧ Unnoticed base 0 ds)

/-! ## The loop -/

section loop

variable {base v d : Nat} {ds : List Nat} {s rest : List UInt8}

theorem unnoticed_cons : Unnoticed base v (d :: ds) ↔
    (2 ^ 31 ≤ v % 2 ^ 32 ∨ v % 2 ^ 32 * base + d ≤ ulongMax) ∧
      Unnoticed base (v * base + d) ds := by
  constructor
  · intro h
    exact ⟨h [] d ds rfl, fun p e q hds => h (d :: p) e q (by rw [hds, List.cons_append])⟩
  · rintro ⟨hd, h⟩ p e q hds
    cases p with
    | nil =>
        obtain ⟨rfl, rfl⟩ := List.cons.inj hds
        exact hd
    | cons x p =>
        obtain ⟨rfl, rfl⟩ := List.cons.inj hds
        exact h p e q rfl

/-- A number that fits overflows nowhere. -/
theorem unnoticed_of_le (hb : 0 < base) (h : valueFrom base v ds ≤ ulongMax) :
    Unnoticed base v ds := by
  rintro p d q rfl
  refine Or.inr ?_
  calc valueFrom base v p % 2 ^ 32 * base + d
      ≤ valueFrom base v p * base + d :=
        Nat.add_le_add_right (Nat.mul_le_mul_right _ (Nat.mod_le _ _)) _
    _ ≤ valueFrom base (valueFrom base v p * base + d) q := le_valueFrom hb _ _
    _ = valueFrom base v (p ++ d :: q) := by rw [valueFrom_append, valueFrom_cons]
    _ ≤ ulongMax := h

/-- What the test of the loop notices. -/
theorem notices_iff (hb : 2 ≤ base) (hb' : base ≤ 36) (hd : d < base) {w : Nat} (hw : w < 2 ^ 32) :
    (asInt (ulongMax / base) < asInt w ∨
        (asInt w = asInt (ulongMax / base) ∧ asInt (ulongMax % base) < d)) ↔
      ¬ (2 ^ 31 ≤ w ∨ w * base + d ≤ ulongMax) := by
  have hcutoff : ulongMax / base < 2 ^ 31 := by
    calc ulongMax / base ≤ ulongMax / 2 := Nat.div_le_div_left hb (by decide)
      _ < 2 ^ 31 := by decide
  have hcutlim : ulongMax % base < 2 ^ 31 := by
    have := Nat.mod_lt ulongMax (show 0 < base by omega)
    omega
  have hlimit := lt_mul_add_iff (n := ulongMax) (v := w) hd
  rw [not_or, Nat.not_le, Nat.not_le, hlimit]
  generalize ulongMax / base = cutoff, ulongMax % base = cutlim at *
  unfold asInt
  rw [if_pos hcutoff, if_pos hcutlim]
  by_cases hpos : w < 2 ^ 31
  · rw [if_pos hpos]
    omega
  · rw [if_neg hpos]
    omega

theorem isDigitOf_of_digitOf {c : UInt8} (h : digitOf c = some d) :
    isDigitOf base c = decide (d < base) := by
  rw [isDigitOf, h, Option.any_some]

theorem run_cons {c : UInt8} (h : digitOf c = some d) (hd : d < base) (s : List UInt8) :
    run base (c :: s) = d :: run base s := by
  have hdigit : isDigitOf base c = true := by rw [isDigitOf_of_digitOf h, decide_eq_true hd]
  rw [run, List.takeWhile_cons_of_pos hdigit, List.filterMap_cons_some h, run]

theorem run_of_not {c : UInt8} (h : isDigitOf base c = false) (s : List UInt8) :
    run base (c :: s) = [] := by
  rw [run, List.takeWhile_cons_of_neg (by simp [h]), List.filterMap_nil]

theorem unnoticed_nil (base v : Nat) : Unnoticed base v [] := by
  intro p d q h
  simp at h

/-- **The loop over the digits**: all of them are taken if no overflow is noticed, else it stops in the
middle of them. `v` is the number that the digits so far make. -/
theorem strtoulLoop_spec (hb : 2 ≤ base) (hb' : base ≤ 36) (hs : 0 ∉ s) (rest : List UInt8)
    (v : Nat) :
    (Unnoticed base v (run base s) →
      strtoulLoop base (ulongMax / base) (ulongMax % base) (s ++ 0 :: rest) (v % 2 ^ 32)
        = .ok (valueFrom base v (run base s) % 2 ^ 32,
            s.dropWhile (isDigitOf base) ++ 0 :: rest)) ∧
    (¬ Unnoticed base v (run base s) → ∃ t, (s.dropWhile (isDigitOf base)).length < t.length ∧
      strtoulLoop base (ulongMax / base) (ulongMax % base) (s ++ 0 :: rest) (v % 2 ^ 32)
        = .ok (ulongMax, t ++ 0 :: rest)) := by
  induction s generalizing v with
  | nil =>
      refine ⟨fun _ => ?_, fun h => absurd (unnoticed_nil base v) h⟩
      rw [List.nil_append, strtoulLoop, if_pos rfl]
      rfl
  | cons c s ih =>
      rw [List.mem_cons, not_or] at hs
      have hc : c ≠ 0 := Ne.symm hs.1
      by_cases hdigit : isDigitOf base c = true
      · obtain ⟨digit, hof, hlt⟩ : ∃ digit, digitOf c = some digit ∧ digit < base := by
          cases hof : digitOf c with
          | none => simp [isDigitOf, hof] at hdigit
          | some digit => exact ⟨digit, rfl, by simpa [isDigitOf, hof] using hdigit⟩
        have hnext : u32 (v % 2 ^ 32 * base + digit) = (v * base + digit) % 2 ^ 32 := by
          rw [u32, Nat.add_mod, Nat.mod_mul_mod, ← Nat.add_mod]
        have hword : v % 2 ^ 32 < 2 ^ 32 := Nat.mod_lt _ (by decide)
        rw [run_cons hof hlt, unnoticed_cons, List.dropWhile_cons_of_pos hdigit, List.cons_append,
          strtoulLoop, if_neg hc, hof]
        dsimp only
        rw [if_neg (Nat.not_le.mpr hlt)]
        by_cases hgood : 2 ^ 31 ≤ v % 2 ^ 32 ∨ v % 2 ^ 32 * base + digit ≤ ulongMax
        · rw [if_neg ((notices_iff hb hb' hlt hword).not.mpr (not_not.mpr hgood)), hnext, and_iff_right hgood]
          exact ih hs.2 _
        · rw [if_pos ((notices_iff hb hb' hlt hword).mpr hgood)]
          refine ⟨fun h => absurd h.1 hgood, fun _ => ⟨c :: s, ?_, rfl⟩⟩
          exact Nat.lt_succ_of_le (List.dropWhile_sublist _).length_le
      · -- the run ends here
        rw [Bool.not_eq_true] at hdigit
        rw [run_of_not hdigit, List.dropWhile_cons_of_neg (by simp [hdigit]), List.cons_append,
          strtoulLoop, if_neg hc]
        refine ⟨fun _ => ?_, fun h => absurd (unnoticed_nil base v) h⟩
        cases hof : digitOf c with
        | none => rfl
        | some digit =>
            rw [isDigitOf_of_digitOf hof, decide_eq_false_iff_not, Nat.not_lt] at hdigit
            dsimp only
            rw [if_pos hdigit]
            rfl

/-- With the value and the place that the loop should come to: exactly when the number fits. -/
theorem strtoulLoop_iff (hb : 2 ≤ base) (hb' : base ≤ 36) (hs : 0 ∉ s) (rest : List UInt8) :
    strtoulLoop base (ulongMax / base) (ulongMax % base) (s ++ 0 :: rest) 0
        = .ok (min (valueFrom base 0 (run base s)) ulongMax,
            s.dropWhile (isDigitOf base) ++ 0 :: rest) ↔ Fits base (run base s) := by
  obtain ⟨htaken, hstopped⟩ := strtoulLoop_spec hb hb' hs rest 0
  rw [Nat.zero_mod] at htaken hstopped
  have hfits : valueFrom base 0 (run base s) ≤ ulongMax → Unnoticed base 0 (run base s) :=
    unnoticed_of_le (by omega)
  unfold Fits
  by_cases hun : Unnoticed base 0 (run base s)
  · rw [htaken hun]
    simp only [Except.ok.injEq, Prod.mk.injEq, and_true, hun, ulongMax]
    omega
  · -- the loop stops before the end of the run
    obtain ⟨t, hlen, hloop⟩ := hstopped hun
    rw [hloop]
    refine iff_of_false (fun h => ?_) ?_
    · have hrest := congrArg List.length (Prod.mk.inj (Except.ok.inj h)).2
      simp only [List.length_append] at hrest
      omega
    · rintro (hle | ⟨-, hun'⟩)
      · exact hun (hfits hle)
      · exact hun hun'

theorem skipWhite_eq (hs : 0 ∉ s) (rest : List UInt8) :
    skipWhite (s ++ 0 :: rest) = .ok (s.dropWhile isspace ++ 0 :: rest) := by
  induction s with
  | nil => rfl
  | cons c s ih =>
      rw [List.mem_cons, not_or] at hs
      rw [List.cons_append, skipWhite]
      by_cases hc : isspace c = true
      · rw [if_pos hc, ih hs.2, List.dropWhile_cons_of_pos hc]
      · rw [if_neg hc, List.dropWhile_cons_of_neg hc]
        rfl

/-- With base zero the division comes first. -/
theorem strtoul_zero (str : List UInt8) : strtoul str 0 = .error .divideError := rfl

/-- With a base the digits begin behind the white space. -/
theorem strtoul_base (hb : 2 ≤ base) (hb' : base ≤ 36) (hs : 0 ∉ s) (rest : List UInt8) :
    strtoul (s ++ 0 :: rest) base = strtoulLoop base (ulongMax / base) (ulongMax % base)
      (s.dropWhile isspace ++ 0 :: rest) 0 := by
  have hvalid : ¬ ((base : Int) ≠ 0 ∧ ((base : Int) < 2 ∨ 36 < (base : Int))) := by omega
  have hne : base ≠ 0 := by omega
  unfold strtoul
  rw [if_neg hvalid]
  simp only [Int.toNat_natCast, divide, remainder, skipWhite_eq hs, takeBase, ne_eq, hne,
    not_false_eq_true, if_true]
  rfl

end loop

/-- **`strtoul`**, for every string and every base that is zero or between 2 and 36: the result is the
value of the run of digits, or the largest number if that is less, and the end is behind the run,
exactly when the base is not zero and the number fits. -/
theorem strtoul_iff {s : List UInt8} (hs : 0 ∉ s) {base : Nat} (hbase : base = 0 ∨ 2 ≤ base ∧ base ≤ 36)
    (rest : List UInt8) :
    strtoul (s ++ 0 :: rest) base = .ok ((expected base s).1, (expected base s).2 ++ 0 :: rest) ↔
      base ≠ 0 ∧ Fits base (run base (s.dropWhile isspace)) := by
  rcases hbase with rfl | ⟨hb, hb'⟩
  · refine iff_of_false (fun h => ?_) fun h => h.1 rfl
    rw [Nat.cast_zero, strtoul_zero] at h
    cases h
  · have hne : base ≠ 0 := by omega
    have hs' : 0 ∉ s.dropWhile isspace := fun h => hs ((List.dropWhile_sublist _).subset h)
    have hexpected : expected base s
        = (min (valueFrom base 0 (run base (s.dropWhile isspace))) ulongMax,
            (s.dropWhile isspace).dropWhile (isDigitOf base)) := by
      unfold expected baseOf
      rw [if_pos hne]
    rw [strtoul_base hb hb' hs, hexpected, and_iff_right hne]
    exact strtoulLoop_iff hb hb' hs' rest

/-- The string " 4294967295" in base ten. -/
theorem strtoul_iff_largest :
    strtoul [0x20, 0x34, 0x32, 0x39, 0x34, 0x39, 0x36, 0x37, 0x32, 0x39, 0x35, 0] (10 : Nat)
      = .ok (4294967295, [0]) :=
  (strtoul_iff (s := [0x20, 0x34, 0x32, 0x39, 0x34, 0x39, 0x36, 0x37, 0x32, 0x39, 0x35])
    (by decide) (Or.inr (by decide)) []).mpr ⟨by decide, Or.inl (by decide)⟩

/-- Base zero is a division by zero; in base ten the result for "30000000000" is that number modulo
`2 ^ 32`; and for "4294967296" the end is in front of the last digit. -/
theorem not_strtoul :
    strtoul [0x31, 0x30, 0] 0 = .error .divideError ∧
      (expected 0 [0x31, 0x30]).1 = 10 ∧
    strtoul [0x33, 0x30, 0x30, 0x30, 0x30, 0x30, 0x30, 0x30, 0x30, 0x30, 0x30, 0] 10
        = .ok (4230196224, [0]) ∧
      (expected 10 [0x33, 0x30, 0x30, 0x30, 0x30, 0x30, 0x30, 0x30, 0x30, 0x30, 0x30]).1
        = 4294967295 ∧
    strtoul [0x34, 0x32, 0x39, 0x34, 0x39, 0x36, 0x37, 0x32, 0x39, 0x36, 0] 10
        = .ok (4294967295, [0x36, 0]) ∧
      expected 10 [0x34, 0x32, 0x39, 0x34, 0x39, 0x36, 0x37, 0x32, 0x39, 0x36] = (4294967295, []) := by
  decide

end MicroKernel.Libc
