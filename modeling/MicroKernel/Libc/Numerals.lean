import Mathlib.Data.List.TakeWhile
import MicroKernel.Libc.Conversions
import MicroKernel.Libc.Strtoul

set_option autoImplicit false

/-! # What the conversions print (`lib/libc/stdio.c`, `lib/libc/string.c`)

`unsigned_int_to_str`, `uint64_t_to_str` and `int_to_hex_str` write the numeral of a value, the first
one with small letters and the other two with capital ones. `digitOf` takes both for digits, as
`strtoul` does, which therefore reads back what they have written.
-/

namespace MicroKernel.Libc

open MicroKernel.Lib Positional

/-- The cells are the numeral of `n` in a base and its end, with no more than `room` digits. -/
def Prints (base n room : Nat) (cells : List UInt8) : Prop :=
  ∃ s, cells = s ++ [0] ∧ IsNumeral digitOf base n s ∧ s.length ≤ room

/-! ## The characters -/

theorem digitOf_lowerChar {d : Nat} (hd : d < 16) : digitOf (lowerChar d) = some d := by
  interval_cases d <;> decide

theorem digitOf_digitChar {d : Nat} (hd : d < 16) : digitOf (digitChar d) = some d := by
  interval_cases d <;> decide

/-- White space is no digit. -/
theorem digitOf_of_isspace {c : UInt8} (h : isspace c = true) : digitOf c = none := by
  simp only [isspace, Bool.or_eq_true, beq_iff_eq] at h
  obtain ((rfl | rfl) | rfl) | rfl := h <;> rfl

variable {base n room : Nat} {s cells : List UInt8}

theorem isNumeral_numeral (hb : 1 < base) (hb' : base ≤ 16) (n : Nat) :
    IsNumeral digitOf base n (numeral base n) := by
  unfold numeral
  split
  next h =>
      rw [h]
      exact isNumeral_singleton (by omega) rfl
  next h => exact isNumeral_digits hb (fun d hd => digitOf_digitChar (by omega)) h

/-! ## The functions -/

theorem prints_of_isNumeral (h : IsNumeral digitOf base n s) (hroom : 0 < room)
    (hn : n < base ^ room) : Prints base n room (s ++ [0]) := ⟨s, rfl, h, h.length_le hroom hn⟩

/-- In no base are there more digits than bits. -/
theorem lt_pow_of_lt {w : Nat} (hb : 1 < base) (hn : n < 2 ^ w) : n < base ^ w :=
  Nat.lt_of_lt_of_le hn (Nat.pow_le_pow_left hb w)

theorem unsignedIntToStr_prints (hb : 1 < base) (hb' : base ≤ 16) (hn : n < 2 ^ 32) :
    Prints base n 32 (unsignedIntToStr n base) := by
  rcases Nat.eq_zero_or_pos n with rfl | hpos
  · exact prints_of_isNumeral (isNumeral_singleton (d := 0) (c := 0x30) (by omega) rfl)
      (by decide) (lt_pow_of_lt hb hn)
  · rw [unsignedIntToStr_of_pos hb hpos.ne']
    have hdigits := isNumeral_digits hb (fun d hd => digitOf_lowerChar (by omega)) hpos.ne'
    exact prints_of_isNumeral hdigits (by decide) (lt_pow_of_lt hb hn)

theorem uint64ToStr_prints (hb : 1 < base) (hb' : base ≤ 16) (hn : n < 2 ^ 64) :
    Prints base n 64 (uint64ToStr n base) := by
  rw [uint64ToStr_eq hb hb']
  exact prints_of_isNumeral (isNumeral_numeral hb hb' n) (by decide) (lt_pow_of_lt hb hn)

/-- Without padding, which is for a width of at most the number of digits. -/
theorem intToHexStr_prints {width : Int} (hwidth : width ≤ (hexLoop (n + 1) n).length)
    (zeroPadding : Bool) (hn : n < 2 ^ 32) : Prints 16 n 8 (intToHexStr n width zeroPadding) := by
  have hcells : intToHexStr n width zeroPadding = numeral 16 n ++ [0] := by
    unfold intToHexStr
    dsimp only
    rw [if_neg (by omega), hexLoop_eq (n + 1) (Nat.lt_succ_self n), List.reverse_reverse]
    rfl
  rw [hcells]
  exact prints_of_isNumeral (isNumeral_numeral (by decide) (by decide) n) (by decide)
    (Nat.lt_of_lt_of_le hn (by decide))

/-- **Numeral printing**, with the temporary buffers of 64 and of 32 characters. -/
theorem numerals_printed (hb : 2 ≤ base) (hb' : base ≤ 16) :
    (∀ value < 2 ^ 32, Prints base value 32 (unsignedIntToStr value base)) ∧
    (∀ value < 2 ^ 64, Prints base value 64 (uint64ToStr value base)) ∧
    ∀ value < 2 ^ 32, ∀ (width : Int) (zeroPadding : Bool),
      width ≤ (hexLoop (value + 1) value).length →
        Prints 16 value 8 (intToHexStr value width zeroPadding) :=
  ⟨fun _ hvalue => unsignedIntToStr_prints hb hb' hvalue,
    fun _ hvalue => uint64ToStr_prints hb hb' hvalue,
    fun _ hvalue _ zeroPadding hwidth => intToHexStr_prints hwidth zeroPadding hvalue⟩

/-- The largest values in base two, and zero in base sixteen. -/
theorem numerals_printed_two :
    Prints 2 (2 ^ 32 - 1) 32 (unsignedIntToStr (2 ^ 32 - 1) 2) ∧
      Prints 2 (2 ^ 64 - 1) 64 (uint64ToStr (2 ^ 64 - 1) 2) ∧
      Prints 16 0 8 (intToHexStr 0 1 true) := by
  obtain ⟨hunsigned, hlong, hhex⟩ := @numerals_printed 2 (by decide) (by decide)
  exact ⟨hunsigned _ (by decide), hlong _ (by decide), hhex 0 (by decide) 1 true (by decide)⟩

/-! ## Reading them back -/

section strtoul

variable (h : IsNumeral digitOf base n s)
include h

theorem isDigitOf_of_mem {c : UInt8} (hc : c ∈ s) : isDigitOf base c = true := by
  obtain ⟨d, hd, hdigit⟩ := h.isDigit c hc
  rw [isDigitOf_of_digitOf hdigit, decide_eq_true hd]

theorem zero_not_mem : 0 ∉ s := by
  intro hzero
  have hdigit := isDigitOf_of_mem h hzero
  revert hdigit
  simp [isDigitOf, digitOf, isdigit, isalpha]

theorem run_numeral : run base s = s.filterMap digitOf := by
  rw [run, List.takeWhile_eq_self_iff.mpr fun c hc => isDigitOf_of_mem h hc]

theorem dropWhile_isspace_numeral : s.dropWhile isspace = s := by
  rw [List.dropWhile_eq_self_iff]
  intro hlen hspace
  have hdigit := isDigitOf_of_mem h (List.getElem_mem hlen)
  rw [isDigitOf, digitOf_of_isspace hspace] at hdigit
  exact Bool.false_ne_true hdigit

end strtoul

/-- **`strtoul` reads back what is printed.** -/
theorem strtoul_of_prints (hb : 2 ≤ base) (hb' : base ≤ 36) (hn : n < 2 ^ 32)
    (h : Prints base n room cells) : strtoul cells base = .ok (n, [0]) := by
  obtain ⟨s, rfl, hnum, -⟩ := h
  have hle : n ≤ ulongMax := Nat.le_pred_of_lt hn
  have hvalue : valueFrom base 0 (run base s) = n := by rw [run_numeral hnum, hnum.value]
  have hloop := (strtoulLoop_iff hb hb' (zero_not_mem hnum) []).mpr (Or.inl (hvalue.symm ▸ hle))
  have hrest : s.dropWhile (isDigitOf base) = [] :=
    List.dropWhile_eq_nil_iff.mpr fun c hc => isDigitOf_of_mem hnum hc
  rw [strtoul_base hb hb' (zero_not_mem hnum), dropWhile_isspace_numeral hnum, hloop, hvalue, hrest,
    Nat.min_eq_left hle]
  rfl

end MicroKernel.Libc
