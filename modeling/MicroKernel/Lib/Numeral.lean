import Mathlib.Data.Nat.Digits.Defs
import Mathlib.Tactic
import MicroKernel.Lib.Decimal

set_option autoImplicit false

/-! # Numerals in ASCII

`numeral b n` is the canonical numeral of `n` in base `b`, for bases up to sixteen: the digits of
`Nat.digits` from the top, and "0" for zero. A conversion makes it digit by digit, from the last one
(`numeral_of_le`).
-/

namespace MicroKernel.Lib

/-- The character of a digit. -/
def digitChar (d : Nat) : UInt8 := if d < 10 then UInt8.ofNat (48 + d) else UInt8.ofNat (55 + d)

/-- The numeral of `n` in base `b`. -/
def numeral (b n : Nat) : List UInt8 :=
  if n = 0 then [0x30] else ((Nat.digits b n).map digitChar).reverse

/-- The numeral of an integer in base ten, with a sign if it is negative. -/
def signedNumeral (i : Int) : List UInt8 :=
  if i < 0 then 0x2D :: numeral 10 i.natAbs else numeral 10 i.natAbs

variable {b n : Nat}

theorem numeral_of_lt (h : n < b) : numeral b n = [digitChar n] := by
  unfold numeral
  split
  next h0 => rw [h0]; rfl
  next h0 => rw [Nat.digits_of_lt b n h0 h]; rfl

/-- The last digit comes off the end. -/
theorem numeral_of_le (hb : 1 < b) (h : b ≤ n) :
    numeral b n = numeral b (n / b) ++ [digitChar (n % b)] := by
  have hdiv : n / b ≠ 0 := (Nat.div_pos h (by omega)).ne'
  unfold numeral
  rw [if_neg (by omega), if_neg hdiv, Nat.digits_def' hb (by omega), List.map_cons,
    List.reverse_cons]

theorem numeral_ne_nil (b n : Nat) : numeral b n ≠ [] := by
  unfold numeral
  split
  next => simp
  next h => simpa [Nat.digits_ne_nil_iff_ne_zero] using h

/-- A digit is one of the characters `0` to `9` and `A` to `F`. -/
theorem digitChar_range {d : Nat} (hd : d < 16) :
    0x30 ≤ digitChar d ∧ digitChar d ≤ 0x46 ∧ (d < 10 → digitChar d ≤ 0x39) := by
  interval_cases d <;> decide

/-- The characters of a numeral. -/
theorem mem_numeral (hb : 1 < b) (hb' : b ≤ 16) {c : UInt8} (h : c ∈ numeral b n) :
    ∃ d, d < b ∧ c = digitChar d := by
  unfold numeral at h
  split at h
  next => exact ⟨0, by omega, by simpa [digitChar] using h⟩
  next =>
      simp only [List.mem_reverse, List.mem_map] at h
      obtain ⟨d, hd, rfl⟩ := h
      exact ⟨d, Nat.digits_lt_base hb hd, rfl⟩

theorem mem_numeral_range (hb : 1 < b) (hb' : b ≤ 16) {c : UInt8} (h : c ∈ numeral b n) :
    0x30 ≤ c ∧ c ≤ 0x46 := by
  obtain ⟨d, hd, rfl⟩ := mem_numeral hb hb' h
  have hrange := digitChar_range (show d < 16 by omega)
  exact ⟨hrange.1, hrange.2.1⟩

theorem isDigit_of_mem_numeral {c : UInt8} (h : c ∈ numeral 10 n) : IsDigit c := by
  obtain ⟨d, hd, rfl⟩ := mem_numeral (by decide) (by decide) h
  have hrange := digitChar_range (show d < 16 by omega)
  exact ⟨hrange.1, hrange.2.2 hd⟩

theorem zero_not_mem_numeral (hb : 1 < b) (hb' : b ≤ 16) (n : Nat) : 0 ∉ numeral b n := by
  intro h
  have := (mem_numeral_range hb hb' h).1
  revert this
  decide

/-- A numeral does not begin with a zero, unless it is "0". -/
theorem head_numeral_ne (hb : 1 < b) (hb' : b ≤ 16) (hn : 0 < n) (l : List UInt8) :
    (numeral b n ++ l).head? ≠ some 0x30 := by
  induction n using Nat.strong_induction_on generalizing l with
  | _ n ih =>
      rcases Nat.lt_or_ge n b with hlt | hge
      · rw [numeral_of_lt hlt]
        intro h
        have hdigit : digitChar n = 0x30 := Option.some.inj h
        have hlt : n < 16 := by omega
        interval_cases n <;> revert hdigit <;> decide
      · rw [numeral_of_le hb hge, List.append_assoc]
        exact ih (n / b) (Nat.div_lt_self hn hb) (Nat.div_pos hge (by omega)) _

/-- A numeral of a number below `b ^ k` has `k` digits at most. -/
theorem length_numeral_le (hb : 1 < b) {k : Nat} (hk : 0 < k) (h : n < b ^ k) :
    (numeral b n).length ≤ k := by
  unfold numeral
  split
  next => exact hk
  next h0 =>
      rw [List.length_reverse, List.length_map]
      exact (Nat.digits_length_le_iff hb n).mpr h

theorem digit_digitChar {d : Nat} (hd : d < 10) : digit (digitChar d) = d := by
  interval_cases d <;> rfl

theorem decimalFrom_append (n : Nat) (l l' : List UInt8) :
    decimalFrom n (l ++ l') = decimalFrom (decimalFrom n l) l' := List.foldl_append ..

/-- **The value of a numeral.** -/
theorem decimalValue_numeral (n : Nat) : decimalValue (numeral 10 n) = n := by
  induction n using Nat.strong_induction_on with
  | _ n ih =>
      rcases Nat.lt_or_ge n 10 with hlt | hge
      · rw [numeral_of_lt hlt, decimalValue, decimalFrom_cons, decimalFrom_nil,
          digit_digitChar hlt, Nat.mul_zero, Nat.zero_add]
      · -- the number in front of its last digit is smaller
        have hmod := Nat.mod_lt n (show 0 < 10 by decide)
        have hquot := ih (n / 10) (Nat.div_lt_self (by omega) (by decide))
        unfold decimalValue at hquot ⊢
        rw [numeral_of_le (by decide) hge, decimalFrom_append, hquot, decimalFrom_cons,
          decimalFrom_nil, digit_digitChar hmod]
        omega

/-- Zeros in front do not count. -/
theorem decimalValue_zeros (k : Nat) (l : List UInt8) :
    decimalValue (List.replicate k 0x30 ++ l) = decimalValue l := by
  induction k with
  | zero => rfl
  | succ k ih => rw [List.replicate_succ, List.cons_append, decimalValue, decimalFrom_cons]; exact ih

end MicroKernel.Lib
