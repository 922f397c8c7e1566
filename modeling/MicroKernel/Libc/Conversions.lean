import MicroKernel.Lib.Numeral
import MicroKernel.Lib.Positional
import MicroKernel.Lib.Word

set_option autoImplicit false

/-! # Numbers as strings (`lib/libc/stdio.c`, `lib/libc/string.c`)

`int_to_str`, `unsigned_int_to_str`, `uint64_t_to_str` and `int_to_hex_str`, which `printf` and
`sprintf` call. Each fills a buffer from its first cell on, without a gap, and the result here is the
list of the cells that it has written; how many these are says whether they fit.

An `int` is an integer in its range, and its negation wraps (`negate`): `int_to_str` cannot negate
the least one and makes other characters than digits of it.
-/

namespace MicroKernel.Libc

open MicroKernel.Lib

/-! ## The functions -/

/-- The loop of `reverse`. -/
def reverseLoop : Nat → Nat → Nat → List UInt8 → List UInt8
  | 0, _, _, str => str
  | k + 1, start, stop, str =>
      if start < stop then
        let temp := str.getD start 0
        reverseLoop k (start + 1) (stop - 1) ((str.set start (str.getD stop 0)).set stop temp)
      else str

/-- `reverse`. -/
def reverse (str : List UInt8) (length : Nat) : List UInt8 := reverseLoop length 0 (length - 1) str

/-- `-i` in an `int`. -/
def negate (i : Int) : Int := asInt (asWord (-i))

/-- The loop of `int_to_str`: the characters from the last digit on. -/
def intDigits (base : Int) : Nat → Int → List UInt8
  | 0, _ => []
  | k + 1, num =>
      if num ≠ 0 then
        let rem := num.tmod base
        UInt8.ofInt (if 9 < rem then rem - 10 + 0x61 else rem + 0x30)
          :: intDigits base k (num.tdiv base)
      else []

/-- `int_to_str`: the cells written and the length that it returns. -/
def intToStr (num base : Int) : List UInt8 × Nat :=
  if num = 0 then ([0x30, 0], 1)
  else
    let isNegative := decide (num < 0 ∧ base = 10)
    let num := if isNegative then negate num else num
    let str := intDigits base num.natAbs num
    let str := if isNegative then str ++ [0x2D] else str
    (reverse (str ++ [0]) str.length, str.length)

/-- The loop of `unsigned_int_to_str`. -/
def unsignedDigits (base : Nat) : Nat → Nat → List UInt8
  | 0, _ => []
  | k + 1, value =>
      if 0 < value then
        let digit := value % base
        UInt8.ofNat (if 9 < digit then digit - 10 + 0x61 else digit + 0x30)
          :: unsignedDigits base k (value / base)
      else []

/-- `unsigned_int_to_str`. -/
def unsignedIntToStr (value base : Nat) : List UInt8 :=
  if value = 0 then [0x30, 0]
  else
    let buffer := unsignedDigits base value value
    reverse (buffer ++ [0]) buffer.length

/-- The table `hex_digits`. -/
def hexDigits : List UInt8 :=
  [0x30, 0x31, 0x32, 0x33, 0x34, 0x35, 0x36, 0x37, 0x38, 0x39, 0x41, 0x42, 0x43, 0x44, 0x45, 0x46]

/-- The loop of `uint64_t_to_str`. -/
def uint64Digits (base : Nat) : Nat → Nat → List UInt8
  | 0, _ => []
  | k + 1, value =>
      if 0 < value then hexDigits.getD (value % base) 0 :: uint64Digits base k (value / base) else []

/-- `uint64_t_to_str`. -/
def uint64ToStr (value base : Nat) : List UInt8 :=
  if base < 2 ∨ 16 < base then [0]
  else
    let temp := if value = 0 then [0x30] else uint64Digits base value value
    temp.reverse ++ [0]

/-- The loop of `int_to_hex_str`, which tests the value after the digit. -/
def hexLoop : Nat → Nat → List UInt8
  | 0, _ => []
  | k + 1, value =>
      hexDigits.getD (value % 16) 0 :: if 0 < value / 16 then hexLoop k (value / 16) else []

/-- `int_to_hex_str`. -/
def intToHexStr (value : Nat) (width : Int) (zeroPadding : Bool) : List UInt8 :=
  let temp := hexLoop (value + 1) value
  let padding := if (temp.length : Int) < width then (width - temp.length).toNat else 0
  List.replicate padding (if zeroPadding then 0x30 else 0x20) ++ (temp.reverse ++ [0])

/-! ## What they write -/

/-- In an `int` every negative number but the least one can be negated. -/
theorem negate_eq {v : Int} (h : -2 ^ 31 < v) (h0 : v < 0) : negate v = (v.natAbs : Int) := by
  unfold negate asInt asWord
  split <;> omega

/-- The part `m` of the cells is what is still to be reversed. -/
theorem reverseLoop_eq (m : List UInt8) (k : Nat) (hk : m.length ≤ k) (a b : List UInt8) :
    reverseLoop k a.length (a.length + m.length - 1) (a ++ (m ++ b)) = a ++ (m.reverse ++ b) := by
  induction m using List.bidirectionalRec generalizing k a b with
  | nil =>
      cases k with
      | zero => rfl
      | succ k => rw [reverseLoop, if_neg (by simp)]; rfl
  | singleton x =>
      cases k with
      | zero => rfl
      | succ k => rw [reverseLoop, if_neg (by simp)]; rfl
  | cons_append x l y ih =>
      simp only [List.length_cons, List.length_append, List.length_nil] at hk ⊢
      obtain ⟨k, rfl⟩ : ∃ j, k = j + 1 := ⟨k - 1, by omega⟩
      have hstop : a.length + (l.length + (0 + 1) + 1) - 1 = a.length + (l.length + 1) := by omega
      have hcells : a ++ (x :: (l ++ [y]) ++ b) = a ++ x :: (l ++ y :: b) := by simp
      have hfirst : (a ++ x :: (l ++ y :: b)).getD a.length 0 = x := by simp
      have hlast : (a ++ x :: (l ++ y :: b)).getD (a.length + (l.length + 1)) 0 = y := by simp
      -- the outer two cells have changed places, and the rest is shorter by two
      have hswap : ((a ++ x :: (l ++ y :: b)).set a.length y).set (a.length + (l.length + 1)) x
          = (a ++ [y]) ++ (l ++ (x :: b)) := by simp
      have hrest := ih k (by omega) (a ++ [y]) (x :: b)
      rw [List.length_append, List.length_singleton] at hrest
      rw [hstop, hcells, reverseLoop, if_pos (by omega)]
      dsimp only
      rw [hfirst, hlast, hswap]
      have hnext : a.length + (l.length + 1) - 1 = a.length + 1 + l.length - 1 := by omega
      rw [hnext, hrest]
      simp

theorem reverse_eq (l rest : List UInt8) : reverse (l ++ rest) l.length = l.reverse ++ rest := by
  have h := reverseLoop_eq l l.length (Nat.le_refl _) [] rest
  rw [List.length_nil, Nat.zero_add, List.nil_append, List.nil_append] at h
  exact h

theorem hexDigits_getD {d : Nat} (hd : d < 16) : hexDigits.getD d 0 = digitChar d := by
  interval_cases d <;> rfl

/-- A digit as `int_to_str` and `unsigned_int_to_str` write it. -/
def lowerChar (d : Nat) : UInt8 := UInt8.ofNat (if 9 < d then d - 10 + 0x61 else d + 0x30)

theorem lowerChar_of_lt {d : Nat} (hd : d < 10) : lowerChar d = digitChar d := by
  rw [lowerChar, if_neg (by omega), digitChar, if_pos hd, Nat.add_comm]

section digits

variable {base n : Nat}

theorem unsignedDigits_eq (hb : 1 < base) (k : Nat) (hk : n ≤ k) :
    unsignedDigits base k n = (Nat.digits base n).map lowerChar := by
  refine Positional.loop_eq_digits hb (fun k => ?_) (fun k n hn => ?_) k hk
  · cases k <;> rfl
  · rw [unsignedDigits, if_pos hn]
    rfl

theorem uint64Digits_eq (hb : 1 < base) (hb' : base ≤ 16) (k : Nat) (hk : n ≤ k) :
    uint64Digits base k n = (Nat.digits base n).map digitChar := by
  refine Positional.loop_eq_digits hb (fun k => ?_) (fun k n hn => ?_) k hk
  · cases k <;> rfl
  · have hdigit := Nat.mod_lt n (Nat.zero_lt_of_lt hb)
    rw [uint64Digits, if_pos hn, hexDigits_getD (by omega)]

/-- `unsigned_int_to_str`, which turns the digits round in place. -/
theorem unsignedIntToStr_of_pos (hb : 1 < base) (hn : n ≠ 0) :
    unsignedIntToStr n base = ((Nat.digits base n).map lowerChar).reverse ++ [0] := by
  unfold unsignedIntToStr
  rw [if_neg hn]
  dsimp only
  rw [reverse_eq, unsignedDigits_eq hb n (Nat.le_refl n)]

/-- `uint64_t_to_str`, which turns them round on the way from the temporary buffer. -/
theorem uint64ToStr_eq (hb : 1 < base) (hb' : base ≤ 16) (n : Nat) :
    uint64ToStr n base = numeral base n ++ [0] := by
  unfold uint64ToStr numeral
  rw [if_neg (by omega)]
  dsimp only
  split
  next => rfl
  next => rw [uint64Digits_eq hb hb' n (Nat.le_refl n)]

end digits

theorem unsignedDigits_ten (n : Nat) (hn : n ≠ 0) :
    unsignedDigits 10 n n = (numeral 10 n).reverse := by
  rw [unsignedDigits_eq (by decide) n (Nat.le_refl n), numeral, if_neg hn, List.reverse_reverse]
  exact List.map_congr_left fun d hd => lowerChar_of_lt (Nat.digits_lt_base (by decide) hd)

/-- `unsigned_int_to_str` in base ten. -/
theorem unsignedIntToStr_eq (n : Nat) : unsignedIntToStr n 10 = numeral 10 n ++ [0] := by
  unfold unsignedIntToStr
  split
  next h => rw [h]; rfl
  next h =>
      dsimp only
      rw [reverse_eq, unsignedDigits_ten n h, List.reverse_reverse]

theorem ofInt_natCast (n : Nat) : UInt8.ofInt (n : Int) = UInt8.ofNat n := by
  rw [UInt8.ofInt, ← UInt8.toNat_inj, UInt8.toNat_ofNat', UInt8.toNat_ofNat']
  omega

/-- On numbers that are not negative the loop of `int_to_str` is the unsigned one. -/
theorem intDigits_natCast (k n : Nat) : intDigits 10 k n = unsignedDigits 10 k n := by
  induction k generalizing n with
  | zero => rfl
  | succ k ih =>
      rw [intDigits, unsignedDigits]
      rcases Nat.eq_zero_or_pos n with rfl | hn
      · rfl
      · have hmod := Nat.mod_lt n (show 0 < 10 by decide)
        have htmod : (n : Int).tmod 10 = ((n % 10 : Nat) : Int) := rfl
        have htdiv : (n : Int).tdiv 10 = ((n / 10 : Nat) : Int) := rfl
        rw [if_pos (by omega), if_pos hn]
        dsimp only
        rw [htmod, htdiv, ih, if_neg (by omega), if_neg (by omega)]
        exact congrArg (· :: _) (ofInt_natCast (n % 10 + 0x30))

/-- `int_to_str` in base ten, of a number that is not negative. -/
theorem intToStr_natCast (n : Nat) :
    intToStr n 10 = (numeral 10 n ++ [0], (numeral 10 n).length) := by
  unfold intToStr
  split
  next h =>
      obtain rfl : n = 0 := by omega
      rfl
  next h =>
      have hneg : decide ((n : Int) < 0 ∧ (10 : Int) = 10) = false := by
        rw [decide_eq_false_iff_not]
        omega
      dsimp only
      rw [hneg, if_neg Bool.false_ne_true, if_neg Bool.false_ne_true, Int.natAbs_natCast,
        intDigits_natCast, reverse_eq, unsignedDigits_ten n (by omega), List.reverse_reverse,
        List.length_reverse]

theorem hexLoop_eq {n : Nat} (k : Nat) (hk : n < k) : hexLoop k n = (numeral 16 n).reverse := by
  induction k generalizing n with
  | zero => omega
  | succ k ih =>
      rw [hexLoop, hexDigits_getD (Nat.mod_lt n (by decide))]
      rcases Nat.lt_or_ge n 16 with hlt | hge
      · rw [numeral_of_lt hlt, Nat.mod_eq_of_lt hlt, Nat.div_eq_of_lt hlt, if_neg (by decide)]
        rfl
      · -- the loop makes the last digit first
        rw [if_pos (by omega), ih (by omega), numeral_of_le (by decide) hge, List.reverse_append]
        rfl

/-- `int_to_hex_str`: the padding is on the left. -/
theorem intToHexStr_eq (n w : Nat) (zeroPadding : Bool) :
    intToHexStr n w zeroPadding
      = List.replicate (w - (numeral 16 n).length) (if zeroPadding then 0x30 else 0x20)
        ++ (numeral 16 n ++ [0]) := by
  unfold intToHexStr
  dsimp only
  rw [hexLoop_eq (n + 1) (Nat.lt_succ_self n), List.length_reverse, List.reverse_reverse]
  congr 2
  split <;> omega

end MicroKernel.Libc
