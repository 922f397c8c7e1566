import Mathlib.Tactic

set_option autoImplicit false

/-! # Decimal numbers in ASCII

A digit is one of the characters `0` to `9`, and a list of them has a value. A number below 256 has
its decimal form without leading zeros (`decimalByte`); a list of digits that has a given value may
have any number of them.
-/

namespace MicroKernel.Lib

/-- The characters `0` to `9`. -/
def IsDigit (c : UInt8) : Prop := 0x30 ≤ c ∧ c ≤ 0x39

instance (c : UInt8) : Decidable (IsDigit c) := inferInstanceAs (Decidable (_ ∧ _))

/-- The value of a digit. -/
def digit (c : UInt8) : Nat := c.toNat - 0x30

/-- The value of the digits `l` behind others of value `n`. -/
def decimalFrom (n : Nat) (l : List UInt8) : Nat := l.foldl (fun n c => 10 * n + digit c) n

/-- The value of a list of digits. -/
def decimalValue (l : List UInt8) : Nat := decimalFrom 0 l

/-- The decimal form of a byte. -/
def decimalByte (v : UInt8) : List UInt8 :=
  if 100 ≤ v then [0x30 + v / 100, 0x30 + v % 100 / 10, 0x30 + v % 100 % 10]
  else if 10 ≤ v then [0x30 + v / 10, 0x30 + v % 10]
  else [0x30 + v]

theorem digit_lt {c : UInt8} (h : IsDigit c) : digit c < 10 := by
  have hle := UInt8.le_iff_toNat_le.mp h.2
  change c.toNat ≤ 57 at hle
  unfold digit
  omega

@[simp] theorem decimalFrom_nil (n : Nat) : decimalFrom n [] = n := rfl

@[simp] theorem decimalFrom_cons (n : Nat) (c : UInt8) (l : List UInt8) :
    decimalFrom n (c :: l) = decimalFrom (10 * n + digit c) l := by
  unfold decimalFrom
  rw [List.foldl_cons]

/-- Digits make a number larger only. -/
theorem le_decimalFrom (n : Nat) (l : List UInt8) : n ≤ decimalFrom n l := by
  induction l generalizing n with
  | nil => exact Nat.le_refl n
  | cons c l ih =>
      rw [decimalFrom_cons]
      exact Nat.le_trans (by omega) (ih _)

/-- The character of a number below ten. -/
theorem digit_char {v : UInt8} (h : v.toNat < 10) :
    IsDigit (0x30 + v) ∧ digit (0x30 + v) = v.toNat := by
  have hval : (0x30 + v).toNat = 48 + v.toNat := by
    rw [UInt8.toNat_add]
    change (48 + v.toNat) % 256 = 48 + v.toNat
    omega
  refine ⟨⟨UInt8.le_iff_toNat_le.mpr ?_, UInt8.le_iff_toNat_le.mpr ?_⟩, ?_⟩
  · change 48 ≤ (0x30 + v).toNat
    omega
  · change (0x30 + v).toNat ≤ 57
    omega
  · unfold digit
    omega

/-- **The decimal form of a byte** has one to three digits and its value. -/
theorem decimalByte_spec (v : UInt8) :
    decimalByte v ≠ [] ∧ (decimalByte v).length ≤ 3 ∧ (∀ c ∈ decimalByte v, IsDigit c) ∧
      decimalValue (decimalByte v) = v.toNat := by
  have hlt : v.toNat < 256 := v.toNat_lt
  have hdiv : ∀ w : UInt8, (w / 100).toNat = w.toNat / 100 ∧ (w / 10).toNat = w.toNat / 10 :=
    fun w => ⟨UInt8.toNat_div w 100, UInt8.toNat_div w 10⟩
  have hmod : ∀ w : UInt8, (w % 100).toNat = w.toNat % 100 ∧ (w % 10).toNat = w.toNat % 10 :=
    fun w => ⟨UInt8.toNat_mod w 100, UInt8.toNat_mod w 10⟩
  have hle : (100 ≤ v ↔ 100 ≤ v.toNat) ∧ (10 ≤ v ↔ 10 ≤ v.toNat) :=
    ⟨UInt8.le_iff_toNat_le, UInt8.le_iff_toNat_le⟩
  unfold decimalByte decimalValue
  by_cases h100 : 100 ≤ v
  · obtain ⟨hd1, he1⟩ := digit_char (v := v / 100) (by rw [(hdiv v).1]; omega)
    obtain ⟨hd2, he2⟩ := digit_char (v := v % 100 / 10) (by rw [(hdiv _).2, (hmod v).1]; omega)
    obtain ⟨hd3, he3⟩ := digit_char (v := v % 100 % 10) (by rw [(hmod _).2]; omega)
    rw [(hdiv v).1] at he1
    rw [(hdiv _).2, (hmod v).1] at he2
    rw [(hmod _).2, (hmod v).1] at he3
    rw [if_pos h100]
    refine ⟨nofun, Nat.le_refl 3, by simp [hd1, hd2, hd3], ?_⟩
    simp only [decimalFrom_cons, decimalFrom_nil, he1, he2, he3]
    omega
  · by_cases h10 : 10 ≤ v
    · have hlo := mt hle.1.mpr h100
      obtain ⟨hd1, he1⟩ := digit_char (v := v / 10) (by rw [(hdiv v).2]; omega)
      obtain ⟨hd2, he2⟩ := digit_char (v := v % 10) (by rw [(hmod v).2]; omega)
      rw [(hdiv v).2] at he1
      rw [(hmod v).2] at he2
      rw [if_neg h100, if_pos h10]
      refine ⟨nofun, by simp, by simp [hd1, hd2], ?_⟩
      simp only [decimalFrom_cons, decimalFrom_nil, he1, he2]
      omega
    · have hlo := mt hle.2.mpr h10
      obtain ⟨hd1, he1⟩ := digit_char (v := v) (by omega)
      rw [if_neg h100, if_neg h10]
      refine ⟨nofun, by simp, by simp [hd1], ?_⟩
      simp only [decimalFrom_cons, decimalFrom_nil, he1]
      omega

end MicroKernel.Lib
