import Mathlib.Tactic

set_option autoImplicit false

/-! # 32-bit unsigned arithmetic on natural numbers

A C `unsigned int` is a natural number below `2 ^ 32`. Expressions that may wrap are written
with `u32` around them; a difference goes through `usub`. Where the operands are known to
stay in range, `u32_eq_self` and `usub_of_le` remove the wrapping.
-/

namespace MicroKernel.Lib

/-- The value kept by a 32-bit register. -/
def u32 (n : Nat) : Nat := n % 2 ^ 32

/-- The 32-bit difference `a - b` of two 32-bit values. -/
def usub (a b : Nat) : Nat := (a + 2 ^ 32 - b) % 2 ^ 32

/-- A 32-bit value as an `int`. -/
def asInt (n : Nat) : Int := if n < 2 ^ 31 then n else n - 2 ^ 32

/-- An `int` as a 32-bit value. -/
def asWord (i : Int) : Nat := (i % 2 ^ 32).toNat

theorem u32_eq_self {n : Nat} (h : n < 2 ^ 32) : u32 n = n := Nat.mod_eq_of_lt h

theorem usub_of_le {a b : Nat} (h : b ≤ a) (ha : a < 2 ^ 32) : usub a b = a - b := by
  unfold usub
  omega

theorem asWord_asInt {n : Nat} (h : n < 2 ^ 32) : asWord (asInt n) = n := by
  unfold asWord asInt
  split <;> omega

theorem asWord_natCast {n : Nat} (h : n < 2 ^ 32) : asWord n = n := by
  unfold asWord
  omega

/-- With the low bits masked off, a word is rounded down to a multiple of the power of two. -/
theorem toNat_and_not_pred {a : UInt32} {k : Nat} (ha : a.toNat = 2 ^ k) (x : UInt32) :
    (x &&& ~~~(a - 1)).toNat = x.toNat - x.toNat % a.toNat := by
  have hk : k < 32 := (Nat.pow_lt_pow_iff_right (by decide)).mp (ha ▸ a.toNat_lt)
  have hpos := Nat.two_pow_pos k
  have hbound : 2 ^ k < 2 ^ 32 := ha ▸ a.toNat_lt
  have hpred : (a - 1).toNat = 2 ^ k - 1 := by
    rw [UInt32.toNat_sub, ha, UInt32.toNat_one]
    omega
  have hmask : (~~~(a - 1)).toNat = 2 ^ 32 - (2 ^ k - 1 + 1) := by
    rw [UInt32.toNat_not, hpred, Nat.sub_sub, Nat.add_comm]
    rfl
  have hdown : x.toNat - x.toNat % 2 ^ k = 2 ^ k * (x.toNat / 2 ^ k) := by
    have := Nat.div_add_mod x.toNat (2 ^ k)
    omega
  rw [UInt32.toNat_and, hmask, ha, hdown]
  apply Nat.eq_of_testBit_eq
  intro i
  rw [Nat.testBit_and, Nat.testBit_two_pow_sub_succ (by omega), Nat.testBit_two_pow_mul,
    Nat.testBit_two_pow_sub_one, Nat.testBit_div_two_pow]
  by_cases hi : k ≤ i
  · have hhigh : x.toNat.testBit i = true → i < 32 := by
      intro h
      by_contra hge
      have hlt : x.toNat < 2 ^ i :=
        Nat.lt_of_lt_of_le x.toNat_lt (Nat.pow_le_pow_right (by decide) (by omega))
      rw [Nat.testBit_lt_two_pow hlt] at h
      cases h
    simpa [hi, Nat.not_lt.mpr hi] using hhigh
  · simp [hi, Nat.lt_of_not_le hi]

/-- A counter that wraps adds up modulo `M`, whatever else is kept beside it. -/
theorem foldl_add_mod {α β : Type} {M : Nat} (hM : 0 < M) {step : β → α → β} (value : β → Nat)
    (amount : α → Nat) (hstep : ∀ b x, value b < M → value (step b x) = (value b + amount x) % M)
    (l : List α) {b : β} (hb : value b < M) :
    value (l.foldl step b) = (value b + (l.map amount).sum) % M := by
  induction l generalizing b with
  | nil => exact (Nat.mod_eq_of_lt hb).symm
  | cons x l ih =>
      have hx := hstep b x hb
      have hlt : value (step b x) < M := by
        rw [hx]
        exact Nat.mod_lt _ hM
      calc value (l.foldl step (step b x))
          = (value (step b x) + (l.map amount).sum) % M := ih hlt
        _ = (value b + amount x + (l.map amount).sum) % M := by rw [hx, Nat.mod_add_mod]
        _ = (value b + ((x :: l).map amount).sum) % M := by
            rw [List.map_cons, List.sum_cons, Nat.add_assoc]

end MicroKernel.Lib
