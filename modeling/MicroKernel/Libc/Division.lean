import MicroKernel.Lib.LongDivision

set_option autoImplicit false

/-! # Division of 64-bit numbers (`lib/libc/stdlib.c`)

On a machine of 32 bits the compiler calls `__udivdi3` and `__umoddi3` for a quotient and a
remainder of 64-bit numbers. Both bring the bits of the dividend down from the top, as in
`Lib.LongDivision`, in a remainder of 64 bits: no more bits than have come down are ever in it, and
so none is lost when it is shifted.
-/

namespace MicroKernel.Libc

open MicroKernel.Lib LongDivision

/-- The two variables of the loop of `__udivdi3`. -/
structure Division where
  quotient : BitVec 64
  remainder : BitVec 64

/-- `(remainder << 1) | ((dividend >> i) & 1)`. -/
def shiftIn (dividend : BitVec 64) (i : Nat) (remainder : BitVec 64) : BitVec 64 :=
  (remainder <<< 1) ||| ((dividend >>> i) &&& 1)

/-- The body of the loop of `__udivdi3`. -/
def udivBody (dividend divisor : BitVec 64) (i : Nat) (v : Division) : Division :=
  let remainder := shiftIn dividend i v.remainder
  if divisor ≤ remainder then ⟨v.quotient ||| (1#64 <<< i), remainder - divisor⟩
  else ⟨v.quotient, remainder⟩

/-- The variables before turn `k` of the loop of `__udivdi3`, in which `i` is `63 - k`. -/
def udivTurns (dividend divisor : BitVec 64) : Nat → Division
  | 0 => ⟨0, 0⟩
  | k + 1 => udivBody dividend divisor (63 - k) (udivTurns dividend divisor k)

/-- `__udivdi3`. Division by zero never returns. -/
def udivdi3 (dividend divisor : BitVec 64) : Option (BitVec 64) :=
  if divisor = 0 then none
  else if dividend < divisor then some 0
  else some (udivTurns dividend divisor 64).quotient

/-- The body of the loop of `__umoddi3`. -/
def umodBody (dividend divisor : BitVec 64) (i : Nat) (remainder : BitVec 64) : BitVec 64 :=
  let remainder := shiftIn dividend i remainder
  if divisor ≤ remainder then remainder - divisor else remainder

/-- The remainder before turn `k` of the loop of `__umoddi3`. -/
def umodTurns (dividend divisor : BitVec 64) : Nat → BitVec 64
  | 0 => 0
  | k + 1 => umodBody dividend divisor (63 - k) (umodTurns dividend divisor k)

/-- `__umoddi3`. Division by zero never returns. -/
def umoddi3 (dividend divisor : BitVec 64) : Option (BitVec 64) :=
  if divisor = 0 then none
  else if dividend < divisor then some dividend
  else some (umodTurns dividend divisor 64)

/-- The shift by one loses no bit. -/
def ShiftsWhole (x : BitVec 64) : Prop := (x <<< 1).toNat = 2 * x.toNat

section turns

variable {n d : BitVec 64} {k i : Nat}

/-- Both functions have the same remainder. -/
theorem udivTurns_remainder (n d : BitVec 64) (k : Nat) :
    (udivTurns n d k).remainder = umodTurns n d k := by
  induction k with
  | zero => rfl
  | succ k ih =>
      rw [udivTurns, udivBody, umodTurns, umodBody, ih]
      split <;> rfl

theorem shiftsWhole_of_lt {x : BitVec 64} (h : x.toNat < 2 ^ 63) : ShiftsWhole x := by
  unfold ShiftsWhole
  rw [BitVec.toNat_shiftLeft, Nat.shiftLeft_eq, Nat.mod_eq_of_lt (by omega)]
  omega

theorem toNat_shiftIn {r : BitVec 64} (hr : r.toNat < 2 ^ 63) (i : Nat) :
    (shiftIn n i r).toNat = broughtDown n.toNat i r.toNat := by
  have hbit : n.toNat / 2 ^ i % 2 < 2 ^ 1 := Nat.mod_lt _ (by decide)
  unfold shiftIn broughtDown
  rw [BitVec.toNat_or, shiftsWhole_of_lt hr, BitVec.toNat_and, BitVec.toNat_ushiftRight,
    show (1 : BitVec 64).toNat = 1 from rfl, Nat.and_one_is_mod, Nat.shiftRight_eq_div_pow]
  exact (Nat.two_pow_add_eq_or_of_lt hbit r.toNat).symm

/-- A bit is set in a quotient that has none so far from there on down. -/
theorem toNat_or_bit {q : BitVec 64} (hi : i < 64) (hq : 2 ^ (i + 1) ∣ q.toNat) :
    (q ||| (1#64 <<< i)).toNat = q.toNat + 2 ^ i := by
  have hpow : 2 ^ i < 2 ^ 64 := Nat.pow_lt_pow_right (by decide) hi
  obtain ⟨a, ha⟩ := hq
  rw [BitVec.toNat_or, BitVec.toNat_shiftLeft, show (1#64).toNat = 1 from rfl,
    Nat.one_shiftLeft, Nat.mod_eq_of_lt hpow, ha]
  exact (Nat.two_pow_add_eq_or_of_lt (Nat.pow_lt_pow_right (by decide) (Nat.lt_succ_self i)) a).symm

/-- The remainder of a division under way has room for one more bit. -/
theorem room_of_divided {q r : Nat} (h : Divided n.toNat d.toNat (i + 1) q r) : r < 2 ^ 63 := by
  calc r ≤ n.toNat / 2 ^ (i + 1) := h.le
    _ ≤ n.toNat / 2 := Nat.div_le_div_left (Nat.le_self_pow (by omega) 2) (by decide)
    _ < 2 ^ 63 := by
      have := n.isLt
      omega

/-- One turn of the loop. -/
theorem divided_udivBody {v : Division} (hi : i < 64)
    (h : Divided n.toNat d.toNat (i + 1) v.quotient.toNat v.remainder.toNat) :
    Divided n.toNat d.toNat i (udivBody n d i v).quotient.toNat
      (udivBody n d i v).remainder.toNat := by
  have hdown := toNat_shiftIn (n := n) (room_of_divided h) i
  unfold udivBody
  dsimp only
  by_cases hle : d ≤ shiftIn n i v.remainder
  · rw [if_pos hle, toNat_or_bit hi h.clear, BitVec.toNat_sub_of_le hle, hdown]
    rw [BitVec.le_def, hdown] at hle
    exact h.take hle
  · rw [if_neg hle, hdown]
    rw [BitVec.le_def, hdown] at hle
    exact h.skip (Nat.lt_of_not_le hle)

/-- The invariant of the loop. -/
theorem divided_udivTurns (hd : d ≠ 0) (hk : k ≤ 64) :
    Divided n.toNat d.toNat (64 - k) (udivTurns n d k).quotient.toNat
      (udivTurns n d k).remainder.toNat := by
  induction k with
  | zero =>
      refine Divided.start n.isLt (Nat.pos_of_ne_zero fun h0 => hd ?_)
      exact BitVec.eq_of_toNat_eq h0
  | succ k ih =>
      have hbefore := ih (by omega)
      rw [show 64 - k = 63 - k + 1 by omega] at hbefore
      rw [show 64 - (k + 1) = 63 - k by omega]
      exact divided_udivBody (by omega) hbefore

theorem umodTurns_lt (hd : d ≠ 0) (hk : k < 64) : (umodTurns n d k).toNat < 2 ^ 63 := by
  have h := divided_udivTurns (n := n) hd (Nat.le_of_lt hk)
  rw [show 64 - k = 63 - k + 1 by omega, udivTurns_remainder] at h
  exact room_of_divided h

end turns

/-- **64-bit division.** For a divisor other than zero `__udivdi3` and `__umoddi3` return, what they
return are the quotient and the remainder, and in no turn of their loops does the shift of the
remainder lose a bit. -/
theorem udivdi3_umoddi3 (n d : BitVec 64) (hd : d ≠ 0) :
    ∃ q r, udivdi3 n d = some q ∧ umoddi3 n d = some r ∧
      q.toNat * d.toNat + r.toNat = n.toNat ∧ r.toNat < d.toNat ∧
      ∀ k, k < 64 → ShiftsWhole (udivTurns n d k).remainder ∧ ShiftsWhole (umodTurns n d k) := by
  have hshift : ∀ k, k < 64 →
      ShiftsWhole (udivTurns n d k).remainder ∧ ShiftsWhole (umodTurns n d k) := by
    intro k hk
    have hlt := umodTurns_lt (n := n) hd hk
    exact ⟨shiftsWhole_of_lt (by rwa [udivTurns_remainder]), shiftsWhole_of_lt hlt⟩
  unfold udivdi3 umoddi3
  rw [if_neg hd, if_neg hd]
  by_cases hlt : n < d
  · rw [if_pos hlt, if_pos hlt]
    exact ⟨0, n, rfl, rfl, by simp, hlt, hshift⟩
  · have h := divided_udivTurns (n := n) hd (Nat.le_refl 64)
    rw [udivTurns_remainder] at h
    rw [if_neg hlt, if_neg hlt]
    exact ⟨_, _, rfl, rfl, h.finish, h.lt, hshift⟩

/-- The largest number, divided by one with the top bit set. -/
theorem udivdi3_umoddi3_large :
    ∃ q r, udivdi3 0xFFFFFFFFFFFFFFFF 0x8000000000000001 = some q ∧
      umoddi3 0xFFFFFFFFFFFFFFFF 0x8000000000000001 = some r ∧ q.toNat = 1 := by
  obtain ⟨q, r, hq, hr, heq, hlt, -⟩ :=
    udivdi3_umoddi3 0xFFFFFFFFFFFFFFFF 0x8000000000000001 (by decide)
  refine ⟨q, r, hq, hr, ?_⟩
  simp only [BitVec.reduceToNat] at heq hlt
  omega

end MicroKernel.Libc
