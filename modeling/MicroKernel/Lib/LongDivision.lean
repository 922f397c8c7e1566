import Mathlib.Tactic

set_option autoImplicit false

/-! # Long division in binary

The bits of a number `n` are brought down one by one, from the top, behind a remainder; a divisor
that fits is taken off, and the quotient gets the bit. `Divided n d i q r` is what holds before bit
`i - 1` comes down: the bits of `n` from bit `i` on are divided. The remainder with the new bit is
never more than the bits that came down (`Divided.broughtDown_le`), so that it needs no more room
than `n` does, whatever the divisor is.
-/

namespace MicroKernel.Lib.LongDivision

variable {n d i q r : Nat}

/-- The remainder with bit `i` of `n` behind it. -/
def broughtDown (n i r : Nat) : Nat := 2 * r + n / 2 ^ i % 2

/-- The bits of `n` from bit `i` on are divided by `d`; the quotient has no bit below. -/
structure Divided (n d i q r : Nat) : Prop where
  clear : 2 ^ i ∣ q
  eq : n / 2 ^ i = q / 2 ^ i * d + r
  lt : r < d

/-- Before the first bit. -/
theorem Divided.start {w : Nat} (hn : n < 2 ^ w) (hd : 0 < d) : Divided n d w 0 0 :=
  ⟨Nat.dvd_zero _, by rw [Nat.div_eq_of_lt hn, Nat.zero_div, Nat.zero_mul], hd⟩

theorem broughtDown_eq (n i r : Nat) (h : n / 2 ^ (i + 1) = q / 2 ^ (i + 1) * d + r) :
    n / 2 ^ i = 2 * (q / 2 ^ (i + 1)) * d + broughtDown n i r := by
  have hhalf : n / 2 ^ (i + 1) = n / 2 ^ i / 2 := by rw [pow_succ, Nat.div_div_eq_div_mul]
  calc n / 2 ^ i = 2 * (n / 2 ^ i / 2) + n / 2 ^ i % 2 := (Nat.div_add_mod ..).symm
    _ = 2 * (q / 2 ^ (i + 1) * d + r) + n / 2 ^ i % 2 := by rw [← hhalf, h]
    _ = 2 * (q / 2 ^ (i + 1)) * d + broughtDown n i r := by
      unfold broughtDown
      ring

/-- The remainder with the next bit is not more than the bits that have come down. -/
theorem Divided.broughtDown_le (h : Divided n d (i + 1) q r) : broughtDown n i r ≤ n / 2 ^ i := by
  rw [broughtDown_eq n i r h.eq]
  exact Nat.le_add_left _ _

/-- A remainder is not more than the bits that have come down. -/
theorem Divided.le (h : Divided n d i q r) : r ≤ n / 2 ^ i := by
  rw [h.eq]
  exact Nat.le_add_left _ _

theorem div_of_clear (h : 2 ^ (i + 1) ∣ q) : q / 2 ^ i = 2 * (q / 2 ^ (i + 1)) := by
  obtain ⟨k, rfl⟩ := h
  rw [Nat.mul_div_cancel_left _ (Nat.two_pow_pos _), pow_succ, Nat.mul_assoc,
    Nat.mul_div_cancel_left _ (Nat.two_pow_pos _)]

/-- The divisor does not fit. -/
theorem Divided.skip (h : Divided n d (i + 1) q r) (hlt : broughtDown n i r < d) :
    Divided n d i q (broughtDown n i r) where
  clear := (Nat.pow_dvd_pow 2 (Nat.le_succ i)).trans h.clear
  eq := by rw [div_of_clear h.clear, ← broughtDown_eq n i r h.eq]
  lt := hlt

/-- The divisor fits: it is taken off, and the quotient gets bit `i`. -/
theorem Divided.take (h : Divided n d (i + 1) q r) (hle : d ≤ broughtDown n i r) :
    Divided n d i (q + 2 ^ i) (broughtDown n i r - d) where
  clear := Nat.dvd_add ((Nat.pow_dvd_pow 2 (Nat.le_succ i)).trans h.clear) (Nat.dvd_refl _)
  eq := by
    have hsum : (q + 2 ^ i) / 2 ^ i = 2 * (q / 2 ^ (i + 1)) + 1 := by
      rw [Nat.add_div_right _ (Nat.two_pow_pos i), div_of_clear h.clear]
    rw [hsum, broughtDown_eq n i r h.eq, Nat.add_mul, Nat.one_mul]
    omega
  lt := by
    have hr := h.lt
    have hbit := Nat.mod_lt (n / 2 ^ i) (show 0 < 2 by decide)
    unfold broughtDown at hle ⊢
    omega

/-- All bits have come down. -/
theorem Divided.finish (h : Divided n d 0 q r) : q * d + r = n := by
  have heq := h.eq
  rw [pow_zero, Nat.div_one, Nat.div_one] at heq
  exact heq.symm

end MicroKernel.Lib.LongDivision
