import Mathlib.Tactic

set_option autoImplicit false

/-! # Records in blocks

Records of `r` bytes lie one behind the other in blocks of `b` bytes, where `r` divides `b`: record
`i` is in block `i * r / b` and begins at byte `i * r % b` of it. Every record is whole in its block,
and two records of one block do not overlap.
-/

namespace MicroKernel.Lib.Records

variable {r b i j n : Nat}

/-- How many blocks `n` records need. -/
def blocks (r b n : Nat) : Nat := (n * r + b - 1) / b

theorem inside (hr : r ∣ b) (hb : 0 < b) (i : Nat) : i * r % b + r ≤ b := by
  obtain ⟨k, rfl⟩ := hr
  have hmod : i * r % (r * k) = r * (i % k) := by
    rw [Nat.mul_comm i r, Nat.mul_mod_mul_left]
  have hk : 0 < k := Nat.pos_of_mul_pos_left hb
  have hlt : i % k + 1 ≤ k := Nat.mod_lt i hk
  rw [hmod, ← Nat.mul_succ]
  exact Nat.mul_le_mul_left r hlt

theorem apart (hij : i ≠ j) (hblock : i * r / b = j * r / b) :
    i * r % b + r ≤ j * r % b ∨ j * r % b + r ≤ i * r % b := by
  have hi := Nat.div_add_mod (i * r) b
  have hj := Nat.div_add_mod (j * r) b
  rw [hblock] at hi
  rcases Nat.lt_or_gt_of_ne hij with h | h
  · have hle : (i + 1) * r ≤ j * r := Nat.mul_le_mul_right r h
    rw [Nat.add_mul, Nat.one_mul] at hle
    omega
  · have hle : (j + 1) * r ≤ i * r := Nat.mul_le_mul_right r h
    rw [Nat.add_mul, Nat.one_mul] at hle
    omega

theorem block_lt (hr : 0 < r) (hb : 0 < b) (hi : i < n) : i * r / b < blocks r b n := by
  have hle : (i + 1) * r ≤ n * r := Nat.mul_le_mul_right r hi
  rw [Nat.add_mul, Nat.one_mul] at hle
  unfold blocks
  rw [Nat.lt_iff_add_one_le, Nat.le_div_iff_mul_le hb, Nat.add_mul, Nat.one_mul]
  have hmul := Nat.div_mul_le_self (i * r) b
  omega

end MicroKernel.Lib.Records
