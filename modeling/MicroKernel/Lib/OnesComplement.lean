import MicroKernel.Lib.Bytes

set_option autoImplicit false

/-! # One's-complement sums of 16-bit words

The sum that RFC 1071 asks for, taken word by word with the carry coming back at the low end
(`onesSum`), what repeated folding of a plain sum gives (`endAround`), and the big-endian words of
a stretch of bytes (`words`).

A checksum that is stored in the wrong byte order is off by a multiple of 255, and `65535` is
`255 * 257`. So everything about swapped checksums is a statement about remainders by 257
(`endAround_add_swap16`).
-/

namespace MicroKernel.Lib

/-! ## Sums -/

/-- One's-complement addition of words. -/
def onesAdd (x y : Nat) : Nat := if 65536 ≤ x + y then x + y - 65535 else x + y

/-- The one's-complement sum of a list of words. -/
def onesSum (ws : List Nat) : Nat := ws.foldl onesAdd 0

/-- The word that a sum becomes when its carries are added until none is left. -/
def endAround (n : Nat) : Nat := if n = 0 then 0 else (n - 1) % 65535 + 1

theorem endAround_lt (n : Nat) : endAround n < 65536 := by
  unfold endAround
  split <;> omega

theorem endAround_of_lt {n : Nat} (h : n < 65536) : endAround n = n := by
  unfold endAround
  split <;> omega

/-- Adding the carry to the low word keeps the result. -/
theorem endAround_fold (n : Nat) : endAround (n % 65536 + n / 65536) = endAround n := by
  have hmod : (n % 65536 + n / 65536) % 65535 = n % 65535 := by omega
  unfold endAround
  split <;> split <;> omega

theorem onesAdd_endAround (n : Nat) {y : Nat} (h : y < 65536) :
    onesAdd (endAround n) y = endAround (n + y) := by
  unfold onesAdd endAround
  split <;> split <;> split <;> omega

theorem foldl_onesAdd {ws : List Nat} (h : ∀ w ∈ ws, w < 65536) (n : Nat) :
    ws.foldl onesAdd (endAround n) = endAround (n + ws.sum) := by
  induction ws generalizing n with
  | nil => rfl
  | cons w ws ih =>
      rw [List.foldl_cons, onesAdd_endAround n (h w (by simp)),
        ih (fun v hv => h v (List.mem_cons_of_mem w hv)), List.sum_cons, Nat.add_assoc]

/-- **The one's-complement sum is the plain sum, folded.** -/
theorem onesSum_eq {ws : List Nat} (h : ∀ w ∈ ws, w < 65536) : onesSum ws = endAround ws.sum := by
  rw [onesSum, show (0 : Nat) = endAround 0 from rfl, foldl_onesAdd h, Nat.zero_add]

theorem endAround_eq_top (n : Nat) : endAround n = 0xFFFF ↔ 0 < n ∧ n % 65535 = 0 := by
  unfold endAround
  split <;> omega

theorem endAround_add_compl (n : Nat) : endAround (n + (65535 - endAround n)) = 0xFFFF := by
  rw [endAround_eq_top]
  unfold endAround
  split <;> omega

/-! ## Byte order -/

/-- A word with its two bytes exchanged. -/
def swap16 (x : Nat) : Nat := 256 * (x % 256) + x / 256

theorem swap16_lt {x : Nat} (h : x < 65536) : swap16 x < 65536 := by
  unfold swap16
  omega

theorem swap16_swap16 {x : Nat} (h : x < 65536) : swap16 (swap16 x) = x := by
  unfold swap16
  omega

theorem swap16_eq_self {x : Nat} (h : x < 65536) : swap16 x = x ↔ x % 257 = 0 := by
  unfold swap16
  omega

theorem swap16_compl {x : Nat} (h : x < 65536) : swap16 (65535 - x) = 65535 - swap16 x := by
  unfold swap16
  omega

/-- **The complement of a sum, added to the sum in the wrong byte order, gives all ones exactly
when the sum is a multiple of 257.** -/
theorem endAround_add_swap16 (n : Nat) :
    endAround (n + swap16 (65535 - endAround n)) = 0xFFFF ↔ n % 257 = 0 := by
  have hlt := endAround_lt n
  have hself := swap16_eq_self hlt
  have hmod : n % 65535 = endAround n % 65535 ∧ (n = 0 ↔ endAround n = 0) := by
    unfold endAround
    split <;> omega
  have hswap : swap16 (endAround n) = 0 ↔ endAround n = 0 := by
    unfold swap16
    omega
  have hbound := swap16_lt hlt
  rw [swap16_compl hlt, endAround_eq_top]
  -- the total is all ones when the swapped sum has the sum's remainder by 65535
  have htotal : (0 < n + (65535 - swap16 (endAround n)) ∧
      (n + (65535 - swap16 (endAround n))) % 65535 = 0) ↔ swap16 (endAround n) = endAround n := by
    omega
  rw [htotal, hself]
  omega

/-! ## Words of a stretch of bytes -/

open Bytes

/-- The big-endian word at `a`. -/
def word (p : Bytes) (a : Nat) : Nat := 256 * (p a).toNat + (p (a + 1)).toNat

/-- The big-endian words of the `n` bytes at `a`; an odd last byte is the high byte of a word. -/
def words (p : Bytes) : Nat → Nat → List Nat
  | a, n + 2 => word p a :: words p (a + 2) n
  | a, 1 => [256 * (p a).toNat]
  | _, 0 => []

theorem word_lt (p : Bytes) (a : Nat) : word p a < 65536 := by
  have h1 := (p a).toNat_lt
  have h2 := (p (a + 1)).toNat_lt
  unfold word
  omega

theorem word_congr {p q : Bytes} {a b : Nat} (h0 : p a = q b) (h1 : p (a + 1) = q (b + 1)) :
    word p a = word q b := by
  rw [word, word, h0, h1]

theorem words_lt (p : Bytes) (a n : Nat) : ∀ w ∈ words p a n, w < 65536 := by
  induction a, n using words.induct with
  | case1 a n ih =>
      intro w hw
      rw [words, List.mem_cons] at hw
      rcases hw with rfl | hw
      · exact word_lt p a
      · exact ih w hw
  | case2 a =>
      have h1 := (p a).toNat_lt
      intro w hw
      rw [words, List.mem_singleton] at hw
      omega
  | case3 a =>
      intro w hw
      cases hw

theorem words_sum_le (p : Bytes) (a n : Nat) : (words p a n).sum ≤ (n + 1) / 2 * 65535 := by
  induction a, n using words.induct with
  | case1 a n ih =>
      have h1 := word_lt p a
      rw [words, List.sum_cons]
      omega
  | case2 a =>
      have h1 := (p a).toNat_lt
      rw [words, List.sum_singleton]
      omega
  | case3 a => exact Nat.zero_le _

/-- The words depend on nothing but the bytes. -/
theorem words_congr {p q : Bytes} {a b n : Nat} (h : ∀ i, i < n → p (a + i) = q (b + i)) :
    words p a n = words q b n := by
  induction a, n using words.induct generalizing b with
  | case1 a n ih =>
      have h0 := h 0 (by omega)
      have h1 := h 1 (by omega)
      have hrest := ih (b := b + 2) fun i hi => by
        have h2 := h (2 + i) (by omega)
        rwa [← Nat.add_assoc, ← Nat.add_assoc] at h2
      simp only [Nat.add_zero] at h0
      rw [words, words, word_congr h0 h1, hrest]
  | case2 a =>
      have h0 := h 0 (by omega)
      simp only [Nat.add_zero] at h0
      rw [words, words, h0]
  | case3 a => rw [words, words]

/-- A word that was zero adds to the sum what it is set to. -/
theorem words_sum_set {p q : Bytes} {a n k : Nat} (hk : 2 * k + 2 ≤ n)
    (hzero : q (a + 2 * k) = 0 ∧ q (a + 2 * k + 1) = 0)
    (hsame : ∀ x, x ≠ a + 2 * k → x ≠ a + 2 * k + 1 → p x = q x) :
    (words p a n).sum
      = (words q a n).sum + word p (a + 2 * k) := by
  induction a, n using words.induct generalizing k with
  | case1 a n ih =>
      rw [words, words, List.sum_cons, List.sum_cons]
      cases k with
      | zero =>
          simp only [Nat.mul_zero, Nat.add_zero] at hzero hsame ⊢
          have hrest : words p (a + 2) n = words q (a + 2) n :=
            words_congr fun i _ => hsame (a + 2 + i) (by omega) (by omega)
          have hword : word q a = 0 := by
            rw [word, hzero.1, hzero.2]
            rfl
          rw [hword, hrest]
          omega
      | succ k =>
          have hat : a + 2 * (k + 1) = a + 2 + 2 * k := by omega
          rw [hat] at hzero hsame ⊢
          have hword : word p a = word q a :=
            word_congr (hsame a (by omega) (by omega)) (hsame (a + 1) (by omega) (by omega))
          rw [ih (by omega) hzero hsame, hword]
          omega
  | case2 a => omega
  | case3 a => omega

end MicroKernel.Lib
