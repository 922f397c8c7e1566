import MicroKernel.Lib.Bytes
import MicroKernel.Lib.Word

set_option autoImplicit false

/-! # `memmove` (`lib/libc/stdlib.c`) and `memcpy`, `memset`, `memcmp` (`lib/libc/string.c`)

The byte loops of the kernel's own C library, over the byte store of the whole address space.
Addresses are 32-bit, so `d + i` and `s + n` wrap. `memcpy` is between two buffers and
`memcpyWithin` is the same routine where both of them lie in one memory; its count has 16 bits, that
of `memset` has 32. A null pointer ends the three routines of `string.c` at once.
-/

namespace MicroKernel.Libc

open MicroKernel.Lib Bytes

/-- The forward loop from index `i` on, with `k` bytes to go. -/
def copyForward (d s : Nat) : Nat → Nat → Bytes → Bytes
  | 0, _, m => m
  | k + 1, i, m => copyForward d s k (i + 1) (store8 m (u32 (d + i)) (m (u32 (s + i))))

/-- The backward loop: `i` counts down from `n` to `1` and moves byte `i - 1`. -/
def copyBackward (d s : Nat) : Nat → Bytes → Bytes
  | 0, m => m
  | i + 1, m => copyBackward d s i (store8 m (u32 (d + i)) (m (u32 (s + i))))

/-- `memmove(dest, src, n)`: the memory afterwards. -/
def memmove (m : Bytes) (dest src n : Nat) : Bytes :=
  if dest = src ∨ n = 0 then m
  else if dest < src ∨ u32 (src + n) ≤ dest then copyForward dest src n 0 m
  else copyBackward dest src n m

/-- `memcpy(&m[dest], &src[off], n)`: the buffer `m` afterwards. -/
def memcpy (m : Bytes) (dest : Nat) (src : Bytes) (off n : Nat) : Bytes :=
  copy m dest src off (n % 2 ^ 16)

theorem memcpy_eq (m : Bytes) (dest : Nat) (src : Bytes) (off : Nat) {n : Nat} (hn : n < 2 ^ 16) :
    memcpy m dest src off n = copy m dest src off n := by
  unfold memcpy
  rw [Nat.mod_eq_of_lt hn]

theorem copyForward_outside {d s x : Nat} (k i : Nat) (m : Bytes)
    (hx : ∀ j, i ≤ j → j < i + k → x ≠ u32 (d + j)) : copyForward d s k i m x = m x := by
  induction k generalizing i m with
  | zero => rfl
  | succ k ih =>
      rw [copyForward, ih (i + 1) _ (fun j h1 h2 => hx j (by omega) (by omega))]
      exact store8_ne m _ (hx i (Nat.le_refl i) (by omega))

theorem copyBackward_outside {d s x : Nat} (n : Nat) (m : Bytes)
    (hx : ∀ j, j < n → x ≠ u32 (d + j)) : copyBackward d s n m x = m x := by
  induction n generalizing m with
  | zero => rfl
  | succ n ih =>
      rw [copyBackward, ih _ (fun j hj => hx j (by omega))]
      exact store8_ne m _ (hx n (by omega))

/-- `memmove` writes to its destination range only. -/
theorem memmove_outside (m : Bytes) {dest src n x : Nat} (hd : dest + n ≤ 2 ^ 32)
    (hx : x < dest ∨ dest + n ≤ x) : memmove m dest src n x = m x := by
  have hne : ∀ j, j < n → x ≠ u32 (dest + j) := by
    intro j hj
    rw [u32_eq_self (by omega)]
    omega
  unfold memmove
  split
  · rfl
  · split
    · exact copyForward_outside n 0 m fun j _ hj => hne j (by omega)
    · exact copyBackward_outside n m hne

/-- The forward loop reads every byte before it is overwritten, when the destination starts below
the source or behind it. -/
theorem copyForward_copied {d s j : Nat} (k i : Nat) (m : Bytes) (hd : d + (i + k) ≤ 2 ^ 32)
    (hs : s + (i + k) ≤ 2 ^ 32) (hlap : d < s ∨ s + (i + k) ≤ d) (hij : i ≤ j) (hj : j < i + k) :
    copyForward d s k i m (d + j) = m (s + j) := by
  induction k generalizing i m with
  | zero => omega
  | succ k ih =>
      rw [copyForward, u32_eq_self (by omega), u32_eq_self (by omega)]
      rcases Nat.eq_or_lt_of_le hij with rfl | hlt
      · -- the rest of the loop is behind byte `i`
        rw [copyForward_outside k (i + 1) _ fun j' h1 h2 => ?_, store8_same]
        rw [u32_eq_self (by omega)]
        omega
      · rw [ih (i + 1) _ (by omega) (by omega) (by omega) hlt (by omega)]
        exact store8_ne m _ (by omega)

/-- The backward loop, when the destination does not start below the source. -/
theorem copyBackward_copied {d s j : Nat} (n : Nat) (m : Bytes) (hd : d + n ≤ 2 ^ 32)
    (hs : s + n ≤ 2 ^ 32) (hlap : s ≤ d) (hj : j < n) :
    copyBackward d s n m (d + j) = m (s + j) := by
  induction n generalizing m with
  | zero => omega
  | succ n ih =>
      rw [copyBackward, u32_eq_self (by omega), u32_eq_self (by omega)]
      rcases Nat.eq_or_lt_of_le (Nat.le_of_lt_succ hj) with rfl | hlt
      · rw [copyBackward_outside j _ fun j' h1 => ?_, store8_same]
        rw [u32_eq_self (by omega)]
        omega
      · rw [ih _ (by omega) (by omega) hlt]
        exact store8_ne m _ (by omega)

/-- `memmove` copies, whether or not the ranges overlap. Where the source ends at the top of the
address space, `s + n` is zero and every copy goes forward; but then no range starts above it. -/
theorem memmove_copied (m : Bytes) {dest src n j : Nat} (hd : dest + n ≤ 2 ^ 32)
    (hs : src + n ≤ 2 ^ 32) (hj : j < n) : memmove m dest src n (dest + j) = m (src + j) := by
  have hend : u32 (src + n) = src + n ∨ dest ≤ src := by
    rcases Nat.lt_or_ge (src + n) (2 ^ 32) with hlt | hge
    · exact Or.inl (u32_eq_self hlt)
    · exact Or.inr (by omega)
  unfold memmove
  split
  next heq =>
      rcases heq with rfl | rfl
      · rfl
      · omega
  next hne =>
      split
      next hlap =>
          exact copyForward_copied n 0 m (by omega) (by omega) (by omega) (by omega) (by omega)
      next hlap => exact copyBackward_copied n m hd hs (by omega) hj

/-- **`memmove`**, for every memory and every two ranges of the address space: the destination has
the bytes that the source had, and nothing else has changed. -/
theorem memmove_moves (m : Bytes) {dest src n : Nat} (hd : dest + n ≤ 2 ^ 32)
    (hs : src + n ≤ 2 ^ 32) :
    (∀ j, j < n → memmove m dest src n (dest + j) = m (src + j)) ∧
      ∀ x, x < dest ∨ dest + n ≤ x → memmove m dest src n x = m x :=
  ⟨fun _ hj => memmove_copied m hd hs hj, fun _ hx => memmove_outside m hd hx⟩

/-- The last eight bytes of the address space, where each is the low byte of its address, move four
down, over themselves. -/
theorem memmove_moves_top :
    memmove UInt8.ofNat 0xFFFFFFF4 0xFFFFFFF8 8 0xFFFFFFF9 = 0xFD ∧
      memmove UInt8.ofNat 0xFFFFFFF4 0xFFFFFFF8 8 0xFFFFFFFD = 0xFD := by
  obtain ⟨hmoved, hrest⟩ :=
    @memmove_moves UInt8.ofNat 0xFFFFFFF4 0xFFFFFFF8 8 (by decide) (by decide)
  refine ⟨(hmoved 5 (by decide)).trans rfl, (hrest 0xFFFFFFFD (Or.inr (by decide))).trans rfl⟩

/-! ## Routines that refuse a null pointer -/

/-- `memcpy(dest, src, n)` within one memory: the memory afterwards. -/
def memcpyWithin (m : Bytes) (dest src n : Nat) : Bytes :=
  if dest = 0 ∨ src = 0 then m else copyForward dest src (n % 2 ^ 16) 0 m

/-- The loop of `memset` from index `i` on, with `k` bytes to go. -/
def fillForward (d : Nat) (value : UInt8) : Nat → Nat → Bytes → Bytes
  | 0, _, m => m
  | k + 1, i, m => fillForward d value k (i + 1) (store8 m (u32 (d + i)) value)

/-- `memset(ptr, value, num)`: the memory afterwards. -/
def memset (m : Bytes) (ptr : Nat) (value : UInt8) (num : Nat) : Bytes :=
  if ptr = 0 then m else fillForward ptr value num 0 m

/-- The loop of `memcmp` against the bytes of a literal. -/
def memcmpLoop (m : Bytes) : Nat → List UInt8 → Int
  | _, [] => 0
  | p1, c :: s2 => if m p1 ≠ c then (m p1).toNat - c.toNat else memcmpLoop m (u32 (p1 + 1)) s2

/-- `memcmp(s1, s2, n)`, where `s2` is a literal of `n` bytes. -/
def memcmp (m : Bytes) (s1 : Nat) (s2 : List UInt8) : Int :=
  if s1 = 0 then -1 else memcmpLoop m s1 s2

theorem memcpyWithin_null (m : Bytes) {dest src n : Nat} (h : dest = 0 ∨ src = 0) :
    memcpyWithin m dest src n = m := by
  unfold memcpyWithin
  rw [if_pos h]

theorem memcpyWithin_outside (m : Bytes) {dest src n x : Nat} (hd : dest + n % 2 ^ 16 ≤ 2 ^ 32)
    (hx : x < dest ∨ dest + n % 2 ^ 16 ≤ x) : memcpyWithin m dest src n x = m x := by
  unfold memcpyWithin
  split
  · rfl
  · refine copyForward_outside (n % 2 ^ 16) 0 m fun j _ hj => ?_
    rw [u32_eq_self (by omega)]
    omega

/-- Between two ranges that lie apart, the bytes that the 16 bits of the count speak of. -/
theorem memcpyWithin_copied (m : Bytes) {dest src n j : Nat} (hd : dest + n % 2 ^ 16 ≤ 2 ^ 32)
    (hs : src + n % 2 ^ 16 ≤ 2 ^ 32) (hlap : dest < src ∨ src + n % 2 ^ 16 ≤ dest) (hdest : dest ≠ 0)
    (hsrc : src ≠ 0) (hj : j < n % 2 ^ 16) : memcpyWithin m dest src n (dest + j) = m (src + j) := by
  unfold memcpyWithin
  rw [if_neg (not_or.mpr ⟨hdest, hsrc⟩)]
  exact copyForward_copied (n % 2 ^ 16) 0 m (by omega) (by omega) (by omega) (by omega) (by omega)

theorem fillForward_apply {d x : Nat} {value : UInt8} (k i : Nat) (m : Bytes)
    (hd : d + (i + k) ≤ 2 ^ 32) :
    fillForward d value k i m x = if d + i ≤ x ∧ x < d + (i + k) then value else m x := by
  induction k generalizing i m with
  | zero => rw [fillForward, if_neg (by omega)]
  | succ k ih =>
      rw [fillForward, ih (i + 1) _ (by omega), u32_eq_self (by omega)]
      rcases Nat.lt_trichotomy x (d + i) with hlt | rfl | hgt
      · rw [if_neg (by omega), if_neg (by omega), store8_ne _ _ (by omega)]
      · rw [if_neg (by omega), if_pos (by omega), store8_same]
      · rw [store8_ne _ _ (by omega)]
        exact if_congr (by omega) rfl rfl

/-- What `memset` leaves at each address. -/
theorem memset_apply (m : Bytes) {ptr num x : Nat} (value : UInt8) (hd : ptr + num ≤ 2 ^ 32) :
    memset m ptr value num x
      = if ptr ≠ 0 ∧ ptr ≤ x ∧ x < ptr + num then value else m x := by
  unfold memset
  by_cases hptr : ptr = 0
  · rw [if_pos hptr, if_neg (fun h => h.1 hptr)]
  · rw [if_neg hptr, fillForward_apply num 0 m (by omega)]
    exact if_congr (by omega) rfl rfl

theorem memcmp_null (m : Bytes) (s2 : List UInt8) : memcmp m 0 s2 = -1 := rfl

theorem memcmpLoop_eq_zero {m : Bytes} (s2 : List UInt8) {p1 : Nat} (hp1 : p1 + s2.length ≤ 2 ^ 32) :
    memcmpLoop m p1 s2 = 0 ↔ first (fun i => m (p1 + i)) s2.length = s2 := by
  induction s2 generalizing p1 with
  | nil => simp [memcmpLoop]
  | cons c s2 ih =>
      rw [List.length_cons] at hp1
      have hfirst : first (fun i => m (p1 + i)) (c :: s2).length
          = m p1 :: first (fun i => m (p1 + 1 + i)) s2.length := by
        simp [first, List.range_succ_eq_map, Function.comp_def, Nat.add_assoc, Nat.add_comm 1]
      rw [hfirst, List.cons_eq_cons]
      by_cases hc : m p1 = c
      · rw [memcmpLoop, if_neg (not_not.mpr hc)]
        cases s2 with
        | nil => simp [memcmpLoop, hc]  -- nothing is read behind the literal
        | cons c' s2 =>
            rw [List.length_cons] at hp1
            rw [u32_eq_self (by omega), ih (by rw [List.length_cons]; omega)]
            exact (and_iff_right hc).symm
      · rw [memcmpLoop, if_pos hc]
        have hdiff : ((m p1).toNat : Int) - c.toNat ≠ 0 := fun h =>
          hc (UInt8.toNat_inj.mp (by omega))
        exact iff_of_false hdiff fun h => hc h.1

theorem memcmp_eq_zero {m : Bytes} {s1 : Nat} (s2 : List UInt8) (hne : s1 ≠ 0)
    (hs1 : s1 + s2.length ≤ 2 ^ 32) :
    memcmp m s1 s2 = 0 ↔ first (fun i => m (s1 + i)) s2.length = s2 := by
  rw [memcmp, if_neg hne, memcmpLoop_eq_zero s2 hs1]

end MicroKernel.Libc
