import MicroKernel.Lib.Bytes
import MicroKernel.Lib.Word

set_option autoImplicit false

/-! # Aligned memory (`lib/libc/stdlib.c`)

`aligned_alloc` asks `malloc` for more than it has been asked for, rounds the address up and keeps
the pointer that `malloc` gave in the word in front of the one it returns, where `aligned_free`
finds it. The size it asks for is computed in 32 bits and nothing looks whether it wraps: then the
block is smaller than the size (`alignsIn_iff`).

`malloc` is a system call. What is used of it is in `Allocator`: null, or a block that is long enough.
-/

namespace MicroKernel.Libc

open MicroKernel.Lib Bytes

/-- `malloc`, with the length of the block that it returns for each size. -/
structure Allocator where
  malloc : UInt32 → UInt32
  blockLength : UInt32 → Nat
  spec : ∀ size, malloc size = 0 ∨
    (size.toNat ≤ blockLength size ∧ (malloc size).toNat + blockLength size ≤ 2 ^ 32)

/-- `aligned_alloc`: the pointer it returns and the memory afterwards. `m` is the memory that
`malloc` leaves. -/
def alignedAlloc (malloc : UInt32 → UInt32) (m : Bytes) (alignment size : UInt32) :
    UInt32 × Bytes :=
  if alignment = 0 ∨ alignment &&& (alignment - 1) ≠ 0 then (0, m)
  else
    let totalSize := size + alignment - 1 + 4
    let rawMemory := malloc totalSize
    if rawMemory = 0 then (0, m)
    else
      let rawAddress := rawMemory + 4
      let alignedAddress := (rawAddress + alignment - 1) &&& ~~~(alignment - 1)
      (alignedAddress, store32 m (alignedAddress - 4).toNat rawMemory.toNat)

/-- `aligned_free`: the pointer it gives to `free`, if any. -/
def alignedFree (m : Bytes) (ptr : UInt32) : Option UInt32 :=
  if ptr ≠ 0 then some (UInt32.ofNat (load32 m (ptr - 4).toNat)) else none

/-- What a pointer from `aligned_alloc` is for a block of `n` bytes at `raw`: a multiple of the
alignment, with the word in front of it and the `size` bytes from it on inside the block; and
`aligned_free` frees the block as long as that word is left alone. -/
structure Aligned (alignment size raw n : Nat) (p : UInt32) (m : Bytes) : Prop where
  multiple : p.toNat % alignment = 0
  slot : raw + 4 ≤ p.toNat
  inside : p.toNat + size ≤ raw + n
  freed : ∀ m' : Bytes, (∀ x, p.toNat - 4 ≤ x → x < p.toNat → m' x = m x) →
    alignedFree m' p = some (UInt32.ofNat raw)

/-- `aligned_alloc` returns null or such a pointer, whatever is in memory. -/
def AlignsIn (A : Allocator) (alignment size : UInt32) : Prop :=
  ∀ m, (alignedAlloc A.malloc m alignment size).1 ≠ 0 →
    Aligned alignment.toNat size.toNat (A.malloc (size + alignment - 1 + 4)).toNat
      (A.blockLength (size + alignment - 1 + 4)) (alignedAlloc A.malloc m alignment size).1
      (alignedAlloc A.malloc m alignment size).2

section aligned

variable {alignment size raw : UInt32} {k : Nat}

theorem accepts_powerOfTwo (ha : alignment.toNat = 2 ^ k) :
    ¬ (alignment = 0 ∨ alignment &&& (alignment - 1) ≠ 0) := by
  have hpos := Nat.two_pow_pos k
  have hpow := Nat.ne_zero_and_sub_one_eq_zero_iff_isPowerOfTwo.mpr ⟨k, ha⟩
  have hpred : (alignment - 1).toNat = alignment.toNat - 1 := by
    have hlt := alignment.toNat_lt
    rw [UInt32.toNat_sub, UInt32.toNat_one]
    omega
  rintro (h0 | hand)
  · rw [h0, UInt32.toNat_zero] at hpow
    exact hpow.1 rfl
  · apply hand
    rw [← UInt32.toNat_inj, UInt32.toNat_and, hpred, hpow.2, UInt32.toNat_zero]

/-- What `aligned_alloc` does with a power of two. -/
theorem alignedAlloc_eq (malloc : UInt32 → UInt32) (m : Bytes) (ha : alignment.toNat = 2 ^ k)
    (hraw : malloc (size + alignment - 1 + 4) = raw) (hne : raw ≠ 0) :
    alignedAlloc malloc m alignment size =
      ((raw + 4 + alignment - 1) &&& ~~~(alignment - 1),
        store32 m (((raw + 4 + alignment - 1) &&& ~~~(alignment - 1)) - 4).toNat raw.toNat) := by
  unfold alignedAlloc
  dsimp only
  rw [if_neg (accepts_powerOfTwo ha), hraw, if_neg hne]

/-- The size that is asked for, if it fits. -/
theorem totalSize_toNat (hfit : size.toNat + alignment.toNat + 3 < 2 ^ 32)
    (hpos : 0 < alignment.toNat) :
    (size + alignment - 1 + 4).toNat = size.toNat + alignment.toNat + 3 := by
  rw [UInt32.toNat_add, UInt32.toNat_sub, UInt32.toNat_add, UInt32.toNat_one]
  change (_ + 4) % _ = _
  omega

/-- The rounded address is the first multiple that has room for a word in front of it. -/
theorem alignedAddress_spec (ha : alignment.toNat = 2 ^ k)
    (hfit : raw.toNat + alignment.toNat + 3 < 2 ^ 32) :
    raw.toNat + 4 ≤ ((raw + 4 + alignment - 1) &&& ~~~(alignment - 1)).toNat ∧
      ((raw + 4 + alignment - 1) &&& ~~~(alignment - 1)).toNat ≤ raw.toNat + alignment.toNat + 3 ∧
      ((raw + 4 + alignment - 1) &&& ~~~(alignment - 1)).toNat % alignment.toNat = 0 := by
  have hpos : 0 < alignment.toNat := ha ▸ Nat.two_pow_pos k
  have hsum : (raw + 4 + alignment - 1).toNat = raw.toNat + alignment.toNat + 3 := by
    rw [UInt32.toNat_sub, UInt32.toNat_add, UInt32.toNat_add, UInt32.toNat_one]
    change (_ - 1 + ((_ + 4) % _ + _) % _) % _ = _
    omega
  have hmod := Nat.mod_lt (raw.toNat + alignment.toNat + 3) hpos
  rw [toNat_and_not_pred ha, hsum]
  refine ⟨by omega, by omega, ?_⟩
  exact Nat.sub_mod_eq_zero_of_mod_eq (Nat.mod_mod _ _).symm

/-- The word in front of the pointer leads back to the block. -/
theorem alignedFree_store {p : UInt32} (hp : 4 ≤ p.toNat) (m m' : Bytes)
    (hkept : ∀ x, p.toNat - 4 ≤ x → x < p.toNat →
      m' x = store32 m (p - 4).toNat raw.toNat x) :
    alignedFree m' p = some (UInt32.ofNat raw.toNat) := by
  have hne : p ≠ 0 := by
    rintro rfl
    rw [UInt32.toNat_zero] at hp
    omega
  have hsub : (p - 4).toNat = p.toNat - 4 := by
    have hlt := p.toNat_lt
    rw [UInt32.toNat_sub]
    change (2 ^ 32 - 4 + _) % _ = _
    omega
  have hword : load32 m' (p - 4).toNat = raw.toNat := by
    rw [load32_congr fun i hi => hkept _ (by omega) (by omega), load32_store32_same,
      Nat.mod_eq_of_lt raw.toNat_lt]
  unfold alignedFree
  rw [if_pos hne, hword]

/-- Where the size that is asked for does not wrap, the pointer is as it should be. -/
theorem alignsIn_of_fits (A : Allocator) (ha : alignment.toNat = 2 ^ k)
    (hfit : size.toNat + alignment.toNat + 3 < 2 ^ 32) : AlignsIn A alignment size := by
  intro m hp
  have hpos : 0 < alignment.toNat := ha ▸ Nat.two_pow_pos k
  have htotal := totalSize_toNat hfit hpos
  have hspec := A.spec (size + alignment - 1 + 4)
  generalize hraw : A.malloc (size + alignment - 1 + 4) = raw at hspec ⊢
  generalize A.blockLength (size + alignment - 1 + 4) = n at hspec ⊢
  rcases hspec with h0 | ⟨hlen, htop⟩
  · refine absurd ?_ hp
    unfold alignedAlloc
    dsimp only
    rw [hraw, if_pos h0, ite_self]
  · by_cases hne : raw = 0
    · refine absurd ?_ hp
      unfold alignedAlloc
      dsimp only
      rw [hraw, if_pos hne, ite_self]
    rw [alignedAlloc_eq A.malloc m ha hraw hne] at hp ⊢
    -- a pointer at the very top of the address space would be null
    have hraw' : raw.toNat + alignment.toNat + 3 < 2 ^ 32 := by
      refine Nat.lt_of_le_of_ne (by omega) fun htop' => hp ?_
      have hzero : raw + 4 + alignment - 1 = 0 := by
        rw [← UInt32.toNat_inj, UInt32.toNat_sub, UInt32.toNat_add, UInt32.toNat_add,
          UInt32.toNat_one, UInt32.toNat_zero]
        change (_ - 1 + ((_ + 4) % _ + _) % _) % _ = _
        omega
      rw [hzero, UInt32.zero_and]
    obtain ⟨hslot, hle, hmult⟩ := alignedAddress_spec ha hraw'
    exact
      { multiple := hmult
        slot := hslot
        inside := Nat.le_trans (Nat.add_le_add_right hle _) (by omega)
        freed := fun m' hkept => alignedFree_store (Nat.le_of_add_left_le hslot) m m' hkept }

end aligned

/-- The allocator that returns a block at address 1 of exactly the size asked for, if there is room
for it. -/
def exactAllocator : Allocator where
  malloc size := if size.toNat < 2 ^ 32 - 1 then 1 else 0
  blockLength size := size.toNat
  spec size := by
    split
    next h => exact Or.inr ⟨Nat.le_refl _, by rw [UInt32.toNat_one]; omega⟩
    next => exact Or.inl rfl

/-- **`aligned_alloc`**, for every power of two and every size: it does what it should with every
allocator exactly when the size that it asks for does not wrap. -/
theorem alignsIn_iff {alignment : UInt32} (ha : ∃ k, alignment.toNat = 2 ^ k) (size : UInt32) :
    (∀ A : Allocator, AlignsIn A alignment size) ↔
      size.toNat + alignment.toNat + 3 < 2 ^ 32 := by
  obtain ⟨k, ha⟩ := ha
  refine ⟨fun h => ?_, fun hfit A => alignsIn_of_fits A ha hfit⟩
  by_contra hwrap
  have hk : k < 32 := (Nat.pow_lt_pow_iff_right (by decide)).mp (ha ▸ alignment.toNat_lt)
  have hhalf : alignment.toNat ≤ 2 ^ 31 := ha ▸ Nat.pow_le_pow_right (by decide) (by omega)
  have hpos : 0 < alignment.toNat := ha ▸ Nat.two_pow_pos k
  have hsize := size.toNat_lt
  have htotal : (size + alignment - 1 + 4).toNat = size.toNat + alignment.toNat + 3 - 2 ^ 32 := by
    rw [UInt32.toNat_add, UInt32.toNat_sub, UInt32.toNat_add, UInt32.toNat_one]
    change (_ + 4) % _ = _
    omega
  have hraw : exactAllocator.malloc (size + alignment - 1 + 4) = 1 := by
    change (if _ then _ else _) = _
    rw [if_pos (by omega)]
  have hfit : (1 : UInt32).toNat + alignment.toNat + 3 < 2 ^ 32 := by
    rw [UInt32.toNat_one]
    omega
  obtain ⟨hslot, -, -⟩ := alignedAddress_spec ha hfit
  have hp : (alignedAlloc exactAllocator.malloc (fun _ => 0) alignment size).1 ≠ 0 := by
    rw [alignedAlloc_eq exactAllocator.malloc _ ha hraw (by decide)]
    intro h0
    dsimp only at h0
    rw [h0, UInt32.toNat_zero] at hslot
    omega
  -- the block is shorter than the size
  have hin := (h exactAllocator _ hp).inside
  rw [hraw, UInt32.toNat_one] at hin
  change _ ≤ 1 + (size + alignment - 1 + 4).toNat at hin
  omega

/-- A hundred bytes at a multiple of sixteen. -/
theorem alignsIn_iff_hundred : AlignsIn exactAllocator 16 100 :=
  (alignsIn_iff ⟨4, by decide⟩ 100).mpr (by decide) exactAllocator

/-- For almost four gigabytes `malloc` is asked for three bytes: the pointer is behind them. -/
theorem not_alignsIn : ¬ AlignsIn exactAllocator 16 0xFFFFFFF0 ∧
    (alignedAlloc exactAllocator.malloc (fun _ => 0) 16 0xFFFFFFF0).1 = 16 ∧
    exactAllocator.malloc (0xFFFFFFF0 + 16 - 1 + 4) = 1 ∧
    exactAllocator.blockLength (0xFFFFFFF0 + 16 - 1 + 4) = 3 := by
  refine ⟨fun h => ?_, by decide, by decide, by decide⟩
  have hin := (h (fun _ => 0) (by decide)).inside
  revert hin
  decide

end MicroKernel.Libc
