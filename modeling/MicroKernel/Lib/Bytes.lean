import Mathlib.Tactic

set_option autoImplicit false

/-! # Byte stores

A byte store is a total map from addresses to bytes. It stands for the memory of a 32-bit
machine, for a buffer on the stack and for a disk sector alike: what differs is only which
addresses are in use. Words are little-endian.

Every update has two lemmas, what is read back at the place written and that the rest is
unchanged; the proofs that use this file never unfold an update.
-/

namespace MicroKernel.Lib

/-- A byte store: the byte at each address (or offset of a buffer). -/
abbrev Bytes := Nat → UInt8

namespace Bytes

/-- The little-endian 16-bit word at `a`. -/
def load16 (m : Bytes) (a : Nat) : Nat := (m a).toNat + 256 * (m (a + 1)).toNat

/-- The little-endian 32-bit word at `a`. -/
def load32 (m : Bytes) (a : Nat) : Nat :=
  (m a).toNat + 256 * (m (a + 1)).toNat + 65536 * (m (a + 2)).toNat
    + 16777216 * (m (a + 3)).toNat

/-- The little-endian 64-bit word at `a`. -/
def load64 (m : Bytes) (a : Nat) : Nat := load32 m a + 2 ^ 32 * load32 m (a + 4)

/-- Write one byte. -/
def store8 (m : Bytes) (a : Nat) (v : UInt8) : Bytes := fun x => if x = a then v else m x

/-- Write the 16-bit word `v` at `a`, least significant byte first. -/
def store16 (m : Bytes) (a v : Nat) : Bytes := fun x =>
  if a ≤ x ∧ x < a + 2 then UInt8.ofNat (v / 256 ^ (x - a)) else m x

/-- Write the 32-bit word `v` at `a`, least significant byte first. -/
def store32 (m : Bytes) (a v : Nat) : Bytes := fun x =>
  if a ≤ x ∧ x < a + 4 then UInt8.ofNat (v / 256 ^ (x - a)) else m x

/-- Set the `n` bytes from `a` on to `v`. -/
def fill (m : Bytes) (a n : Nat) (v : UInt8) : Bytes := fun x =>
  if a ≤ x ∧ x < a + n then v else m x

/-- Overwrite the `n` bytes of `m` from `a` on with those of `src` from `off` on. -/
def copy (m : Bytes) (a : Nat) (src : Bytes) (off n : Nat) : Bytes := fun x =>
  if a ≤ x ∧ x < a + n then src (off + (x - a)) else m x

/-! ## Reading -/

theorem load32_lt (m : Bytes) (a : Nat) : load32 m a < 2 ^ 32 := by
  have h0 := (m a).toNat_lt
  have h1 := (m (a + 1)).toNat_lt
  have h2 := (m (a + 2)).toNat_lt
  have h3 := (m (a + 3)).toNat_lt
  unfold load32
  omega

theorem load16_lt (m : Bytes) (a : Nat) : load16 m a < 2 ^ 16 := by
  have h0 := (m a).toNat_lt
  have h1 := (m (a + 1)).toNat_lt
  unfold load16
  omega

/-- A word depends on its four bytes only. -/
theorem load32_congr {m m' : Bytes} {a b : Nat} (h : ∀ i, i < 4 → m' (a + i) = m (b + i)) :
    load32 m' a = load32 m b := by
  have h0 := h 0 (by omega)
  have h1 := h 1 (by omega)
  have h2 := h 2 (by omega)
  have h3 := h 3 (by omega)
  simp only [Nat.add_zero] at h0
  simp only [load32, h0, h1, h2, h3]

/-! ## Writing a byte -/

@[simp] theorem store8_same (m : Bytes) (a : Nat) (v : UInt8) : store8 m a v a = v := by
  simp [store8]

theorem store8_ne (m : Bytes) {a x : Nat} (v : UInt8) (h : x ≠ a) : store8 m a v x = m x := by
  simp [store8, h]

/-! ## Writing a word -/

theorem store16_outside (m : Bytes) {a x : Nat} (v : Nat) (h : x < a ∨ a + 2 ≤ x) :
    store16 m a v x = m x := by
  unfold store16
  rw [if_neg (by omega)]

theorem store32_outside (m : Bytes) {a x : Nat} (v : Nat) (h : x < a ∨ a + 4 ≤ x) :
    store32 m a v x = m x := by
  unfold store32
  rw [if_neg (by omega)]

theorem store32_byte (m : Bytes) (a v : Nat) {i : Nat} (h : i < 4) :
    store32 m a v (a + i) = UInt8.ofNat (v / 256 ^ i) := by
  unfold store32
  rw [if_pos (by omega), Nat.add_sub_cancel_left]

/-- The word written is the word read back, up to the width of a word. -/
theorem load32_store32_same (m : Bytes) (a v : Nat) : load32 (store32 m a v) a = v % 2 ^ 32 := by
  have h0 := store32_byte m a v (i := 0) (by omega)
  have h1 := store32_byte m a v (i := 1) (by omega)
  have h2 := store32_byte m a v (i := 2) (by omega)
  have h3 := store32_byte m a v (i := 3) (by omega)
  simp only [Nat.add_zero] at h0
  simp only [load32, h0, h1, h2, h3, UInt8.toNat_ofNat']
  omega

theorem load32_store32_ne (m : Bytes) {a b : Nat} (v : Nat) (h : a + 4 ≤ b ∨ b + 4 ≤ a) :
    load32 (store32 m a v) b = load32 m b :=
  load32_congr fun i hi => store32_outside m v (by omega)

/-! ## Block updates -/

theorem fill_inside (m : Bytes) {a n x : Nat} (v : UInt8) (h : a ≤ x) (h' : x < a + n) :
    fill m a n v x = v := by
  unfold fill
  rw [if_pos ⟨h, h'⟩]

theorem fill_outside (m : Bytes) {a n x : Nat} (v : UInt8) (h : x < a ∨ a + n ≤ x) :
    fill m a n v x = m x := by
  unfold fill
  rw [if_neg (by omega)]

theorem copy_inside (m : Bytes) {a n x : Nat} (src : Bytes) (off : Nat) (h : a ≤ x)
    (h' : x < a + n) : copy m a src off n x = src (off + (x - a)) := by
  unfold copy
  rw [if_pos ⟨h, h'⟩]

theorem copy_outside (m : Bytes) {a n x : Nat} (src : Bytes) (off : Nat)
    (h : x < a ∨ a + n ≤ x) : copy m a src off n x = m x := by
  unfold copy
  rw [if_neg (by omega)]

/-! ## Reading a stream piece by piece -/

/-- Pieces of `size` bytes, one behind the other. -/
def joined (size : Nat) (piece : Nat → Bytes) : Bytes := fun x => piece (x / size) (x % size)

theorem joined_apply {size : Nat} (piece : Nat → Bytes) {k r : Nat} (hr : r < size) :
    joined size piece (k * size + r) = piece k r := by
  have hpos : 0 < size := by omega
  unfold joined
  rw [Nat.mul_comm, Nat.mul_add_div hpos, Nat.div_eq_of_lt hr, Nat.mul_add_mod, Nat.mod_eq_of_lt hr,
    Nat.add_zero]

/-- The first `n` bytes of `m` are those of the stream `f` from `p` on. -/
def Filled (m f : Bytes) (p n : Nat) : Prop := ∀ i, i < n → m i = f (p + i)

theorem filled_zero (m f : Bytes) (p : Nat) : Filled m f p 0 := fun i hi => absurd hi (by omega)

section filled

variable {m f : Bytes} {p t n : Nat}

/-- The next piece of the stream is copied behind what is there. -/
theorem Filled.copy (h : Filled m f p t) (src : Bytes) (off : Nat)
    (hsrc : ∀ i, i < n → src (off + i) = f (p + t + i)) :
    Filled (copy m t src off n) f p (t + n) := by
  intro i hi
  by_cases hlt : i < t
  · rw [copy_outside _ _ _ (Or.inl hlt)]
    exact h i hlt
  · have heq : p + t + (i - t) = p + i := by omega
    rw [copy_inside _ _ _ (by omega) hi, hsrc (i - t) (by omega), heq]

/-- The same, where the stream has the byte `v` over and over. -/
theorem Filled.fill (h : Filled m f p t) {v : UInt8} (hv : ∀ i, i < n → f (p + t + i) = v) :
    Filled (fill m t n v) f p (t + n) := by
  intro i hi
  by_cases hlt : i < t
  · rw [fill_outside _ _ (Or.inl hlt)]
    exact h i hlt
  · have heq : p + t + (i - t) = p + i := by omega
    rw [fill_inside _ _ (by omega) hi, ← heq, hv (i - t) (by omega)]

theorem filled_copy (m f : Bytes) (p n : Nat) : Filled (Bytes.copy m 0 f p n) f p n := by
  intro i hi
  rw [copy_inside _ _ _ (Nat.zero_le i) (by omega), Nat.sub_zero]

/-- A copy that goes on where another one has ended. -/
theorem copy_copy (src : Bytes) (off : Nat) (hsrc : ∀ i, i < n → src (off + i) = f (p + t + i)) :
    Bytes.copy (Bytes.copy m 0 f p t) t src off n = Bytes.copy m 0 f p (t + n) := by
  have hfill := (filled_copy m f p t).copy src off hsrc
  funext x
  rcases Nat.lt_or_ge x (t + n) with hlt | hge
  · rw [hfill x hlt, filled_copy m f p (t + n) x hlt]
  · rw [copy_outside _ _ _ (by omega), copy_outside _ _ _ (by omega), copy_outside _ _ _ (by omega)]

/-- A byte behind the piece does not matter. -/
theorem Filled.store8 (h : Filled m f p n) {a : Nat} (ha : n ≤ a) (v : UInt8) :
    Filled (store8 m a v) f p n := by
  intro i hi
  rw [store8_ne _ _ (by omega)]
  exact h i hi

end filled

/-! ## Bytes as a list -/

/-- The first `n` bytes as a list. -/
def first (m : Bytes) (n : Nat) : List UInt8 := (List.range n).map m

@[simp] theorem length_first (m : Bytes) (n : Nat) : (first m n).length = n := by
  simp [first]

@[simp] theorem first_zero (m : Bytes) : first m 0 = [] := rfl

/-- A stream whose first `t` bytes are followed by those of a buffer. -/
theorem first_append {f b : Bytes} {t n : Nat} (h : Filled b f t n) :
    first f t ++ first b n = first f (t + n) := by
  unfold first
  rw [List.range_add, List.map_append, List.map_map]
  congr 1
  apply List.map_congr_left
  intro i hi
  exact h i (List.mem_range.mp hi)

theorem getElem_first (m : Bytes) {n i : Nat} (h : i < (first m n).length) :
    (first m n)[i] = m i := by
  simp [first]

theorem first_isPrefix (m : Bytes) {n n' : Nat} (h : n ≤ n') : first m n <+: first m n' := by
  obtain ⟨k, rfl⟩ := Nat.exists_eq_add_of_le h
  rw [← first_append (b := fun i => m (n + i)) fun i _ => rfl]
  exact List.prefix_append _ _

/-- A beginning of a beginning. -/
theorem take_first (m : Bytes) {n n' : Nat} (h : n ≤ n') : (first m n').take n = first m n := by
  have htake := (List.prefix_iff_eq_take.mp (first_isPrefix m h)).symm
  rwa [length_first] at htake

/-- Pieces of the same size, joined. -/
theorem first_joined (size : Nat) (piece : Nat → Bytes) (n : Nat) :
    first (joined size piece) (n * size) = (List.range n).flatMap fun k => first (piece k) size := by
  induction n with
  | zero => simp
  | succ n ih =>
      have hpiece : Filled (piece n) (joined size piece) (n * size) size :=
        fun i hi => (joined_apply piece hi).symm
      rw [List.range_succ, List.flatMap_append, ← ih, List.flatMap_singleton, first_append hpiece,
        Nat.add_mul, Nat.one_mul]

theorem Filled.first_eq {m f : Bytes} {n : Nat} (h : Filled m f 0 n) : first m n = first f n := by
  have happend := first_append h
  rwa [first_zero, List.nil_append, Nat.zero_add] at happend

end Bytes

end MicroKernel.Lib
