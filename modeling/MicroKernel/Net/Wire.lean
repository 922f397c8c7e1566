import MicroKernel.Lib.OnesComplement

set_option autoImplicit false

/-! # Byte order, header fields and checksums (`drivers/net`)

A packet is a byte store: what the network card delivered, followed by whatever memory lies
behind it. The machine is little-endian, so a 16-bit or 32-bit header field is read as the
memory has it and then turned around by `ntohs` or `ntohl`, as in `ethernet.c`.
-/

namespace MicroKernel.Net

open MicroKernel.Lib Bytes

/-! ## Byte order -/

/-- `htons`, and `ntohs`, which calls it. -/
def htons (x : UInt16) : UInt16 := (x <<< 8) ||| (x >>> 8)

/-- `ntohs`. -/
def ntohs (x : UInt16) : UInt16 := htons x

/-- `htonl`. -/
def htonl (x : UInt32) : UInt32 :=
  ((x &&& 0x000000FF) <<< 24) ||| ((x &&& 0x0000FF00) <<< 8) ||| ((x &&& 0x00FF0000) >>> 8)
    ||| ((x &&& 0xFF000000) >>> 24)

/-- `ntohl`. -/
def ntohl (x : UInt32) : UInt32 := htonl x

/-- A 16-bit field of a packed header. -/
def field16 (p : Bytes) (a : Nat) : UInt16 := UInt16.ofNat (load16 p a)

/-- A 32-bit field of a packed header. -/
def field32 (p : Bytes) (a : Nat) : UInt32 := UInt32.ofNat (load32 p a)

/-- Assign a 16-bit field of a packed header. -/
def setField16 (p : Bytes) (a : Nat) (v : UInt16) : Bytes := store16 p a v.toNat

/-- Assign a 32-bit field of a packed header. -/
def setField32 (p : Bytes) (a : Nat) (v : UInt32) : Bytes := store32 p a v.toNat

/-! ## Addresses of the link layer -/

/-- `ETH_ADDR_LEN` bytes. -/
abbrev Mac := Vector UInt8 6

/-- The address at offset `a`. -/
def macAt (p : Bytes) (a : Nat) : Mac := Vector.ofFn fun i => p (a + i)

/-- `memcpy` of an address to offset `a`. -/
def setMac (p : Bytes) (a : Nat) (mac : Mac) : Bytes := fun x =>
  if h : a ≤ x ∧ x < a + 6 then mac.get ⟨x - a, by omega⟩ else p x

/-- `FF:FF:FF:FF:FF:FF`. -/
def broadcastMac : Mac := Vector.replicate 6 0xFF

/-! ## Checksums -/

/-- `checksum_accumulate`: the big-endian words of the `len` bytes at `a`, added to the 32-bit
`sum`; an odd last byte counts as the high byte of a word. -/
def checksumAccumulate (p : Bytes) : Nat → Nat → UInt32 → UInt32
  | a, len + 2, sum =>
      checksumAccumulate p (a + 2) len (sum + UInt32.ofNat (256 * (p a).toNat + (p (a + 1)).toNat))
  | a, 1, sum => sum + UInt32.ofNat (256 * (p a).toNat)
  | _, 0, sum => sum

/-- The loop of `fold_checksum`. Each round makes the sum smaller, so the sum itself bounds the
number of rounds. -/
def foldLoop : Nat → Nat → Nat
  | 0, sum => sum
  | k + 1, sum => if sum / 65536 ≠ 0 then foldLoop k (sum % 65536 + sum / 65536) else sum

/-- `fold_checksum`. -/
def foldChecksum (sum : UInt32) : UInt16 := ~~~ UInt16.ofNat (foldLoop sum.toNat sum.toNat)

/-- `ip_checksum` of the `length` bytes at `a`. -/
def ipChecksum (p : Bytes) (a : Nat) (length : UInt16) : UInt16 :=
  foldChecksum (checksumAccumulate p a length.toNat 0)

/-! ## Fields read and written -/

theorem htons_toNat (x : UInt16) : (htons x).toNat = swap16 x.toNat := by
  have hx := x.toNat_lt
  have hor := Nat.two_pow_add_eq_or_of_lt (i := 8) (b := x.toNat / 256) (by omega) (x.toNat % 256)
  unfold htons swap16
  rw [UInt16.toNat_or, UInt16.toNat_shiftLeft, UInt16.toNat_shiftRight, Nat.shiftRight_eq_div_pow,
    Nat.shiftLeft_eq]
  simp only [show (8 : UInt16).toNat % 16 = 8 from rfl]
  rw [show x.toNat * 2 ^ 8 % 2 ^ 16 = 2 ^ 8 * (x.toNat % 256) by omega, ← hor]

/-- One byte of a number, left where it is. -/
theorem and_byte (x k : Nat) : x &&& 255 * 2 ^ k = x / 2 ^ k % 256 * 2 ^ k := by
  apply Nat.eq_of_testBit_eq
  intro i
  rw [Nat.testBit_and, Nat.testBit_mul_two_pow, Nat.testBit_mul_two_pow,
    show (255 : Nat) = 2 ^ 8 - 1 from rfl, show (256 : Nat) = 2 ^ 8 from rfl,
    Nat.testBit_two_pow_sub_one, Nat.testBit_mod_two_pow, Nat.testBit_div_two_pow]
  by_cases hi : k ≤ i
  · rw [Nat.sub_add_cancel hi, decide_eq_true hi, Bool.true_and, Bool.true_and, Bool.and_comm]
  · rw [decide_eq_false hi, Bool.false_and, Bool.false_and, Bool.and_false]

/-- Four bytes side by side. -/
theorem or_bytes {a b c d : Nat} (hb : b < 256) (hc : c < 256) (hd : d < 256) :
    2 ^ 24 * a ||| 2 ^ 16 * b ||| 2 ^ 8 * c ||| d
      = 2 ^ 24 * a + 2 ^ 16 * b + 2 ^ 8 * c + d := by
  rw [← Nat.two_pow_add_eq_or_of_lt (i := 24) (by omega),
    show 2 ^ 24 * a + 2 ^ 16 * b = 2 ^ 16 * (2 ^ 8 * a + b) by omega,
    ← Nat.two_pow_add_eq_or_of_lt (i := 16) (by omega),
    show 2 ^ 16 * (2 ^ 8 * a + b) + 2 ^ 8 * c = 2 ^ 8 * (2 ^ 8 * (2 ^ 8 * a + b) + c) by omega,
    ← Nat.two_pow_add_eq_or_of_lt (i := 8) (by omega)]

/-- The bytes of a number in the other order. -/
theorem htonl_toNat (x : UInt32) :
    (htonl x).toNat = 2 ^ 24 * (x.toNat % 256) + 2 ^ 16 * (x.toNat / 2 ^ 8 % 256)
      + 2 ^ 8 * (x.toNat / 2 ^ 16 % 256) + x.toNat / 2 ^ 24 := by
  have hx := x.toNat_lt
  have h0 := and_byte x.toNat 0
  have h1 := and_byte x.toNat 8
  have h2 := and_byte x.toNat 16
  have h3 := and_byte x.toNat 24
  have hlt : ∀ n : Nat, n % 256 < 256 := fun n => Nat.mod_lt n (by decide)
  have htop : x.toNat / 2 ^ 24 % 256 = x.toNat / 2 ^ 24 := Nat.mod_eq_of_lt (by omega)
  -- where each masked byte is shifted to
  have e0 : ∀ b, b < 256 → b * 2 ^ 0 * 2 ^ 24 % 2 ^ 32 = 2 ^ 24 * b := fun b hb => by omega
  have e1 : ∀ b, b < 256 → b * 2 ^ 8 * 2 ^ 8 % 2 ^ 32 = 2 ^ 16 * b := fun b hb => by omega
  have e2 : ∀ b, b * 2 ^ 16 / 2 ^ 8 = 2 ^ 8 * b := fun b => by omega
  have e3 : ∀ b, b * 2 ^ 24 / 2 ^ 24 = b := fun b => Nat.mul_div_cancel b (by decide)
  unfold htonl
  simp only [UInt32.toNat_or, UInt32.toNat_shiftLeft, UInt32.toNat_shiftRight, UInt32.toNat_and,
    show (0x000000FF : UInt32).toNat = 255 * 2 ^ 0 from rfl,
    show (0x0000FF00 : UInt32).toNat = 255 * 2 ^ 8 from rfl,
    show (0x00FF0000 : UInt32).toNat = 255 * 2 ^ 16 from rfl,
    show (0xFF000000 : UInt32).toNat = 255 * 2 ^ 24 from rfl,
    show (24 : UInt32).toNat % 32 = 24 from rfl, show (8 : UInt32).toNat % 32 = 8 from rfl,
    h0, h1, h2, h3, Nat.shiftLeft_eq, Nat.shiftRight_eq_div_pow]
  rw [e0 _ (hlt _), e1 _ (hlt _), e2, e3, htop, or_bytes (hlt _) (hlt _) (by omega), Nat.pow_zero,
    Nat.div_one]

theorem ntohs_htons (x : UInt16) : ntohs (htons x) = x := by
  apply UInt16.toNat_inj.mp
  rw [ntohs, htons_toNat, htons_toNat, swap16_swap16 x.toNat_lt]

theorem htonl_bytes (x : UInt32) :
    (htonl x).toNat % 256 = x.toNat / 2 ^ 24 ∧
      (htonl x).toNat / 2 ^ 8 % 256 = x.toNat / 2 ^ 16 % 256 ∧
      (htonl x).toNat / 2 ^ 16 % 256 = x.toNat / 2 ^ 8 % 256 ∧
      (htonl x).toNat / 2 ^ 24 = x.toNat % 256 := by
  have hx := x.toNat_lt
  have hlt : ∀ n : Nat, n % 256 < 256 := fun n => Nat.mod_lt n (by decide)
  have htop : x.toNat / 2 ^ 24 < 256 := by omega
  rw [htonl_toNat]
  generalize x.toNat / 2 ^ 24 = d at htop ⊢
  have hc := hlt (x.toNat / 2 ^ 16)
  generalize x.toNat / 2 ^ 16 % 256 = c at hc ⊢
  have hb := hlt (x.toNat / 2 ^ 8)
  generalize x.toNat / 2 ^ 8 % 256 = b at hb ⊢
  have ha := hlt x.toNat
  generalize x.toNat % 256 = a at ha ⊢
  omega

theorem ntohl_htonl (x : UInt32) : ntohl (htonl x) = x := by
  obtain ⟨h0, h1, h2, h3⟩ := htonl_bytes x
  have hx := x.toNat_lt
  apply UInt32.toNat_inj.mp
  rw [ntohl, htonl_toNat, h0, h1, h2, h3]
  omega

theorem field16_setField16 (p : Bytes) (a : Nat) (v : UInt16) :
    field16 (setField16 p a v) a = v := by
  have hv := v.toNat_lt
  apply UInt16.toNat_inj.mp
  simp [field16, setField16, load16, store16]
  omega

theorem field32_setField32 (p : Bytes) (a : Nat) (v : UInt32) :
    field32 (setField32 p a v) a = v := by
  apply UInt32.toNat_inj.mp
  rw [field32, setField32, load32_store32_same, Nat.mod_eq_of_lt v.toNat_lt, UInt32.ofNat_toNat]

theorem setField16_outside (p : Bytes) {a x : Nat} (v : UInt16) (h : x < a ∨ a + 2 ≤ x) :
    setField16 p a v x = p x := store16_outside p _ h

theorem setField32_outside (p : Bytes) {a x : Nat} (v : UInt32) (h : x < a ∨ a + 4 ≤ x) :
    setField32 p a v x = p x := store32_outside p _ h

/-! ## Words on the wire -/

theorem word_store8_ne (p : Bytes) {a b : Nat} (v : UInt8) (h : b + 2 ≤ a ∨ a < b) :
    word (store8 p a v) b = word p b :=
  word_congr (store8_ne p v (by omega)) (store8_ne p v (by omega))

theorem word_setField16_ne (p : Bytes) {a b : Nat} (v : UInt16) (h : b + 2 ≤ a ∨ a + 2 ≤ b) :
    word (setField16 p a v) b = word p b :=
  word_congr (setField16_outside p v (by omega)) (setField16_outside p v (by omega))

theorem word_setField32_ne (p : Bytes) {a b : Nat} (v : UInt32) (h : b + 2 ≤ a ∨ a + 4 ≤ b) :
    word (setField32 p a v) b = word p b :=
  word_congr (setField32_outside p v (by omega)) (setField32_outside p v (by omega))

/-- A word made of two byte fields. -/
theorem word_store8 (p : Bytes) {a b : Nat} (x y : UInt8) (h : b = a + 1) :
    word (store8 (store8 p a x) b y) a = 256 * x.toNat + y.toNat := by
  subst h
  simp [word, store8]

/-- The machine stores a field low byte first. -/
theorem word_setField16 (p : Bytes) (a : Nat) (v : UInt16) :
    word (setField16 p a v) a = swap16 v.toNat := by
  have hv := v.toNat_lt
  simp [word, setField16, store16, swap16]
  omega

theorem swap16_htons (v : UInt16) : swap16 (htons v).toNat = v.toNat := by
  rw [htons_toNat, swap16_swap16 v.toNat_lt]

theorem word_setField32 (p : Bytes) (a : Nat) (v : UInt32) :
    word (setField32 p a v) a = 256 * (v.toNat % 256) + v.toNat / 2 ^ 8 % 256 ∧
      word (setField32 p a v) (a + 2) = 256 * (v.toNat / 2 ^ 16 % 256) + v.toNat / 2 ^ 24 := by
  have hv := v.toNat_lt
  have htop : v.toNat / 2 ^ 24 % 256 = v.toNat / 2 ^ 24 := Nat.mod_eq_of_lt (by omega)
  have hbyte : ∀ i, i < 4 → (setField32 p a v (a + i)).toNat = v.toNat / 256 ^ i % 256 := by
    intro i hi
    rw [setField32, store32_byte p a v.toNat hi, UInt8.toNat_ofNat']
  have h0 := hbyte 0 (by decide)
  have h1 := hbyte 1 (by decide)
  have h2 := hbyte 2 (by decide)
  have h3 := hbyte 3 (by decide)
  simp only [Nat.add_zero, Nat.pow_zero, Nat.div_one, Nat.reducePow] at h0 h1 h2 h3
  rw [word, word, h0, h1, h2, h3, ← htop]
  exact ⟨rfl, rfl⟩

/-- An address is sent high word first. -/
theorem word_setField32_htonl (p : Bytes) (a : Nat) (v : UInt32) :
    word (setField32 p a (htonl v)) a = v.toNat / 2 ^ 16 ∧
      word (setField32 p a (htonl v)) (a + 2) = v.toNat % 2 ^ 16 := by
  obtain ⟨h0, h1, h2, h3⟩ := htonl_bytes v
  obtain ⟨hhigh, hlow⟩ := word_setField32 p a (htonl v)
  have hv := v.toNat_lt
  rw [hhigh, hlow, h0, h1, h2, h3]
  omega

end MicroKernel.Net
