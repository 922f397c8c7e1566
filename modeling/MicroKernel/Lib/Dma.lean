import MicroKernel.Lib.Bytes

set_option autoImplicit false

/-! # A channel of a DMA controller

The channel moves bytes from a device to the memory. Its address and its counter have 16 bits and are
written in halves, the low one first; which half is next is in a flip-flop. The upper bits of an address
are in a page register of their own, and the channel does not carry into it. So a transfer stays in its
page of 64 KiB, and begins again at the start of the page behind its end (`place`).
-/

namespace MicroKernel.Lib

/-- The registers of a channel. -/
structure Dma where
  /-- The high half is next. -/
  flipFlop : Bool
  address : Nat
  count : Nat
  page : Nat
  mode : Nat
  masked : Bool
  deriving DecidableEq

namespace Dma

/-! ## Registers -/

/-- A register of 16 bits with a new half. -/
def setHalf (high : Bool) (old value : Nat) : Nat :=
  if high then old % 2 ^ 8 + 2 ^ 8 * value else old / 2 ^ 8 * 2 ^ 8 + value

theorem setHalf_setHalf {lo : Nat} (hlo : lo < 2 ^ 8) (old hi : Nat) :
    setHalf true (setHalf false old lo) hi = lo + 2 ^ 8 * hi := by
  unfold setHalf
  rw [if_pos rfl, if_neg (by decide), Nat.add_comm (old / 2 ^ 8 * 2 ^ 8), Nat.add_mul_mod_self_right,
    Nat.mod_eq_of_lt hlo]

/-- A write to the mask register; bits 0 and 1 name a channel. -/
def writeMask (channel : Nat) (value : Nat) (d : Dma) : Dma :=
  if value % 4 = channel then { d with masked := value.testBit 2 } else d

/-- A write to the mode register. -/
def writeMode (channel : Nat) (value : Nat) (d : Dma) : Dma :=
  if value % 4 = channel then { d with mode := value } else d

/-- A write to the register that clears the flip-flop. -/
def clear (d : Dma) : Dma := { d with flipFlop := false }

/-- A write to the address register. -/
def writeAddress (value : Nat) (d : Dma) : Dma :=
  { d with address := setHalf d.flipFlop d.address value, flipFlop := !d.flipFlop }

/-- A write to the counter. -/
def writeCount (value : Nat) (d : Dma) : Dma :=
  { d with count := setHalf d.flipFlop d.count value, flipFlop := !d.flipFlop }

/-- A write to the page register. -/
def writePage (value : Nat) (d : Dma) : Dma := { d with page := value }

/-- The channel takes `n` bytes from the device to the memory, and then ends the transfer. -/
structure Takes (d : Dma) (n : Nat) : Prop where
  unmasked : d.masked = false
  mode : d.mode / 4 % 4 = 1
  count : d.count + 1 = n

instance (d : Dma) (n : Nat) : Decidable (d.Takes n) :=
  decidable_of_iff (d.masked = false ∧ d.mode / 4 % 4 = 1 ∧ d.count + 1 = n)
    ⟨fun ⟨h₁, h₂, h₃⟩ => ⟨h₁, h₂, h₃⟩, fun ⟨h₁, h₂, h₃⟩ => ⟨h₁, h₂, h₃⟩⟩

/-- The channel behind a transfer of `n` bytes. -/
def ended (n : Nat) (d : Dma) : Dma :=
  { d with address := (d.address + n) % 2 ^ 16, count := 2 ^ 16 - 1, masked := true }

/-! ## Transfers -/

/-- The address of byte `i` of a transfer. -/
def place (d : Dma) (i : Nat) : Nat := d.page * 2 ^ 16 + (d.address + i) % 2 ^ 16

/-- The number of the byte that a transfer brings to the address `x` of its page. -/
def index (d : Dma) (x : Nat) : Nat := (x % 2 ^ 16 + (2 ^ 16 - d.address % 2 ^ 16)) % 2 ^ 16

/-- The memory behind a transfer of the first `n` bytes of `data`. -/
def transfer (d : Dma) (data : Bytes) (n : Nat) (memory : Bytes) : Bytes := fun x =>
  if x / 2 ^ 16 = d.page ∧ d.index x < n then data (d.index x) else memory x

variable (d : Dma) (data memory : Bytes)

theorem index_place {i : Nat} (h : i < 2 ^ 16) : d.index (d.place i) = i := by
  unfold index place
  omega

theorem place_index {x : Nat} (h : x / 2 ^ 16 = d.page) : d.place (d.index x) = x := by
  unfold index place
  omega

theorem place_div (i : Nat) : d.place i / 2 ^ 16 = d.page := by
  unfold place
  omega

theorem transfer_place {i n : Nat} (hi : i < n) (hn : n ≤ 2 ^ 16) :
    d.transfer data n memory (d.place i) = data i := by
  unfold transfer
  rw [d.index_place (by omega), if_pos ⟨d.place_div i, hi⟩]

theorem transfer_other {n x : Nat} (h : ∀ i, i < n → d.place i ≠ x) :
    d.transfer data n memory x = memory x := by
  unfold transfer
  refine if_neg ?_
  rintro ⟨hpage, hlt⟩
  exact h _ hlt (d.place_index hpage)

/-- A transfer that stays below the end of its page goes to consecutive addresses. -/
theorem transfer_of_fits {n : Nat} (hfits : d.address + n ≤ 2 ^ 16) :
    d.transfer data n memory = Bytes.copy memory (d.page * 2 ^ 16 + d.address) data 0 n := by
  funext x
  have hplace : ∀ i, i < n → d.place i = d.page * 2 ^ 16 + d.address + i := by
    intro i hi
    unfold place
    omega
  unfold Bytes.copy
  split
  next hx =>
    have hi : x - (d.page * 2 ^ 16 + d.address) < n := by omega
    have hx' : d.place (x - (d.page * 2 ^ 16 + d.address)) = x := by
      rw [hplace _ hi]
      omega
    rw [← hx', d.transfer_place data memory hi (by omega), hx', Nat.zero_add]
  next hx =>
    refine d.transfer_other data memory ?_
    intro i hi heq
    rw [hplace i hi] at heq
    omega

end Dma

end MicroKernel.Lib
