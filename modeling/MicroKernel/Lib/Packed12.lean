import MicroKernel.Lib.Bytes
import Mathlib.Data.List.GetD

set_option autoImplicit false

/-! # Tables of 12-bit entries

Two entries of 12 bits share three bytes. The two bytes at `3c/2`, read as a little-endian word,
hold entry `c` in their low twelve bits when `c` is even and in their high twelve bits when `c` is
odd. Decoding a packed table gives back the entries (`unpack12_pack12`).
-/

namespace MicroKernel.Lib

open Bytes

/-- The low twelve bits of the word at `a`. -/
def lowWindow (t : Bytes) (a : Nat) : Nat := load16 t a % 4096

/-- The high twelve bits of the word at `a`. -/
def highWindow (t : Bytes) (a : Nat) : Nat := load16 t a / 16

/-- Entry `c` of the table. -/
def entry12 (t : Bytes) (c : Nat) : Nat :=
  if c % 2 = 0 then lowWindow t (c * 3 / 2) else highWindow t (c * 3 / 2)

/-- The table with the entries `f`. -/
def packEntries (f : Nat → Nat) : Bytes := fun x =>
  if x % 3 = 0 then UInt8.ofNat (f (2 * (x / 3)))
  else if x % 3 = 1 then
    UInt8.ofNat (f (2 * (x / 3)) / 256 + 16 * (f (2 * (x / 3) + 1) % 16))
  else UInt8.ofNat (f (2 * (x / 3) + 1) / 16)

/-- The table with the entries of a list, and zeros behind them. -/
def pack12 (l : List Nat) : Bytes := packEntries fun c => l.getD c 0

/-- The first `n` entries of a table. -/
def unpack12 (t : Bytes) (n : Nat) : List Nat := (List.range n).map (entry12 t)

theorem packEntries_first (f : Nat → Nat) (q : Nat) :
    packEntries f (3 * q) = UInt8.ofNat (f (2 * q)) := by
  unfold packEntries
  rw [if_pos (by omega), show 3 * q / 3 = q by omega]

theorem packEntries_second (f : Nat → Nat) (q : Nat) : packEntries f (3 * q + 1)
    = UInt8.ofNat (f (2 * q) / 256 + 16 * (f (2 * q + 1) % 16)) := by
  unfold packEntries
  rw [if_neg (by omega), if_pos (by omega), show (3 * q + 1) / 3 = q by omega]

theorem packEntries_third (f : Nat → Nat) (q : Nat) :
    packEntries f (3 * q + 2) = UInt8.ofNat (f (2 * q + 1) / 16) := by
  unfold packEntries
  rw [if_neg (by omega), if_neg (by omega), show (3 * q + 2) / 3 = q by omega]

/-- An entry of a packed table. -/
theorem entry12_packEntries {f : Nat → Nat} (h : ∀ c, f c < 4096) (c : Nat) :
    entry12 (packEntries f) c = f c := by
  unfold entry12 lowWindow highWindow load16
  rcases Nat.even_or_odd' c with ⟨q, rfl | rfl⟩
  · -- the low byte, and the low half of the byte that is shared
    have h0 := h (2 * q)
    rw [if_pos (by omega), show 2 * q * 3 / 2 = 3 * q by omega, packEntries_first,
      packEntries_second, UInt8.toNat_ofNat', UInt8.toNat_ofNat']
    omega
  · have h1 := h (2 * q + 1)
    have h0 := h (2 * q)
    rw [if_neg (by omega), show (2 * q + 1) * 3 / 2 = 3 * q + 1 by omega, packEntries_second,
      packEntries_third, UInt8.toNat_ofNat', UInt8.toNat_ofNat']
    omega

theorem entry12_pack12 {l : List Nat} (h : ∀ x ∈ l, x < 4096) (c : Nat) :
    entry12 (pack12 l) c = l.getD c 0 := by
  apply entry12_packEntries (f := fun c => l.getD c 0)
  intro c
  rcases Nat.lt_or_ge c l.length with hlt | hge
  · rw [List.getD_eq_getElem _ _ hlt]
    exact h _ (List.getElem_mem hlt)
  · rw [List.getD_eq_default _ _ hge]
    decide

/-- Decoding a packed table gives back the list. -/
theorem unpack12_pack12 {l : List Nat} (h : ∀ x ∈ l, x < 4096) :
    unpack12 (pack12 l) l.length = l := by
  apply List.ext_getElem
  · simp [unpack12]
  · intro c hc hc'
    simp only [unpack12, List.getElem_map, List.getElem_range]
    rw [entry12_pack12 h, List.getD_eq_getElem _ _ hc']

end MicroKernel.Lib
