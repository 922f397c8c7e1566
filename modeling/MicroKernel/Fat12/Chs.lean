import MicroKernel.Fat12.Driver

set_option autoImplicit false

/-! # Logical sectors as track, head and sector number

The three numbers of `logical_to_chs` come from divisions that are made apart from each other. They
are the digits of the logical sector all the same, in a notation with two bases, of which the last
digit counts from one: `Geometry.chs` and `Geometry.lba` are inverse to each other between the logical
sectors and the addresses that the floppy has. In `int`s this is so as long as the product of the
geometry is one.
-/

namespace MicroKernel.Fat12

open MicroKernel.Lib

/-! ## Addresses -/

namespace Geometry

/-- The logical sector with an address. -/
def lba (g : Geometry) : Nat × Nat × Nat → Nat
  | (track, head, sector) => (track * g.heads + head) * g.spt + sector - 1

/-- The address of a logical sector. -/
def chs (g : Geometry) (n : Nat) : Nat × Nat × Nat :=
  (n / (g.spt * g.heads), n / g.spt % g.heads, n % g.spt + 1)

/-- The head and the sector number are ones that the floppy has. -/
def Valid (g : Geometry) : Nat × Nat × Nat → Prop
  | (_, head, sector) => head < g.heads ∧ 1 ≤ sector ∧ sector ≤ g.spt

variable (g : Geometry)

theorem valid_chs (n : Nat) : g.Valid (g.chs n) :=
  ⟨Nat.mod_lt _ g.heads_pos, Nat.le_add_left _ _, Nat.mod_lt _ g.spt_pos⟩

/-- **The digits make the number.** -/
theorem lba_chs (n : Nat) : g.lba (g.chs n) = n := by
  -- the track is the quotient by the heads of what the sector number leaves
  have htrack : n / (g.spt * g.heads) * g.heads + n / g.spt % g.heads = n / g.spt := by
    rw [← Nat.div_div_eq_div_mul, Nat.div_add_mod']
  calc g.lba (g.chs n)
      = (n / (g.spt * g.heads) * g.heads + n / g.spt % g.heads) * g.spt + n % g.spt := rfl
    _ = n / g.spt * g.spt + n % g.spt := by rw [htrack]
    _ = n := Nat.div_add_mod' n g.spt

theorem chs_injective : Function.Injective g.chs := Function.LeftInverse.injective g.lba_chs

/-- Every address that the floppy has is the one of its logical sector. -/
theorem chs_lba {a : Nat × Nat × Nat} (h : g.Valid a) : g.chs (g.lba a) = a := by
  obtain ⟨track, head, sector⟩ := a
  obtain ⟨hhead, hpos, hsector⟩ := h
  obtain ⟨r, rfl⟩ : ∃ r, sector = r + 1 := ⟨sector - 1, by omega⟩
  have hlba : g.lba (track, head, r + 1) = r + (track * g.heads + head) * g.spt := by
    rw [lba, ← Nat.add_assoc, Nat.add_sub_cancel, Nat.add_comm]
  have hquot : g.lba (track, head, r + 1) / g.spt = head + track * g.heads := by
    rw [hlba, Nat.add_mul_div_right _ _ g.spt_pos, Nat.div_eq_of_lt hsector, Nat.zero_add,
      Nat.add_comm]
  unfold chs
  rw [← Nat.div_div_eq_div_mul, hquot, Nat.add_mul_div_right _ _ g.heads_pos,
    Nat.div_eq_of_lt hhead, Nat.zero_add, Nat.add_mul_mod_self_right, Nat.mod_eq_of_lt hhead, hlba,
    Nat.add_mul_mod_self_right, Nat.mod_eq_of_lt hsector]

end Geometry

/-! ## The function -/

variable {fat12 : Option Fat12T} {n : Nat}

/-- The function computes the address. -/
theorem logicalToChs_eq (hproduct : (geometry fat12).spt * (geometry fat12).heads < 2 ^ 31)
    (hn : n < 2 ^ 31) : logicalToChs fat12 n = (geometry fat12).chs n := by
  have htrack : n / ((geometry fat12).spt * (geometry fat12).heads) < 2 ^ 32 :=
    Nat.lt_of_le_of_lt (Nat.div_le_self _ _) (by omega)
  unfold logicalToChs Geometry.chs
  rw [if_neg (by omega)]
  dsimp only
  rw [asInt, if_pos hproduct, ← Int.ofNat_tdiv, asWord_natCast htrack]

/-- The address of a sector that the floppy has comes out for that sector. -/
theorem logicalToChs_lba (hproduct : (geometry fat12).spt * (geometry fat12).heads < 2 ^ 31)
    {a : Nat × Nat × Nat} (ha : (geometry fat12).Valid a) (hlba : (geometry fat12).lba a < 2 ^ 31) :
    logicalToChs fat12 ((geometry fat12).lba a) = a := by
  rw [logicalToChs_eq hproduct hlba]
  exact (geometry fat12).chs_lba ha

/-- **CHS conversion**: the sector number and the head are ones that the floppy has, the three numbers
make the logical sector again, and two logical sectors do not have the same ones. -/
theorem logicalToChs_mixedRadix (fat12 : Option Fat12T)
    (hproduct : (geometry fat12).spt * (geometry fat12).heads < 2 ^ 31) :
    (∀ n < 2 ^ 31, ∃ track head sector, logicalToChs fat12 n = (track, head, sector) ∧
      1 ≤ sector ∧ sector ≤ (geometry fat12).spt ∧ head < (geometry fat12).heads ∧
      (track * (geometry fat12).heads + head) * (geometry fat12).spt + sector - 1 = n) ∧
    ∀ n < 2 ^ 31, ∀ m < 2 ^ 31, logicalToChs fat12 n = logicalToChs fat12 m → n = m := by
  constructor
  · intro n hn
    obtain ⟨hhead, hpos, hsector⟩ := (geometry fat12).valid_chs n
    exact ⟨_, _, _, logicalToChs_eq hproduct hn, hpos, hsector, hhead, (geometry fat12).lba_chs n⟩
  · intro n hn m hm h
    rw [logicalToChs_eq hproduct hn, logicalToChs_eq hproduct hm] at h
    exact (geometry fat12).chs_injective h

/-- Before a boot sector has been loaded. -/
theorem logicalToChs_mixedRadix_default :
    (∃ track head sector, logicalToChs none 2879 = (track, head, sector) ∧
      1 ≤ sector ∧ sector ≤ 18 ∧ head < 2 ∧ (track * 2 + head) * 18 + sector - 1 = 2879) ∧
    (logicalToChs none 17 = logicalToChs none 18 → 17 = 18) := by
  obtain ⟨hdigits, hinj⟩ := logicalToChs_mixedRadix none (by decide)
  exact ⟨hdigits 2879 (by decide), hinj 17 (by decide) 18 (by decide)⟩

end MicroKernel.Fat12
