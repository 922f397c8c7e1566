import Mathlib.Tactic

set_option autoImplicit false

/-! # PCI configuration space (`drivers/bus/pci.c`)

Configuration space is reached through two ports: the address register says which dword the data
port shows. Words of 16 bits are read and written as halves of a dword.

`pci_write_config_word` keeps the dword that it has read in a variable of 16 bits. What it writes
back is never more than a low half, so a write to the low half of a dword clears the high half,
and a write to the high half clears it whatever the value is. `configWord_exact_iff` says which
writes are not hurt by this.
-/

namespace MicroKernel.Pci

/-! ## The ports -/

/-- `PCI_CONFIG_ADDRESS`. -/
def pciConfigAddress : Nat := 0xCF8

/-- `PCI_CONFIG_DATA`. -/
def pciConfigData : Nat := 0xCFC

/-- The place of a dword in configuration space. -/
structure Location where
  bus : BitVec 8
  slot : BitVec 5
  function : BitVec 3
  dword : BitVec 6
  deriving DecidableEq

/-- Configuration space and the address register. -/
structure State where
  config : Location → BitVec 32
  address : BitVec 32

/-- The dword that the data port shows for a value of the address register, if that has its enable
bit set. -/
def decode (address : BitVec 32) : Option Location :=
  if address.getLsbD 31 then
    some ⟨address.extractLsb' 16 8, address.extractLsb' 11 5, address.extractLsb' 8 3,
      address.extractLsb' 2 6⟩
  else none

/-- `outl(port, value)`. -/
def outl (port : Nat) (value : BitVec 32) (s : State) : State :=
  if port = pciConfigAddress then { s with address := value }
  else if port = pciConfigData then
    match decode s.address with
    | some l => { s with config := Function.update s.config l value }
    | none => s
  else s

/-- `inl(port)`. A port that nothing answers at reads as ones. -/
def inl (port : Nat) (s : State) : BitVec 32 :=
  if port = pciConfigAddress then s.address
  else if port = pciConfigData then
    match decode s.address with
    | some l => s.config l
    | none => 0xFFFFFFFF
  else 0xFFFFFFFF

/-! ## Reading and writing -/

/-- The configuration address that the functions below construct. -/
def configAddress (bus slot function offset : BitVec 8) : BitVec 32 :=
  (bus.setWidth 32 <<< 16) ||| (slot.setWidth 32 <<< 11) ||| (function.setWidth 32 <<< 8)
    ||| (offset &&& 0xFC).setWidth 32 ||| 0x80000000

/-- `pci_write_config_word`. The variable for the current value has 16 bits. -/
def pciWriteConfigWord (bus slot function offset : BitVec 8) (value : BitVec 16) (s : State) :
    State :=
  let s := outl pciConfigAddress (configAddress bus slot function offset) s
  let currentValue : BitVec 16 := (inl pciConfigData s).setWidth 16
  let currentValue : BitVec 16 :=
    if offset &&& 0x2 ≠ 0 then
      ((currentValue.setWidth 32 &&& 0xFFFF) ||| (value.setWidth 32 <<< 16)).setWidth 16
    else ((currentValue.setWidth 32 &&& 0xFFFF0000) ||| value.setWidth 32).setWidth 16
  outl pciConfigData (currentValue.setWidth 32) s

/-- `pci_read_config_dword`. -/
def pciReadConfigDword (bus slot function offset : BitVec 8) (s : State) : BitVec 32 × State :=
  let s := outl pciConfigAddress (configAddress bus slot function offset) s
  (inl pciConfigData s, s)

/-- `pci_read_config_word`. -/
def pciReadConfigWord (bus slot function offset : BitVec 8) (s : State) : BitVec 16 × State :=
  let r := pciReadConfigDword bus slot function offset s
  (((r.1 >>> ((offset &&& 2).toNat * 8)) &&& 0xFFFF).setWidth 16, r.2)

/-- `pci_device_t`, as far as it says where the device is. `pci_scan_bus` and `pci_scan_function`
stay below 32 slots and 8 functions. -/
structure PciDevice where
  bus : BitVec 8
  slot : BitVec 8
  function : BitVec 8
  slot_lt : slot.toNat < 2 ^ 5
  function_lt : function.toNat < 2 ^ 3

/-- `pci_enable_device`. -/
def pciEnableDevice (dev : PciDevice) (s : State) : State :=
  let r := pciReadConfigWord dev.bus dev.slot dev.function 0x04 s
  pciWriteConfigWord dev.bus dev.slot dev.function 0x04 (r.1 ||| 0x7) r.2

/-! ## The map of words -/

/-- The place of a word: a dword and which half of it. -/
structure WordPlace where
  location : Location
  high : Bool
  deriving DecidableEq

/-- The other half of the same dword. -/
def WordPlace.other (w : WordPlace) : WordPlace := ⟨w.location, !w.high⟩

/-- Configuration space as a map from words to values. -/
def State.word (s : State) (w : WordPlace) : BitVec 16 :=
  (s.config w.location).extractLsb' (if w.high then 16 else 0) 16

namespace PciDevice

variable (d : PciDevice)

/-- The dword of the device that an offset is in. -/
def location (offset : BitVec 8) : Location :=
  ⟨d.bus, d.slot.setWidth 5, d.function.setWidth 3, offset.extractLsb' 2 6⟩

/-- The word of the device that an offset is in. -/
def word (offset : BitVec 8) : WordPlace := ⟨d.location offset, offset.getLsbD 1⟩

/-- `pci_write_config_word` on the device. -/
def write (offset : BitVec 8) (value : BitVec 16) (s : State) : State :=
  pciWriteConfigWord d.bus d.slot d.function offset value s

/-- `pci_read_config_word` on the device: the value. -/
def read (offset : BitVec 8) (s : State) : BitVec 16 :=
  (pciReadConfigWord d.bus d.slot d.function offset s).1

end PciDevice

/-- The value that has been written is read back, and no other word has changed. -/
def WritesExactly (d : PciDevice) (offset : BitVec 8) (value : BitVec 16) (s : State) : Prop :=
  d.read offset (d.write offset value s) = value ∧
    ∀ w, w ≠ d.word offset → (d.write offset value s).word w = s.word w

/-- No bit has changed but the low three of the command register. -/
def EnablesExactly (d : PciDevice) (s : State) : Prop :=
  ∀ w i, ¬ (w = d.word 0x04 ∧ i < 3) →
    ((pciEnableDevice d s).word w).getLsbD i = (s.word w).getLsbD i

/-! ## The address register -/

theorem getLsbD_eq_false_of_lt {w : Nat} {x : BitVec w} {n i : Nat} (h : x.toNat < 2 ^ n)
    (hi : n ≤ i) : x.getLsbD i = false := by
  rw [← BitVec.testBit_toNat]
  exact Nat.testBit_lt_two_pow (Nat.lt_of_lt_of_le h (Nat.pow_le_pow_right (by decide) hi))

/-- A bit of the address, from the parts that it is put together of. -/
theorem getLsbD_configAddress (bus slot function offset : BitVec 8) (i : Nat) :
    (configAddress bus slot function offset).getLsbD i
      = (((decide (i < 32) && !decide (i < 16)) && (decide (i - 16 < 32) && bus.getLsbD (i - 16))
        || (decide (i < 32) && !decide (i < 11)) && (decide (i - 11 < 32) && slot.getLsbD (i - 11))
        || (decide (i < 32) && !decide (i < 8)) && (decide (i - 8 < 32) && function.getLsbD (i - 8))
        || decide (i < 32) && (offset &&& 0xFC).getLsbD i)
        || (0x80000000 : BitVec 32).getLsbD i) := by
  unfold configAddress
  simp only [BitVec.getLsbD_or, BitVec.getLsbD_shiftLeft, BitVec.getLsbD_setWidth]

theorem decode_configAddress (d : PciDevice) (offset : BitVec 8) :
    decode (configAddress d.bus d.slot d.function offset) = some (d.location offset) := by
  have hbus : (configAddress d.bus d.slot d.function offset).extractLsb' 16 8 = d.bus := by
    apply BitVec.eq_of_getLsbD_eq
    intro i hi
    have hslot := getLsbD_eq_false_of_lt (i := 16 + i - 11) d.slot_lt (by omega)
    have hfunction := getLsbD_eq_false_of_lt (i := 16 + i - 8) d.function_lt (by omega)
    rw [BitVec.getLsbD_extractLsb', getLsbD_configAddress, hslot, hfunction]
    interval_cases i <;> simp
  have hslot : (configAddress d.bus d.slot d.function offset).extractLsb' 11 5
      = d.slot.setWidth 5 := by
    apply BitVec.eq_of_getLsbD_eq
    intro i hi
    have hfunction := getLsbD_eq_false_of_lt (i := 11 + i - 8) d.function_lt (by omega)
    rw [BitVec.getLsbD_extractLsb', getLsbD_configAddress, hfunction]
    interval_cases i <;> simp
  have hfunction : (configAddress d.bus d.slot d.function offset).extractLsb' 8 3
      = d.function.setWidth 3 := by
    apply BitVec.eq_of_getLsbD_eq
    intro i hi
    rw [BitVec.getLsbD_extractLsb', getLsbD_configAddress]
    interval_cases i <;> simp
  have hdword : (configAddress d.bus d.slot d.function offset).extractLsb' 2 6
      = offset.extractLsb' 2 6 := by
    apply BitVec.eq_of_getLsbD_eq
    intro i hi
    rw [BitVec.getLsbD_extractLsb', getLsbD_configAddress]
    interval_cases i <;> simp
  have hon : (configAddress d.bus d.slot d.function offset).getLsbD 31 = true := by
    rw [getLsbD_configAddress]
    simp
  unfold decode
  rw [if_pos hon, hbus, hslot, hfunction, hdword]
  rfl

/-! ## Halves of a dword -/

theorem and_two_ne_zero (offset : BitVec 8) : offset &&& 0x2 ≠ 0 ↔ offset.getLsbD 1 = true := by
  revert offset
  decide

theorem and_two_mul_eight (offset : BitVec 8) :
    (offset &&& 2).toNat * 8 = if offset.getLsbD 1 then 16 else 0 := by
  revert offset
  decide

@[simp] theorem lowHalf_setWidth (v : BitVec 16) : (v.setWidth 32).extractLsb' 0 16 = v := by
  apply BitVec.eq_of_getLsbD_eq
  intro i hi
  simp only [BitVec.getLsbD_extractLsb', BitVec.getLsbD_setWidth]
  simp [hi, show i < 32 by omega]

@[simp] theorem highHalf_setWidth (v : BitVec 16) : (v.setWidth 32).extractLsb' 16 16 = 0 := by
  apply BitVec.eq_of_getLsbD_eq
  intro i hi
  simp only [BitVec.getLsbD_extractLsb', BitVec.getLsbD_setWidth]
  simp

theorem keepsLow (x v : BitVec 16) :
    ((x.setWidth 32 &&& 0xFFFF) ||| (v.setWidth 32 <<< 16)).setWidth 16 = x := by
  apply BitVec.eq_of_getLsbD_eq
  intro i hi
  simp only [BitVec.getLsbD_setWidth, BitVec.getLsbD_or, BitVec.getLsbD_and,
    BitVec.getLsbD_shiftLeft]
  interval_cases i <;> simp

theorem takesLow (x v : BitVec 16) :
    ((x.setWidth 32 &&& 0xFFFF0000) ||| v.setWidth 32).setWidth 16 = v := by
  apply BitVec.eq_of_getLsbD_eq
  intro i hi
  simp only [BitVec.getLsbD_setWidth, BitVec.getLsbD_or, BitVec.getLsbD_and]
  interval_cases i <;> simp

theorem shifted_half (x : BitVec 32) (high : Bool) :
    ((x >>> (if high then 16 else 0) &&& 0xFFFF).setWidth 16)
      = x.extractLsb' (if high then 16 else 0) 16 := by
  apply BitVec.eq_of_getLsbD_eq
  intro i hi
  simp only [BitVec.getLsbD_setWidth, BitVec.getLsbD_and, BitVec.getLsbD_ushiftRight,
    BitVec.getLsbD_extractLsb']
  interval_cases i <;> simp

/-! ## What the functions do -/

namespace PciDevice

variable (d : PciDevice) (offset : BitVec 8) (v : BitVec 16) (s : State)

/-- The state once the address of a dword has been written. -/
theorem outl_address : outl pciConfigAddress (configAddress d.bus d.slot d.function offset) s
    = ⟨s.config, configAddress d.bus d.slot d.function offset⟩ := by
  unfold outl
  rw [if_pos rfl]

theorem inl_data : inl pciConfigData ⟨s.config, configAddress d.bus d.slot d.function offset⟩
    = s.config (d.location offset) := by
  unfold inl
  rw [if_neg (by decide), if_pos rfl, decode_configAddress]

theorem outl_data (x : BitVec 32) :
    outl pciConfigData x ⟨s.config, configAddress d.bus d.slot d.function offset⟩
      = ⟨Function.update s.config (d.location offset) x,
          configAddress d.bus d.slot d.function offset⟩ := by
  unfold outl
  rw [if_neg (by decide), if_pos rfl, decode_configAddress]

/-- A read returns the word and leaves configuration space as it is. -/
theorem pciReadConfigWord_eq : pciReadConfigWord d.bus d.slot d.function offset s
    = (s.word (d.word offset), ⟨s.config, configAddress d.bus d.slot d.function offset⟩) := by
  unfold pciReadConfigWord pciReadConfigDword
  dsimp only
  rw [outl_address, inl_data, and_two_mul_eight, shifted_half]
  rfl

theorem read_eq : d.read offset s = s.word (d.word offset) := by
  unfold read
  rw [pciReadConfigWord_eq]

/-- What a write leaves in the dword: the low half, new or old, and zeros. -/
theorem write_config : (d.write offset v s).config
    = Function.update s.config (d.location offset)
        ((if offset.getLsbD 1 then s.word ⟨d.location offset, false⟩ else v).setWidth 32) := by
  have hlow : (s.config (d.location offset)).setWidth 16 = s.word ⟨d.location offset, false⟩ := by
    apply BitVec.eq_of_getLsbD_eq
    intro i hi
    simp [State.word, hi]
  unfold write pciWriteConfigWord
  dsimp only
  rw [outl_address, inl_data, outl_data, hlow, keepsLow, takesLow]
  simp only [and_two_ne_zero]

/-- The words after a write. -/
theorem word_write (w : WordPlace) : (d.write offset v s).word w
    = if w.location = d.location offset then
        (if w.high then 0 else if offset.getLsbD 1 then s.word ⟨d.location offset, false⟩ else v)
      else s.word w := by
  unfold State.word
  rw [write_config]
  by_cases hl : w.location = d.location offset
  · rw [hl, Function.update_self, if_pos rfl]
    cases w.high with
    | false => exact lowHalf_setWidth _
    | true => exact highHalf_setWidth _
  · rw [Function.update_of_ne hl, if_neg hl]

end PciDevice

/-! ## Exactness -/

/-- The write does no harm: the half above a low half is zero, or zero is written to a high half. -/
def Harmless (d : PciDevice) (offset : BitVec 8) (v : BitVec 16) (s : State) : Prop :=
  if offset.getLsbD 1 then v = 0 else s.word (d.word offset).other = 0

instance (d : PciDevice) (offset : BitVec 8) (v : BitVec 16) (s : State) :
    Decidable (Harmless d offset v s) := inferInstanceAs (Decidable (ite _ _ _))

theorem writesExactly_iff (d : PciDevice) (offset : BitVec 8) (v : BitVec 16) (s : State) :
    WritesExactly d offset v s ↔ Harmless d offset v s := by
  unfold WritesExactly Harmless
  rw [d.read_eq]
  simp only [d.word_write]
  cases hhigh : offset.getLsbD 1 with
  | true =>
      have hword : d.word offset = ⟨d.location offset, true⟩ := by
        rw [PciDevice.word, hhigh]
      simp only [hword, if_true]
      constructor
      · exact fun h => h.1.symm
      · refine fun h => ⟨h.symm, ?_⟩
        rintro ⟨l, high⟩ hne
        by_cases hl : l = d.location offset
        · cases high with
          | true => exact absurd (by rw [hl]) hne
          | false => simp [hl]
        · simp [hl]
  | false =>
      have hword : d.word offset = ⟨d.location offset, false⟩ := by
        rw [PciDevice.word, hhigh]
      simp only [hword, if_true, Bool.false_eq_true, if_false, WordPlace.other, Bool.not_false]
      constructor
      · intro h
        have hhalf := h.2 ⟨d.location offset, true⟩ (by simp)
        simpa using hhalf.symm
      · refine fun h => ⟨by simp, ?_⟩
        rintro ⟨l, high⟩ hne
        by_cases hl : l = d.location offset
        · cases high with
          | true => simp [hl, h]
          | false => exact absurd (by rw [hl]) hne
        · simp [hl]

/-- The status register is the other half of the dword of the command register. -/
theorem word_status (d : PciDevice) : d.word 0x06 = (d.word 0x04).other := rfl

theorem word_pciEnableDevice (d : PciDevice) (s : State) (w : WordPlace) :
    (pciEnableDevice d s).word w
      = if w = d.word 0x06 then 0
        else if w = d.word 0x04 then s.word (d.word 0x04) ||| 0x7 else s.word w := by
  have hcommand : d.word 0x04 = ⟨d.location 0x04, false⟩ := rfl
  have hwrite : pciEnableDevice d s
      = d.write 0x04 (s.word (d.word 0x04) ||| 0x7)
          ⟨s.config, configAddress d.bus d.slot d.function 0x04⟩ := by
    unfold pciEnableDevice
    rw [d.pciReadConfigWord_eq]
    rfl
  rw [hwrite, d.word_write, word_status, hcommand]
  obtain ⟨l, high⟩ := w
  by_cases hl : l = d.location 0x04
  · cases high with
    | true => simp [hl, WordPlace.other]
    | false => simp [hl, WordPlace.other]
  · simp only [hl, if_false, WordPlace.other, WordPlace.mk.injEq, false_and]
    rfl

theorem getLsbD_seven {i : Nat} (hi : 3 ≤ i) : (0x7 : BitVec 16).getLsbD i = false :=
  getLsbD_eq_false_of_lt (n := 3) (by decide) hi

theorem enablesExactly_iff (d : PciDevice) (s : State) :
    EnablesExactly d s ↔ s.word (d.word 0x06) = 0 := by
  have hne : d.word 0x06 ≠ d.word 0x04 := by
    rw [word_status]
    simp [WordPlace.other, PciDevice.word]
  constructor
  · intro h
    apply BitVec.eq_of_getLsbD_eq
    intro i hi
    rw [← h (d.word 0x06) i fun hw => hne hw.1, word_pciEnableDevice, if_pos rfl]
  · intro h0 w i hw
    rw [word_pciEnableDevice]
    by_cases hstatus : w = d.word 0x06
    · rw [if_pos hstatus, hstatus, h0]
    · rw [if_neg hstatus]
      by_cases hcommand : w = d.word 0x04
      · have hi : 3 ≤ i := by
          by_contra hlt
          exact hw ⟨hcommand, by omega⟩
        rw [if_pos hcommand, hcommand, BitVec.getLsbD_or, getLsbD_seven hi, Bool.or_false]
      · rw [if_neg hcommand]

/-- **Word writes to configuration space.** A write is exact when it has nothing to lose: a write to
a low half when the high half is zero, a write to a high half when it writes zero. And
`pci_enable_device` changes nothing but the three bits when the status register is zero. -/
theorem configWord_exact_iff (d : PciDevice) (s : State) :
    (∀ offset v, WritesExactly d offset v s ↔ Harmless d offset v s) ∧
      (EnablesExactly d s ↔ s.word (d.word 0x06) = 0) :=
  ⟨fun offset v => writesExactly_iff d offset v s, enablesExactly_iff d s⟩

/-- A device with a list of capabilities: the status register says so. -/
def capableDevice : PciDevice := ⟨0, 3, 0, by decide, by decide⟩

/-- Configuration space with this bit set everywhere. -/
def capableState : State := ⟨fun _ => 0x00100000, 0⟩

/-- Writing the command register of the device, and so enabling it, clears its status register. -/
theorem not_configWord_exact :
    ¬ (∀ offset v, offset.getLsbD 0 = false → WritesExactly capableDevice offset v capableState) ∧
      ¬ EnablesExactly capableDevice capableState := by
  constructor
  · intro h
    have hlow := (writesExactly_iff capableDevice 0x04 0x7 capableState).mp (h 0x04 0x7 rfl)
    revert hlow
    decide
  · rw [enablesExactly_iff]
    decide

end MicroKernel.Pci
