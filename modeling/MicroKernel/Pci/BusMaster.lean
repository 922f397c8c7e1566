import MicroKernel.Pci.ConfigSpace

set_option autoImplicit false

/-! # Bus mastering (`drivers/bus/pci.c`)

`pci_set_bus_master` means to read the command register of the device, to change its bus-master bit,
and to write it back. But `pci_read` takes a function before the offset, which `pci_write` does not
have: called with the arguments of `pci_write` it reads the vendor ID of function 4. That word is
what the decision is made on, and what is written to the command register of function 0.
`setsBusMaster_iff` says when this does no harm.
-/

namespace MicroKernel.Pci

/-- `PCI_COMMAND`. -/
def pciCommand : BitVec 8 := 0x04

/-- `PCI_COMMAND_BUS_MASTER`. -/
def pciCommandBusMaster : BitVec 16 := 0x04

/-! ## Ports for parts of a dword -/

/-- The dword with the bits from `pos` on replaced. -/
def replaceBits {n : Nat} (x : BitVec 32) (pos : Nat) (v : BitVec n) : BitVec 32 :=
  (x &&& ~~~((BitVec.allOnes n).setWidth 32 <<< pos)) ||| (v.setWidth 32 <<< pos)

/-- A write to byte `i` of the data port and behind. -/
def outPart {n : Nat} (i : Nat) (value : BitVec n) (s : State) : State :=
  match decode s.address with
  | some l =>
      { s with config := Function.update s.config l (replaceBits (s.config l) (i * 8) value) }
  | none => s

/-- `outb(port, value)`. -/
def outb (port : Nat) (value : BitVec 8) (s : State) : State :=
  if pciConfigData ≤ port ∧ port < pciConfigData + 4 then outPart (port - pciConfigData) value s
  else s

/-- `outw(port, value)`, at one of the two halves of the data port. -/
def outw (port : Nat) (value : BitVec 16) (s : State) : State :=
  if port = pciConfigData ∨ port = pciConfigData + 2 then outPart (port - pciConfigData) value s
  else s

/-! ## The functions -/

/-- `pci_read`. -/
def pciRead (bus device function offset : BitVec 8) (s : State) : BitVec 32 × State :=
  let address := (0x80000000 : BitVec 32) ||| (bus.setWidth 32 <<< 16) ||| (device.setWidth 32 <<< 11)
    ||| (function.setWidth 32 <<< 8) ||| (offset &&& 0xFC).setWidth 32
  let s := outl pciConfigAddress address s
  (inl pciConfigData s, s)

/-- `pci_write`. It has no function; another size than 1, 2 or 4 prints a message. -/
def pciWrite (bus slot offset size : BitVec 8) (value : BitVec 32) (s : State) : State :=
  let address := (0x80000000 : BitVec 32) ||| (bus.setWidth 32 <<< 16) ||| (slot.setWidth 32 <<< 11)
    ||| (offset &&& 0xFC).setWidth 32
  let s := outl pciConfigAddress address s
  if size = 1 then outb (pciConfigData + (offset &&& 3).toNat) (value.setWidth 8) s
  else if size = 2 then outw (pciConfigData + (offset &&& 2).toNat) (value.setWidth 16) s
  else if size = 4 then outl pciConfigData value s
  else s

/-- `pci_set_bus_master`. -/
def pciSetBusMaster (bus slot enable : BitVec 8) (s : State) : State :=
  -- the third argument of `pci_read` is the function
  let r := pciRead bus slot pciCommand 2 s
  let command : BitVec 16 := r.1.setWidth 16
  if enable ≠ 0 then
    if command &&& pciCommandBusMaster = 0 then
      pciWrite bus slot pciCommand 2 ((command ||| pciCommandBusMaster).setWidth 32) r.2
    else r.2
  else
    if command &&& pciCommandBusMaster ≠ 0 then
      pciWrite bus slot pciCommand 2 ((command &&& ~~~pciCommandBusMaster).setWidth 32) r.2
    else r.2

/-! ## The command register -/

/-- A function of the device in a slot. -/
def deviceAt (bus : BitVec 8) (slot : BitVec 5) (function : BitVec 3) : PciDevice where
  bus := bus
  slot := slot.setWidth 8
  function := function.setWidth 8
  slot_lt := by
    rw [BitVec.toNat_setWidth_of_le (by decide)]
    exact slot.isLt
  function_lt := by
    rw [BitVec.toNat_setWidth_of_le (by decide)]
    exact function.isLt

/-- The command register of function 0. -/
def commandWord (bus : BitVec 8) (slot : BitVec 5) : WordPlace := (deviceAt bus slot 0).word 0x04

/-- The vendor ID of function 4. -/
def vendorWord (bus : BitVec 8) (slot : BitVec 5) : WordPlace := (deviceAt bus slot 4).word 0x00

/-- The bus-master bit is what `enable` says, and no other bit has changed. -/
def SetsBusMaster (bus : BitVec 8) (slot : BitVec 5) (enable : BitVec 8) (s : State) : Prop :=
  ((pciSetBusMaster bus (slot.setWidth 8) enable s).word (commandWord bus slot)).getLsbD 2
      = decide (enable ≠ 0) ∧
    ∀ w i, ¬ (w = commandWord bus slot ∧ i = 2) →
      ((pciSetBusMaster bus (slot.setWidth 8) enable s).word w).getLsbD i = (s.word w).getLsbD i

/-- What the two words have to be like. If bit 2 of the vendor ID is what it should become, nothing
is written: the bus-master bit must be right already. If it is not, the vendor ID with that bit turned
is written: the other bits must be those of the command register. -/
def VendorSuits (bus : BitVec 8) (slot : BitVec 5) (enable : BitVec 8) (s : State) : Prop :=
  if (s.word (vendorWord bus slot)).getLsbD 2 = decide (enable ≠ 0) then
    (s.word (commandWord bus slot)).getLsbD 2 = decide (enable ≠ 0)
  else ∀ i, i ≠ 2 →
    (s.word (vendorWord bus slot)).getLsbD i = (s.word (commandWord bus slot)).getLsbD i

section busMaster

variable {bus : BitVec 8} {slot : BitVec 5} {enable : BitVec 8} {s : State}

theorem readAddress_eq (bus device function offset : BitVec 8) :
    (0x80000000 : BitVec 32) ||| (bus.setWidth 32 <<< 16) ||| (device.setWidth 32 <<< 11)
      ||| (function.setWidth 32 <<< 8) ||| (offset &&& 0xFC).setWidth 32
      = configAddress bus device function offset := by
  unfold configAddress
  generalize bus.setWidth 32 <<< 16 = b, device.setWidth 32 <<< 11 = d,
    function.setWidth 32 <<< 8 = f, (offset &&& 0xFC).setWidth 32 = o, (0x80000000 : BitVec 32) = e
  ac_rfl

theorem writeAddress_eq (bus slot offset : BitVec 8) :
    (0x80000000 : BitVec 32) ||| (bus.setWidth 32 <<< 16) ||| (slot.setWidth 32 <<< 11)
      ||| (offset &&& 0xFC).setWidth 32 = configAddress bus slot 0 offset := by
  rw [← readAddress_eq, show (0 : BitVec 8).setWidth 32 <<< 8 = 0#32 from rfl, BitVec.or_zero]

/-- The word that `pci_set_bus_master` reads. -/
theorem pciRead_eq : pciRead bus (slot.setWidth 8) pciCommand 2 s
    = (s.config (vendorWord bus slot).location,
      ⟨s.config, configAddress bus (slot.setWidth 8) 4 2⟩) := by
  unfold pciRead
  rw [readAddress_eq]
  exact congrArg₂ Prod.mk ((deviceAt bus slot 4).inl_data 2 s) rfl

theorem setWidth_config (s : State) (l : Location) :
    (s.config l).setWidth 16 = s.word ⟨l, false⟩ := by
  apply BitVec.eq_of_getLsbD_eq
  intro i hi
  simp [State.word, hi]

/-- The low half replaced. -/
theorem replaceBits_half (x : BitVec 32) (v : BitVec 16) (high : Bool) :
    (replaceBits x 0 v).extractLsb' (if high then 16 else 0) 16
      = if high then x.extractLsb' 16 16 else v := by
  cases high with
  | true =>
      apply BitVec.eq_of_getLsbD_eq
      intro i hi
      unfold replaceBits
      simp only [BitVec.getLsbD_extractLsb', BitVec.getLsbD_or, BitVec.getLsbD_and,
        BitVec.getLsbD_not, BitVec.getLsbD_shiftLeft, BitVec.getLsbD_setWidth,
        BitVec.getLsbD_allOnes, if_true]
      simp [hi, show 16 + i < 32 by omega]
  | false =>
      apply BitVec.eq_of_getLsbD_eq
      intro i hi
      unfold replaceBits
      simp only [BitVec.getLsbD_extractLsb', BitVec.getLsbD_or, BitVec.getLsbD_and,
        BitVec.getLsbD_not, BitVec.getLsbD_shiftLeft, BitVec.getLsbD_setWidth,
        BitVec.getLsbD_allOnes]
      simp [hi, show i < 32 by omega]

/-- What `pci_write` of two bytes at `PCI_COMMAND` changes. -/
theorem word_pciWrite (v : BitVec 16) (w : WordPlace) :
    (pciWrite bus (slot.setWidth 8) pciCommand 2 (v.setWidth 32) s).word w
      = if w = commandWord bus slot then v else s.word w := by
  have hport : pciConfigData + (pciCommand &&& 2).toNat = pciConfigData := rfl
  have hdecode : decode (configAddress bus (slot.setWidth 8) 0 pciCommand)
      = some (commandWord bus slot).location := decode_configAddress (deviceAt bus slot 0) 0x04
  have hvalue : (v.setWidth 32).setWidth 16 = v := by simp
  have hconfig : (pciWrite bus (slot.setWidth 8) pciCommand 2 (v.setWidth 32) s).config
      = Function.update s.config (commandWord bus slot).location
          (replaceBits (s.config (commandWord bus slot).location) 0 v) := by
    unfold pciWrite
    rw [writeAddress_eq]
    dsimp only
    rw [if_neg (by decide), if_pos rfl, hvalue, hport, outw, if_pos (Or.inl rfl), outPart]
    simp only [outl, if_true, hdecode]
    rfl
  unfold State.word
  rw [hconfig]
  by_cases hl : w.location = (commandWord bus slot).location
  · rw [hl, Function.update_self, replaceBits_half]
    have hiff : w = commandWord bus slot ↔ w.high = false := by
      constructor
      · rintro rfl
        rfl
      · intro hlow
        obtain ⟨location, high⟩ := w
        obtain rfl : location = _ := hl
        obtain rfl : high = _ := hlow
        rfl
    cases hhigh : w.high with
    | true => simp [hiff, hhigh]
    | false => simp [hiff, hhigh]
  · rw [Function.update_of_ne hl, if_neg (show w ≠ commandWord bus slot from fun h => hl (by rw [h]))]

theorem getLsbD_busMaster (i : Nat) : pciCommandBusMaster.getLsbD i = decide (i = 2) := by
  unfold pciCommandBusMaster
  by_cases hi : i < 16
  · revert i
    decide
  · rw [BitVec.getLsbD_of_ge _ _ (by omega), eq_comm, decide_eq_false_iff_not]
    omega

theorem and_busMaster_eq_zero (v : BitVec 16) :
    v &&& pciCommandBusMaster = 0 ↔ v.getLsbD 2 = false := by
  constructor
  · intro h
    have hbit : (v &&& pciCommandBusMaster).getLsbD 2 = (0 : BitVec 16).getLsbD 2 := by rw [h]
    rw [BitVec.getLsbD_and, getLsbD_busMaster] at hbit
    simpa using hbit
  · intro h
    apply BitVec.eq_of_getLsbD_eq
    intro i _
    rw [BitVec.getLsbD_and, getLsbD_busMaster]
    by_cases hi : i = 2
    · rw [hi, h]
      rfl
    · simp [hi]

/-- Setting a clear bit turns it. -/
theorem or_busMaster {v : BitVec 16} (h : v.getLsbD 2 = false) :
    v ||| pciCommandBusMaster = v ^^^ pciCommandBusMaster := by
  apply BitVec.eq_of_getLsbD_eq
  intro i _
  rw [BitVec.getLsbD_or, BitVec.getLsbD_xor, getLsbD_busMaster]
  by_cases hi : i = 2
  · rw [hi, h]
    rfl
  · simp [hi]

/-- Clearing a set bit turns it. -/
theorem and_not_busMaster {v : BitVec 16} (h : v.getLsbD 2 = true) :
    v &&& ~~~pciCommandBusMaster = v ^^^ pciCommandBusMaster := by
  apply BitVec.eq_of_getLsbD_eq
  intro i hlt
  rw [BitVec.getLsbD_and, BitVec.getLsbD_xor, BitVec.getLsbD_not, getLsbD_busMaster]
  by_cases hi : i = 2
  · rw [hi, h]
    rfl
  · simp [hi, hlt]

/-- **What `pci_set_bus_master` does** to the words. -/
theorem word_pciSetBusMaster (w : WordPlace) :
    (pciSetBusMaster bus (slot.setWidth 8) enable s).word w
      = if (s.word (vendorWord bus slot)).getLsbD 2 = decide (enable ≠ 0) then s.word w
        else if w = commandWord bus slot then s.word (vendorWord bus slot) ^^^ pciCommandBusMaster
        else s.word w := by
  have hread : (s.config (vendorWord bus slot).location).setWidth 16 = s.word (vendorWord bus slot) :=
    setWidth_config s _
  unfold pciSetBusMaster
  rw [pciRead_eq]
  dsimp only
  rw [hread]
  have hclear := and_busMaster_eq_zero (s.word (vendorWord bus slot))
  by_cases henable : enable = 0
  · rw [if_neg (not_not.mpr henable), decide_eq_false (not_not.mpr henable)]
    cases hbit : (s.word (vendorWord bus slot)).getLsbD 2 with
    | true =>
        rw [if_pos (by rw [Ne, hclear, hbit]; decide), word_pciWrite, and_not_busMaster hbit]
        rfl
    | false =>
        rw [if_neg (not_not.mpr (hclear.mpr hbit))]
        rfl
  · rw [if_pos henable, decide_eq_true henable]
    cases hbit : (s.word (vendorWord bus slot)).getLsbD 2 with
    | true =>
        rw [if_neg (by rw [hclear, hbit]; decide)]
        rfl
    | false =>
        rw [if_pos (hclear.mpr hbit), word_pciWrite, or_busMaster hbit]
        rfl

end busMaster

/-- **Bus mastering.** For every bus and slot, every contents and every value of `enable`: the
bus-master bit of the command register of function 0 becomes what it should and no other bit changes
exactly when the vendor ID of function 4 suits. -/
theorem setsBusMaster_iff (bus : BitVec 8) (slot : BitVec 5) (enable : BitVec 8) (s : State) :
    SetsBusMaster bus slot enable s ↔ VendorSuits bus slot enable s := by
  unfold SetsBusMaster VendorSuits
  simp only [word_pciSetBusMaster]
  by_cases hbit : (s.word (vendorWord bus slot)).getLsbD 2 = decide (enable ≠ 0)
  · simp only [if_pos hbit]
    exact and_iff_left fun _ _ _ => trivial
  · simp only [if_neg hbit, if_true, BitVec.getLsbD_xor, getLsbD_busMaster]
    have hturned : ((s.word (vendorWord bus slot)).getLsbD 2 ^^ true) = decide (enable ≠ 0) := by
      rw [Bool.xor_true, Bool.eq_not_of_ne hbit, Bool.not_not]
    constructor
    · rintro ⟨-, hframe⟩ i hi
      have hbit := hframe (commandWord bus slot) i fun h => hi h.2
      rw [if_pos rfl, BitVec.getLsbD_xor, getLsbD_busMaster] at hbit
      simpa [hi] using hbit
    · intro h
      refine ⟨by simpa using hturned, fun w i hw => ?_⟩
      by_cases hcommand : w = commandWord bus slot
      · have hi : i ≠ 2 := fun hi => hw ⟨hcommand, hi⟩
        rw [if_pos hcommand, BitVec.getLsbD_xor, getLsbD_busMaster, hcommand, h i hi]
        simp [hi]
      · rw [if_neg hcommand]

/-- A device with one function: a read of any other one is answered with ones. -/
def singleFunction : State :=
  ⟨fun l => if l.function = 0 then 0x00000003 else 0xFFFFFFFF, 0⟩

/-- Its bus-master bit stays clear. -/
theorem not_setsBusMaster : ¬ ∀ bus slot enable s, SetsBusMaster bus slot enable s := by
  intro h
  have hbit := (h 0 3 1 singleFunction).1
  rw [word_pciSetBusMaster, if_pos (by decide)] at hbit
  exact absurd hbit (by decide)

end MicroKernel.Pci
