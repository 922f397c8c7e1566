import Mathlib.Tactic

set_option autoImplicit false

/-! # An IDE channel

Two drives share the registers of a channel; bit 4 of the device register selects one of them. A
command makes the channel busy for a number of polls that nobody knows in advance. Behind the busy time,
a read sends the 256 words of a sector through the data register, and a write takes 256 words from it;
the last one puts them on the disk and makes the channel busy once more.

Only transfers of one sector are described. A selected place without a drive has the status zero.
-/

namespace MicroKernel.Lib.Ide

/-- The words of a sector. -/
abbrev Words := Fin 256 → UInt16

/-- What the data register is for. -/
inductive Phase where
  | idle
  /-- A sector is read, and these words of it are left. -/
  | sending (left : List UInt16)
  /-- A sector of a drive is written, and these words of it are there. -/
  | receiving (master : Bool) (lba : Nat) (got : List UInt16)
  deriving DecidableEq

/-- A channel with its drives; `true` is the master. The next times for which the channel will be busy
are in `pauses`. -/
structure Channel where
  sectorCount : Nat
  lbaLow : Nat
  lbaMid : Nat
  lbaHigh : Nat
  device : Nat
  phase : Phase
  busy : Nat
  pauses : Nat → Nat
  present : Bool → Bool
  disks : Bool → Nat → Words

namespace Channel

/-! ## Registers -/

/-- The drive that is selected. -/
def selected (c : Channel) : Bool := !c.device.testBit 4

theorem selected_zero {c : Channel} (h : c.device = 0) : c.selected = true := by
  unfold selected
  rw [h, Nat.zero_testBit]
  rfl

/-- The number of the sector in the registers, of 28 bits. -/
def lba (c : Channel) : Nat :=
  c.lbaLow + 2 ^ 8 * c.lbaMid + 2 ^ 16 * c.lbaHigh + 2 ^ 24 * (c.device &&& 0x0F)

/-- The channel becomes busy. -/
def pause (c : Channel) : Channel :=
  { c with busy := c.pauses 0, pauses := fun n => c.pauses (n + 1) }

/-- The status register: busy, or ready with or without a request for data. -/
def status (c : Channel) : UInt8 :=
  if c.present c.selected = false then 0
  else if 0 < c.busy then 0x80
  else
    match c.phase with
    | .idle => 0x40
    | .sending _ => 0x48
    | .receiving _ _ _ => 0x48

/-- Time passes from one poll of the status to the next. -/
def poll (c : Channel) : Channel := { c with busy := c.busy - 1 }

/-- A write to the command register. -/
def command (c : Channel) (value : Nat) : Channel :=
  if c.present c.selected = true ∧ c.busy = 0 then
    if value = 0x20 ∧ c.sectorCount = 1 then
      pause { c with phase := .sending (List.ofFn (c.disks c.selected c.lba)) }
    else if value = 0x30 ∧ c.sectorCount = 1 then
      pause { c with phase := .receiving c.selected c.lba [] }
    else if value = 0xE7 then c.pause
    else c
  else c

theorem command_read {c : Channel} (hp : c.present c.selected = true) (hb : c.busy = 0)
    (hs : c.sectorCount = 1) : c.command 0x20
      = pause { c with phase := .sending (List.ofFn (c.disks c.selected c.lba)) } := by
  unfold command
  rw [if_pos ⟨hp, hb⟩, if_pos ⟨rfl, hs⟩]

theorem command_write {c : Channel} (hp : c.present c.selected = true) (hb : c.busy = 0)
    (hs : c.sectorCount = 1) : c.command 0x30
      = pause { c with phase := .receiving c.selected c.lba [] } := by
  unfold command
  rw [if_pos ⟨hp, hb⟩, if_neg (by simp), if_pos ⟨rfl, hs⟩]

theorem command_flush {c : Channel} (hp : c.present c.selected = true) (hb : c.busy = 0) :
    c.command 0xE7 = c.pause := by
  unfold command
  rw [if_pos ⟨hp, hb⟩, if_neg (by simp), if_neg (by simp), if_pos rfl]

/-- A write to the control register: bit 2 resets the channel, and selects the master. -/
def control (c : Channel) (value : Nat) : Channel :=
  if value.testBit 2 then
    pause { c with
      sectorCount := 1
      lbaLow := 1
      lbaMid := 0
      lbaHigh := 0
      device := 0
      phase := .idle }
  else c

theorem control_reset (c : Channel) : c.control 0x04 = pause { c with
    sectorCount := 1
    lbaLow := 1
    lbaMid := 0
    lbaHigh := 0
    device := 0
    phase := .idle } := if_pos (by decide)

theorem control_zero (c : Channel) : c.control 0x00 = c := if_neg (by decide)

/-- A read of the data register. -/
def readData (c : Channel) : UInt16 × Channel :=
  match c.phase with
  | .sending (w :: left) =>
      if c.busy = 0 then (w, { c with phase := if left = [] then .idle else .sending left }) else (0, c)
  | _ => (0, c)

/-- The disk of a drive, with another sector. -/
def setSector (disks : Bool → Nat → Words) (master : Bool) (lba : Nat) (words : Words) :
    Bool → Nat → Words :=
  Function.update disks master (Function.update (disks master) lba words)

/-- A write to the data register. -/
def writeData (c : Channel) (w : UInt16) : Channel :=
  match c.phase with
  | .receiving master lba got =>
      if c.busy = 0 then
        if got.length + 1 = 256 then
          pause { c with
            phase := .idle
            disks := setSector c.disks master lba fun i => (got ++ [w]).getD i.val 0 }
        else { c with phase := .receiving master lba (got ++ [w]) }
      else c
  | _ => c

/-! ## Blocks of words -/

/-- `n` reads of the data register. -/
def readBlock : Nat → Channel → List UInt16 × Channel
  | 0, c => ([], c)
  | n + 1, c =>
      let (w, c) := c.readData
      let (l, c) := readBlock n c
      (w :: l, c)

/-- Writes of the data register. -/
def writeBlock (c : Channel) (l : List UInt16) : Channel := l.foldl writeData c

variable {c : Channel}

/-- Reading what is left gives it, and ends the transfer. -/
theorem readBlock_sending {l : List UInt16} (hne : l ≠ []) (hphase : c.phase = .sending l)
    (hbusy : c.busy = 0) : readBlock l.length c = (l, { c with phase := .idle }) := by
  induction l generalizing c with
  | nil => exact absurd rfl hne
  | cons w left ih =>
      have hread : c.readData = (w, { c with phase := if left = [] then .idle else .sending left }) := by
        unfold readData
        rw [hphase]
        exact if_pos hbusy
      rw [List.length_cons, readBlock]
      by_cases hl : left = []
      · rw [if_pos hl] at hread
        simp only [hread, hl]
        rfl
      · rw [if_neg hl] at hread
        have hrest := ih (c := { c with phase := .sending left }) hl rfl hbusy
        simp only [hread, hrest]

/-- Writes behind the words `got`, up to the last but one. -/
theorem writeBlock_receiving {master : Bool} {lba : Nat} {got l : List UInt16}
    (hphase : c.phase = .receiving master lba got) (hbusy : c.busy = 0)
    (hlen : got.length + l.length < 256) :
    c.writeBlock l = { c with phase := .receiving master lba (got ++ l) } := by
  induction l generalizing c got with
  | nil =>
      rw [List.append_nil, ← hphase]
      rfl
  | cons w left ih =>
      rw [List.length_cons] at hlen
      have hwrite : c.writeData w = { c with phase := .receiving master lba (got ++ [w]) } := by
        unfold writeData
        rw [hphase]
        simp only
        rw [if_pos hbusy, if_neg (by omega)]
      have hroom : (got ++ [w]).length + left.length < 256 := by
        rw [List.length_append, List.length_singleton]
        omega
      have hrest := ih (c := { c with phase := .receiving master lba (got ++ [w]) }) rfl hbusy hroom
      rw [List.append_assoc] at hrest
      change (c.writeData w).writeBlock left = _
      rw [hwrite]
      exact hrest

/-- The 256 words of a sector are on the disk behind the last write. -/
theorem writeBlock_sector {master : Bool} {lba : Nat} {l : List UInt16}
    (hphase : c.phase = .receiving master lba []) (hbusy : c.busy = 0) (hlen : l.length = 256) :
    c.writeBlock l = pause { c with
      phase := .idle
      disks := setSector c.disks master lba fun i => l.getD i.val 0 } := by
  obtain ⟨first, w, rfl⟩ : ∃ first w, l = first ++ [w] :=
    ⟨_, _, (List.dropLast_append_getLast (List.ne_nil_of_length_pos (by omega))).symm⟩
  rw [List.length_append, List.length_singleton] at hlen
  have hfirst := writeBlock_receiving (l := first) hphase hbusy (by rw [List.length_nil]; omega)
  rw [List.nil_append] at hfirst
  have hsplit : c.writeBlock (first ++ [w]) = (c.writeBlock first).writeData w := List.foldl_append
  rw [hsplit, hfirst]
  unfold writeData
  simp only
  rw [if_pos hbusy, if_pos hlen]

end Channel

end MicroKernel.Lib.Ide
