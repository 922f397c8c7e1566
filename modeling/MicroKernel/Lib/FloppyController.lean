import MicroKernel.Lib.Dma

set_option autoImplicit false

/-! # A floppy controller

Up to four drives hang on the controller. It takes the bytes of a command one by one, executes the
command, raises its interrupt and gives the bytes of a result one by one. Between two bytes it is busy
for a time that nobody knows in advance, and so it is behind a command (`tick` is what happens in one
unit of time).

Controllers differ in two respects (`Chip`): whether a read moves the heads to its cylinder by itself,
and whether a disk is read only while the motor of its drive is on. Only transfers of one sector are
described.
-/

namespace MicroKernel.Lib.Floppy

/-- The sectors of a disk, by cylinder, head and number. -/
abbrev Disk := Nat → Nat → Nat → Fin 512 → UInt8

/-- What differs from one controller to another. -/
structure Chip where
  impliedSeek : Bool
  heedsMotor : Bool

/-- The name of a sector, as it stands before the sector on the disk. -/
structure SectorId where
  cylinder : Nat
  head : Nat
  number : Nat
  size : Nat
  deriving DecidableEq

/-- The sectors of a disk of 1.44 MB are named by 80 cylinders, 2 heads and 18 numbers. -/
structure SectorId.Valid (id : SectorId) : Prop where
  cylinder : id.cylinder < 80
  head : id.head < 2
  number : 1 ≤ id.number
  number_le : id.number ≤ 18
  size : id.size = 2

instance (id : SectorId) : Decidable id.Valid :=
  decidable_of_iff (id.cylinder < 80 ∧ id.head < 2 ∧ 1 ≤ id.number ∧ id.number ≤ 18 ∧ id.size = 2)
    ⟨fun ⟨h₁, h₂, h₃, h₄, h₅⟩ => ⟨h₁, h₂, h₃, h₄, h₅⟩, fun ⟨h₁, h₂, h₃, h₄, h₅⟩ => ⟨h₁, h₂, h₃, h₄, h₅⟩⟩

/-- What takes time. -/
inductive Job where
  | reset
  | recalibrate (drive : Nat)
  | read (drive side : Nat) (id : SectorId)
  deriving DecidableEq

/-- What the controller is doing. -/
inductive Phase where
  /-- The reset bit is held at zero. -/
  | held
  | idle
  | command (got : List UInt8)
  | executing (job : Job)
  | result (left : List UInt8)
  deriving DecidableEq

/-- The controller with its drives, the channel that moves its bytes, and the memory. The next times for
which it will be busy between two bytes are in `pauses`, and those for commands in `works`. What the
command SENSE INTERRUPT will report is in `pending`. -/
structure Controller where
  chip : Chip
  dor : Nat
  phase : Phase
  busy : Nat
  pauses : Nat → Nat
  works : Nat → Nat
  pending : List UInt8
  cylinders : Nat → Nat
  attached : Nat → Bool
  disks : Nat → Option Disk
  dma : Dma
  memory : Bytes

namespace Controller

/-! ## Registers -/

/-- The controller is busy for a while, between two bytes. -/
def pause (c : Controller) : Controller :=
  { c with busy := c.pauses 0, pauses := fun n => c.pauses (n + 1) }

/-- The controller is busy for a while, with a command. -/
def work (c : Controller) : Controller :=
  { c with busy := c.works 0, works := fun n => c.works (n + 1) }

/-- The main status register: bit 7 is the request for a byte, bit 6 its direction, and bit 4 says that
there is a command. -/
def status (c : Controller) : UInt8 :=
  match c.phase with
  | .held => 0
  | .idle => if c.busy = 0 then 0x80 else 0
  | .command _ => if c.busy = 0 then 0x90 else 0x10
  | .executing _ => 0x10
  | .result _ => if c.busy = 0 then 0xD0 else 0x10

/-- The digital output register: bit 2 at zero resets the controller, bit 4 and the bits above are the
motors. -/
def writeDor (value : Nat) (c : Controller) : Controller :=
  if value.testBit 2 then
    match c.phase with
    | .held => pause { c with dor := value, phase := .executing .reset }
    | _ => { c with dor := value }
  else { c with dor := value, phase := .held, busy := 0, pending := [] }

/-! ## Commands -/

/-- The number of bytes of a command. -/
def commandLength (code : UInt8) : Nat :=
  match code.toNat % 2 ^ 5 with
  | 0x03 => 3
  | 0x06 => 9
  | 0x07 => 2
  | _ => 1

theorem commandLength_read : commandLength 0xE6 = 9 := by decide

theorem commandLength_recalibrate : commandLength 0x07 = 2 := by decide

theorem commandLength_senseInterrupt : commandLength 0x08 = 1 := by decide

theorem commandLength_specify : commandLength 0x03 = 3 := by decide

/-- SENSE INTERRUPT: the next report and the cylinder of its drive. -/
def senseInterrupt (c : Controller) : Controller :=
  match c.pending with
  | [] => pause { c with phase := .result [0x80] }
  | st :: rest =>
      pause { c with
        phase := .result [st, UInt8.ofNat (c.cylinders (st.toNat % 4))]
        pending := rest }

/-- A command whose bytes are complete. -/
def execute (got : List UInt8) (c : Controller) : Controller :=
  match got with
  | [code] =>
      if code.toNat % 2 ^ 5 = 0x08 then c.senseInterrupt else pause { c with phase := .result [0x80] }
  | [_, unit] => work { c with phase := .executing (.recalibrate (unit.toNat % 4)) }
  | [_, _, _] => pause { c with phase := .idle }
  | [_, unit, cylinder, head, number, size, _, _, _] =>
      work { c with
        phase := .executing (.read (unit.toNat % 4) (unit.toNat / 4 % 2)
          ⟨cylinder.toNat, head.toNat, number.toNat, size.toNat⟩) }
  | _ => c

theorem execute_senseInterrupt (c : Controller) : c.execute [0x08] = c.senseInterrupt := by
  unfold execute
  exact if_pos (by decide)

/-- The bytes of a command, of which there may be more to come. -/
def accept (got : List UInt8) (c : Controller) : Controller :=
  if got.length < commandLength (got.headD 0) then pause { c with phase := .command got }
  else c.execute got

/-- A write to the data register. -/
def writeFifo (value : UInt8) (c : Controller) : Controller :=
  if c.busy = 0 then
    match c.phase with
    | .idle => c.accept [value]
    | .command got => c.accept (got ++ [value])
    | _ => c
  else c

/-- A read of the data register. -/
def readFifo (c : Controller) : UInt8 × Controller :=
  match c.phase with
  | .result (b :: left) =>
      if c.busy = 0 then
        (b, if left = [] then { c with phase := .idle } else pause { c with phase := .result left })
      else (0, c)
  | _ => (0, c)

/-! ## Execution -/

/-- The disk in the drive turns, as far as the controller cares. -/
def spins (c : Controller) (drive : Nat) : Bool := !c.chip.heedsMotor || c.dor.testBit (4 + drive)

/-- Where the heads are for a read. -/
def seek (c : Controller) (drive cylinder : Nat) : Nat → Nat :=
  if c.chip.impliedSeek = true ∧ c.attached drive = true ∧ cylinder < 80 then
    Function.update c.cylinders drive cylinder
  else c.cylinders

/-- The sector that a read finds under the heads. -/
def find (c : Controller) (drive side : Nat) (id : SectorId) : Option (Fin 512 → UInt8) :=
  if c.attached drive = true ∧ id.Valid ∧ id.head = side ∧
      c.seek drive id.cylinder drive = id.cylinder then
    (c.disks drive).map fun disk => disk id.cylinder id.head id.number
  else none

/-- The first status byte behind a command: bits 6 and 7 say whether it has failed. -/
def st0 (failed : Bool) (drive side : Nat) : UInt8 :=
  UInt8.ofNat ((if failed then 0x40 else 0) + 4 * side + drive)

/-- The result of a read. -/
def readResult (failed : Bool) (drive side : Nat) (id : SectorId) : List UInt8 :=
  [st0 failed drive side, if failed then 0x04 else 0, 0, UInt8.ofNat id.cylinder, UInt8.ofNat id.head,
    UInt8.ofNat (if failed then id.number else id.number + 1), UInt8.ofNat id.size]

/-- The bytes of a sector. -/
def sectorBytes (sector : Fin 512 → UInt8) : Bytes := fun i =>
  if h : i < 512 then sector ⟨i, h⟩ else 0

/-- The end of a job, and whether the interrupt is raised. A read does not end if the disk does not turn,
or if the channel does not take the bytes. -/
def finish (job : Job) (c : Controller) : Controller × Bool :=
  match job with
  | .reset => ({ c with phase := .idle, busy := 0, pending := [0xC0, 0xC1, 0xC2, 0xC3] }, true)
  | .recalibrate drive =>
      ({ c with
        phase := .idle
        busy := 0
        cylinders := Function.update c.cylinders drive 0
        pending :=
          c.pending ++ [UInt8.ofNat ((if c.attached drive then 0x20 else 0x70) + drive)] }, true)
  | .read drive side id =>
      if c.spins drive = true then
        match c.find drive side id with
        | some sector =>
            if c.dma.Takes 512 then
              (pause { c with
                phase := .result (readResult false drive side id)
                cylinders := c.seek drive id.cylinder
                memory := c.dma.transfer (sectorBytes sector) 512 c.memory
                dma := c.dma.ended 512 }, true)
            else (c, false)
        | none =>
            (pause { c with
              phase := .result (readResult true drive side id)
              cylinders := c.seek drive id.cylinder }, true)
      else (c, false)

/-- A controller in a phase, busy for a time. -/
def timed (c : Controller) (phase : Phase) (busy : Nat) (pauses : Nat → Nat) : Controller :=
  { c with phase, busy, pauses }

section read

variable {c : Controller} {drive side : Nat} {id : SectorId} {sector : Fin 512 → UInt8} {phase : Phase}
  {b : Nat} {p : Nat → Nat}

theorem finish_read_some (hspin : c.spins drive = true) (hfind : c.find drive side id = some sector)
    (htakes : c.dma.Takes 512) : (c.timed phase b p).finish (.read drive side id)
      = (timed { c with
          cylinders := c.seek drive id.cylinder
          memory := c.dma.transfer (sectorBytes sector) 512 c.memory
          dma := c.dma.ended 512 }
        (.result (readResult false drive side id)) (p 0) (fun n => p (n + 1)), true) := by
  have hspin' : (c.timed phase b p).spins drive = true := hspin
  have hfind' : (c.timed phase b p).find drive side id = some sector := hfind
  have htakes' : (c.timed phase b p).dma.Takes 512 := htakes
  unfold finish
  simp only
  rw [if_pos hspin', hfind']
  simp only
  rw [if_pos htakes']
  rfl

theorem finish_read_none (hspin : c.spins drive = true) (hfind : c.find drive side id = none) :
    (c.timed phase b p).finish (.read drive side id)
      = (timed { c with cylinders := c.seek drive id.cylinder }
        (.result (readResult true drive side id)) (p 0) (fun n => p (n + 1)), true) := by
  have hspin' : (c.timed phase b p).spins drive = true := hspin
  have hfind' : (c.timed phase b p).find drive side id = none := hfind
  unfold finish
  simp only
  rw [if_pos hspin', hfind']
  rfl

/-- A read from a disk that does not turn has no end. -/
theorem finish_read_still (hspin : c.spins drive = false) :
    (c.timed phase b p).finish (.read drive side id) = (c.timed phase b p, false) := by
  have hspin' : ¬(c.timed phase b p).spins drive = true := by
    change ¬c.spins drive = true
    rw [hspin]
    decide
  unfold finish
  simp only
  rw [if_neg hspin']

end read

/-- One unit of time, and whether the interrupt is raised in it. -/
def tick (c : Controller) : Controller × Bool :=
  match c.phase with
  | .executing job => if c.busy ≤ 1 then c.finish job else ({ c with busy := c.busy - 1 }, false)
  | _ => ({ c with busy := c.busy - 1 }, false)

end Controller

end MicroKernel.Lib.Floppy
