import MicroKernel.Lib.Bytes
import MicroKernel.Lib.Prog
import MicroKernel.Lib.Word

set_option autoImplicit false

/-! # The state of the FAT32 driver and its disks

The global variables of `fs/fat32` and the drives they are used on. A disk is a map from sector
numbers to sectors; the ATA driver transfers one sector at a time and uses the low 28 bits of
the number it is given.

Every call of the ATA driver may fail. A call is named by the path of labels that leads to it,
from the operation down to the place of the call in its function, so that within one operation
no two calls have the same name; `Env.fault` says which calls fail. A read that fails leaves
the buffer as it was (in the builds other than the one for real hardware). A write fails before the
data has gone out, and leaves the sector as it was, or when the drive does not come back from it:
`Env.late` says which writes have reached the disk although they fail. The contents of memory that
was never written, the success of `malloc` and the clock are parts of the environment for the same
reason: the driver does not control them.
-/

namespace MicroKernel.Fat32

open MicroKernel.Lib Bytes

/-! ## Sectors -/

/-- A sector of 512 bytes. -/
abbrev Sector := Fin 512 → UInt8

namespace Sector

/-- The sector as a byte store. -/
def bytes (sec : Sector) : Bytes := fun x => if h : x < 512 then sec ⟨x, h⟩ else 0

/-- The 512 bytes of `b` at `a`. -/
def ofBytes (b : Bytes) (a : Nat) : Sector := fun i => b (a + i)

/-- The 32-bit field at offset `a`. -/
def field (sec : Sector) (a : Nat) : Nat := load32 (bytes sec) a

/-- Assign the 32-bit field at offset `a`. -/
def setField (sec : Sector) (a v : Nat) : Sector := ofBytes (store32 (bytes sec) a v) 0

end Sector

/-! ## Global variables -/

/-- `drive_t`, as far as the ATA driver is addressed by it. -/
structure Drive where
  base : Nat
  isMaster : Bool
  deriving DecidableEq

/-- The fields of `struct fat32_boot_sector` that are used. -/
structure BootSector where
  bytesPerSector : Nat
  sectorsPerCluster : Nat
  reservedSectorCount : Nat
  numberOfFats : Nat
  rootEntryCount : Nat
  totalSectors32 : Nat
  fatSize32 : Nat
  rootCluster : Nat
  fsInfo : Nat

/-- The disks and the global variables. `fsinfo` is the structure as it lies in memory, which is
one sector. -/
structure Fs where
  disks : Drive → Nat → Sector
  currentDrive : Drive
  ataBaseAddress : Nat
  bootSector : BootSector
  fsinfo : Sector
  fsinfoValid : Bool
  currentDirectoryCluster : Nat
  partitionLbaOffset : Nat

/-- The disk that reads go to. -/
def Fs.disk (s : Fs) : Nat → Sector := s.disks s.currentDrive

/-- The state with other contents of that disk. -/
def Fs.withDisk (s : Fs) (d : Nat → Sector) : Fs :=
  { s with disks := Function.update s.disks s.currentDrive d }

/-! ## The environment -/

/-- The steps of a path that names a call of the ATA driver. The first group are the calls
themselves, the second group the parts of an operation that make them. -/
inductive Label where
  /-- The read of a FAT sector. -/
  | fat
  /-- The read of sector `i` of a cluster. -/
  | load (i : Nat)
  /-- The write of FAT copy `i`, or of sector `i` of a cluster. -/
  | store (i : Nat)
  /-- The read that checks that write. -/
  | verify (i : Nat)
  /-- The search for a free cluster looks at a cluster. -/
  | candidate (cluster : Nat)
  /-- The same, after the search has started again at cluster 2. -/
  | wrapped (cluster : Nat)
  /-- A cluster is marked as the end of a chain. -/
  | mark
  /-- The first cluster of a new directory is written. -/
  | init
  /-- An entry is put into the current directory. -/
  | insert
  /-- The mark is taken back. -/
  | rollback
  /-- An entry is searched in the current directory. -/
  | find
  /-- A directory is checked for entries. -/
  | empty
  /-- A chain is given back. -/
  | free
  /-- An entry is removed from the current directory. -/
  | remove
  /-- FSInfo is written back. -/
  | sync
  /-- The `i`-th cluster of a walk along a chain. -/
  | cluster (i : Nat)
  /-- The step of such a walk to the next cluster. -/
  | next
  /-- The cluster at hand is written. -/
  | write
  /-- A chain gets a new last cluster. -/
  | link
  /-- The `i`-th component of a path. -/
  | component (i : Nat)

/-- The readings of the real-time clock. -/
structure Clock where
  year : Nat
  month : Nat
  day : Nat
  hours : Nat
  minutes : Nat
  seconds : Nat

/-- What the driver does not control. -/
structure Env where
  /-- The path to the function that is running, innermost part first. -/
  path : List Label
  /-- The calls of the ATA driver that fail. -/
  fault : List Label → Bool
  /-- The writes that store the data even if they fail. -/
  late : List Label → Bool
  /-- The calls of `malloc` that return `NULL`. -/
  outOfMemory : List Label → Bool
  /-- What an array on the stack holds before it is written to. -/
  junk : List Label → Bytes
  clock : List Label → Clock

/-- The call `l` of the running function fails. -/
def Env.fails (e : Env) (l : Label) : Bool := e.fault (l :: e.path)

/-- The write `l` of the running function fails before the drive has the data. -/
def Env.loses (e : Env) (l : Label) : Bool := e.fails l && !e.late (l :: e.path)

/-- The environment of the part `l` of the running function. -/
def Env.enter (e : Env) (l : Label) : Env := { e with path := l :: e.path }

/-- Every call of the ATA driver succeeds. -/
def Env.Reliable (e : Env) : Prop := ∀ p, e.fault p = false

/-- Every call of the ATA driver fails. -/
def Env.Failing (e : Env) : Prop := ∀ p, e.fault p = true

/-- Every call of `malloc` succeeds. -/
def Env.HasMemory (e : Env) : Prop := ∀ p, e.outOfMemory p = false

/-- The programs of the driver. -/
abbrev Io := Prog Env Fs

/-- The part `l` of a function. -/
def within {α : Type} (l : Label) (m : Io α) : Io α := Prog.under (fun e => e.enter l) m

/-- An array on the stack that is not initialised. -/
def uninitialised (l : Label) : Io Bytes := Prog.ask fun e => e.junk (l :: e.path)

/-! ## The ATA driver -/

/-- `ata_read_sector(drive, lba, &buffer[a])`. -/
def ataReadSector (l : Label) (drive : Drive) (lba : Nat) (buffer : Bytes) (a : Nat) :
    Io (Bool × Bytes) := do
  if (← Prog.ask fun e => e.fails l) then return (false, buffer)
  let s ← Prog.get
  return (true, copy buffer a (Sector.bytes (s.disks drive (lba % 2 ^ 28))) 0 512)

/-- `ata_write_sector(drive, lba, &buffer[a])`. -/
def ataWriteSector (l : Label) (drive : Drive) (lba : Nat) (buffer : Bytes) (a : Nat) :
    Io Bool := do
  if (← Prog.ask fun e => e.loses l) then return false
  Prog.modify fun s =>
    let disk := Function.update (s.disks drive) (lba % 2 ^ 28) (Sector.ofBytes buffer a)
    { s with disks := Function.update s.disks drive disk }
  -- the drive has the data, and may still be waited for in vain
  return !(← Prog.ask fun e => e.fails l)

/-- A read as the driver makes it: from `current_drive`. -/
def readSector (l : Label) (lba : Nat) (buffer : Bytes) (a : Nat) : Io (Bool × Bytes) := do
  let s ← Prog.get
  ataReadSector l s.currentDrive lba buffer a

/-- A write as the driver makes it: to the controller of `ata_base_address`, on the side that
`current_drive` is on. -/
def writeSector (l : Label) (lba : Nat) (buffer : Bytes) (a : Nat) : Io Bool := do
  let s ← Prog.get
  ataWriteSector l ⟨s.ataBaseAddress, s.currentDrive.isMaster⟩ lba buffer a

/-- Reads and writes go to the same drive. -/
def Fs.SameDrive (s : Fs) : Prop := s.ataBaseAddress = s.currentDrive.base

/-! ## Lemmas -/

theorem Sector.bytes_ofBytes (b : Bytes) {x : Nat} (a : Nat) (hx : x < 512) :
    Sector.bytes (Sector.ofBytes b a) x = b (a + x) := by
  simp [Sector.bytes, Sector.ofBytes, hx]

theorem Sector.ofBytes_congr {b b' : Bytes} {a a' : Nat}
    (h : ∀ x, x < 512 → b (a + x) = b' (a' + x)) :
    Sector.ofBytes b a = Sector.ofBytes b' a' := by
  funext i
  exact h i i.isLt

theorem Sector.ofBytes_bytes (sec : Sector) : Sector.ofBytes (Sector.bytes sec) 0 = sec := by
  funext i
  simp [Sector.ofBytes, Sector.bytes]

namespace Fs

variable (s : Fs) (d : Nat → Sector)

@[simp] theorem withDisk_disk : (s.withDisk d).disk = d := by
  simp [Fs.withDisk, Fs.disk]

@[simp] theorem withDisk_withDisk (d' : Nat → Sector) :
    (s.withDisk d).withDisk d' = s.withDisk d' := by
  simp [Fs.withDisk]

@[simp] theorem withDisk_self : s.withDisk s.disk = s := by
  simp [Fs.withDisk, Fs.disk]

@[simp] theorem withDisk_bootSector : (s.withDisk d).bootSector = s.bootSector := rfl

@[simp] theorem withDisk_partitionLbaOffset :
    (s.withDisk d).partitionLbaOffset = s.partitionLbaOffset := rfl

@[simp] theorem withDisk_currentDirectoryCluster :
    (s.withDisk d).currentDirectoryCluster = s.currentDirectoryCluster := rfl

@[simp] theorem withDisk_fsinfo : (s.withDisk d).fsinfo = s.fsinfo := rfl

@[simp] theorem withDisk_fsinfoValid : (s.withDisk d).fsinfoValid = s.fsinfoValid := rfl

@[simp] theorem withDisk_sameDrive : (s.withDisk d).SameDrive ↔ s.SameDrive := Iff.rfl

end Fs

section run

variable {α : Type} (e : Env) (s : Fs)

@[simp] theorem run_within (l : Label) (m : Io α) :
    (within l m).run e s = m.run (e.enter l) s := rfl

@[simp] theorem run_uninitialised (l : Label) :
    (uninitialised l).run e s = some (e.junk (l :: e.path), s) := rfl

/-- What a read does. -/
theorem run_readSector (l : Label) (lba : Nat) (buffer : Bytes) (a : Nat) :
    (readSector l lba buffer a).run e s
      = some (if e.fails l then (false, buffer)
          else (true, copy buffer a (Sector.bytes (s.disk (lba % 2 ^ 28))) 0 512), s) := by
  show (ataReadSector l s.currentDrive lba buffer a).run e s = _
  unfold ataReadSector
  rw [Prog.run_bind, Prog.run_ask, Option.bind_some]
  cases e.fails l <;> rfl

theorem loses_of_not_fails {e : Env} {l : Label} (h : e.fails l = false) : e.loses l = false := by
  rw [Env.loses, h, Bool.false_and]

theorem fails_of_loses {e : Env} {l : Label} (h : e.loses l = true) : e.fails l = true := by
  rw [Env.loses, Bool.and_eq_true] at h
  exact h.1

/-- What a write does when it goes to the drive that is read. -/
theorem run_writeSector (h : s.SameDrive) (l : Label) (lba : Nat) (buffer : Bytes) (a : Nat) :
    (writeSector l lba buffer a).run e s
      = some (!e.fails l, if e.loses l then s else s.withDisk
          (Function.update s.disk (lba % 2 ^ 28) (Sector.ofBytes buffer a))) := by
  show (ataWriteSector l ⟨s.ataBaseAddress, s.currentDrive.isMaster⟩ lba buffer a).run e s = _
  have hd : (⟨s.ataBaseAddress, s.currentDrive.isMaster⟩ : Drive) = s.currentDrive := by
    rw [show s.ataBaseAddress = s.currentDrive.base from h]
  unfold ataWriteSector
  rw [Prog.run_bind, Prog.run_ask, Option.bind_some, hd]
  cases hl : e.loses l with
  | true =>
      rw [fails_of_loses hl]
      rfl
  | false => rfl

end run

end MicroKernel.Fat32
