import Mathlib.Data.List.DropRight
import MicroKernel.Lib.Numeral
import MicroKernel.Libc.String
import MicroKernel.Libc.Strtoul
import MicroKernel.Vfs.Resolve

set_option autoImplicit false

/-! # The drives of the machine (`drivers/block/ata.c`, `drivers/block/fdd.c`)

At the start the ATA driver asks four places for a drive, and the floppy driver two. Every drive that
answers gets the next entry of `detected_drives` and a name: `hdd` and its number among the drives of
the ATA driver, or `fdd` and the number of the floppy drive. The table has four entries. The ATA driver
looks at that and the floppy driver does not, so `fddDetectDrives` has no result where it would write
behind the table (`fddDetectDrives_isSome_iff`).

What the hardware answers is the parameter `Hardware`. Strings are lists of bytes, without the
terminating zero.
-/

namespace MicroKernel.Drives

open MicroKernel.Lib MicroKernel.Libc MicroKernel.Vfs

/-! ## The table -/

/-- `drive_type_t`. -/
inductive DriveType where
  | none
  | ata
  | fdd
  deriving DecidableEq, Repr

/-- `drive_t`. -/
structure Drive where
  type : DriveType
  base : Nat
  isMaster : Bool
  name : List UInt8
  model : List UInt8
  sectors : Nat
  cylinder : Nat
  head : Nat
  sector : Nat
  fddDriveNo : Nat
  mountPoint : List UInt8
  deriving DecidableEq

/-- `MAX_DRIVES`. -/
def maxDrives : Nat := 4

/-- `detected_drives`, up to `drive_count`. -/
structure DriveTable where
  drives : List Drive
  length_le : drives.length ≤ maxDrives

namespace DriveTable

/-- The table without drives. -/
def empty : DriveTable := ⟨[], Nat.zero_le _⟩

/-- A drive gets the next entry. -/
def push (t : DriveTable) (d : Drive) (h : t.drives.length < maxDrives) : DriveTable :=
  ⟨t.drives ++ [d], by rw [List.length_append]; exact h⟩

end DriveTable

/-- The string that is left of `l` in a buffer of `size` bytes. -/
def fitted (size : Nat) (l : List UInt8) : List UInt8 := l.take (size - 1)

/-- The names that `snprintf` makes with `"hdd%d"`. -/
def hddName (n : Nat) : List UInt8 := fitted 8 (ofString "hdd" ++ numeral 10 n)

/-- The names that `snprintf` makes with `"fdd%d"`. -/
def fddName (n : Nat) : List UInt8 := fitted 8 (ofString "fdd" ++ numeral 10 n)

/-! ## ATA drives -/

/-- What one place answers to the command IDENTIFY: the status behind the command, whether the two
waits come to an end in time, and the words that are read then. -/
structure Identify where
  status : UInt8
  ready : Bool
  dataReady : Bool
  data : Nat → UInt16

namespace Identify

/-- The 40 characters of the model: two in each word, the first one above. -/
def model (r : Identify) : List UInt8 :=
  (List.range 20).flatMap fun i => [(r.data (27 + i) >>> 8).toUInt8, (r.data (27 + i)).toUInt8]

/-- The number of sectors, in the words 60 and 61. -/
def sectors (r : Identify) : Nat := (r.data 60).toNat + 2 ^ 16 * (r.data 61).toNat

end Identify

/-- `ata_identify_drive`: the fields that it fills in, where it succeeds. -/
def ataIdentifyDrive (r : Identify) (driveInfo : Drive) : Option Drive :=
  if r.status = 0 then none
  else if r.ready = false then none
  else if r.dataReady = false then none
  else if r.data 0 = 0 ∨ r.data 0 = 0xFFFF then none
  else if r.model.any (fun c => c ≠ 0 ∧ (c < 32 ∨ 126 < c)) then none
  else if r.sectors = 0 then none
  else some { driveInfo with model := text r.model, sectors := r.sectors }

/-- `trim_trailing_spaces`. -/
def trimTrailingSpaces (str : List UInt8) : List UInt8 := str.rdropWhile isspace

/-- What the drivers find: the answers to IDENTIFY at a port and a place on the bus, whether the floppy
controller can be set up, which drives can be calibrated, its status then, and the memory that is
there for an entry. The last two fields are entries with what was in the memory before. -/
structure Hardware where
  identify : Nat → Bool → Identify
  fdcInit : Bool
  calibrated : Nat → Bool
  fdcStatus : Nat → UInt8
  allocated : Nat → Option Drive
  tempDrive : Nat → Bool → Drive

/-- The places, in the order in which they are asked: `ATA_PRIMARY_IO` and `ATA_SECONDARY_IO`. -/
def ataPlaces : List (Nat × Bool) := [(0x1F0, true), (0x1F0, false), (0x170, true), (0x170, false)]

/-- What a pass of `ata_detect_drives` comes to, up to the entry it writes. -/
def ataProbe (hw : Hardware) (driveNameIndex : Nat) (place : Nat × Bool) : Option Drive :=
  let tempDrive := { hw.tempDrive place.1 place.2 with base := place.1, isMaster := place.2 }
  (ataIdentifyDrive (hw.identify place.1 place.2) tempDrive).map fun d =>
    { d with
      model := trimTrailingSpaces d.model
      type := .ata
      name := hddName driveNameIndex
      mountPoint := [] }

/-- The loops of `ata_detect_drives`. -/
def ataDetectLoop (hw : Hardware) : List (Nat × Bool) → Nat → DriveTable → DriveTable
  | [], _, t => t
  | place :: rest, driveNameIndex, t =>
      if h : t.drives.length < maxDrives then
        match ataProbe hw driveNameIndex place with
        | none => ataDetectLoop hw rest driveNameIndex t
        | some d => ataDetectLoop hw rest (driveNameIndex + 1) (t.push d h)
      else t

/-- `ata_detect_drives`. -/
def ataDetectDrives (hw : Hardware) : DriveTable := ataDetectLoop hw ataPlaces 0 .empty

/-! ## Floppy drives -/

/-- What a pass of `fdd_detect_drives` comes to, up to the entry it writes. -/
def fddProbe (hw : Hardware) (drive : Nat) : Option Drive :=
  if hw.calibrated drive = false then none
  else if hw.fdcStatus drive &&& 0x80 = 0 then none
  else
    (hw.allocated drive).map fun detectedDrive =>
      { detectedDrive with
        type := .fdd
        fddDriveNo := drive
        name := fddName drive
        cylinder := 80
        head := 2
        sector := 18
        mountPoint := [] }

/-- The loop of `fdd_detect_drives`. A write behind the table has no result. -/
def fddDetectLoop (hw : Hardware) : List Nat → DriveTable → Option DriveTable
  | [], t => some t
  | drive :: rest, t =>
      match fddProbe hw drive with
      | none => fddDetectLoop hw rest t
      | some d =>
          if h : t.drives.length < maxDrives then fddDetectLoop hw rest (t.push d h) else none

/-- `fdd_detect_drives`, for the drives `FDD_DRIVE_A` and `FDD_DRIVE_B`. -/
def fddDetectDrives (hw : Hardware) (t : DriveTable) : Option DriveTable :=
  if hw.fdcInit = false then some t else fddDetectLoop hw [0, 1] t

/-- The drives that `driver_init` detects. -/
def detectDrives (hw : Hardware) : Option DriveTable := fddDetectDrives hw (ataDetectDrives hw)

/-- `get_drive_by_name`: the place of the drive in the table. -/
def getDriveByName (t : DriveTable) (name : List UInt8) : Option Nat :=
  t.drives.findIdx? fun d => d.name = name

/-! ## What the table holds -/

/-- The first `n` floppy drives that answer. -/
def floppies (hw : Hardware) (drives : List Nat) : List Drive := drives.filterMap (fddProbe hw)

theorem fddDetectLoop_eq (hw : Hardware) (drives : List Nat) (t : DriveTable) :
    (fddDetectLoop hw drives t).map (·.drives) =
      if t.drives.length + (floppies hw drives).length ≤ maxDrives
      then some (t.drives ++ floppies hw drives) else none := by
  induction drives generalizing t with
  | nil =>
      have h := t.length_le
      simp [fddDetectLoop, floppies, h]
  | cons drive rest ih =>
      rw [fddDetectLoop, floppies, List.filterMap_cons]
      cases hprobe : fddProbe hw drive with
      | none => exact ih t
      | some d =>
          rw [List.length_cons]
          by_cases h : t.drives.length < maxDrives
          · have hlen : (t.push d h).drives.length = t.drives.length + 1 := by
              simp [DriveTable.push]
            simp only [dif_pos h, ih, hlen]
            rw [Nat.add_right_comm, Nat.add_assoc]
            simp only [DriveTable.push, List.append_assoc, List.singleton_append, floppies]
          · simp only [dif_neg h, Option.map_none]
            rw [if_neg (by omega)]

/-- `fdd_detect_drives` stays in the table exactly when there is room for all the drives that answer. -/
theorem fddDetectDrives_isSome_iff (hw : Hardware) (t : DriveTable) :
    (fddDetectDrives hw t).isSome ↔
      hw.fdcInit = true → t.drives.length + (floppies hw [0, 1]).length ≤ maxDrives := by
  unfold fddDetectDrives
  cases hw.fdcInit with
  | false => simp
  | true =>
      have h := fddDetectLoop_eq hw [0, 1] t
      by_cases hroom : t.drives.length + (floppies hw [0, 1]).length ≤ maxDrives
      · rw [if_pos hroom] at h
        have hsome : (fddDetectLoop hw [0, 1] t).isSome := by
          rw [← Option.isSome_map, h]
          rfl
        simp [hsome, hroom]
      · rw [if_neg hroom, Option.map_eq_none_iff] at h
        simp [h, hroom]

/-! ## Names -/

theorem hddName_eq {n : Nat} (h : n < 10) : hddName n = [0x68, 0x64, 0x64, digitChar n] := by
  unfold hddName
  rw [numeral_of_lt h]
  rfl

theorem fddName_eq {n : Nat} (h : n < 10) : fddName n = [0x66, 0x64, 0x64, digitChar n] := by
  unfold fddName
  rw [numeral_of_lt h]
  rfl

/-- The names that a drive can get. -/
def driveNames : List (List UInt8) := (List.range maxDrives).map hddName ++ [fddName 0, fddName 1]

theorem driveNames_eq : driveNames = [[0x68, 0x64, 0x64, 0x30], [0x68, 0x64, 0x64, 0x31],
    [0x68, 0x64, 0x64, 0x32], [0x68, 0x64, 0x64, 0x33], [0x66, 0x64, 0x64, 0x30],
    [0x66, 0x64, 0x64, 0x31]] := by
  unfold driveNames maxDrives
  simp [List.range_succ, hddName_eq, fddName_eq, digitChar]

/-- The entries have names of their own, and no drive is mounted yet. -/
structure Detected (ds : List Drive) : Prop where
  names : (ds.map (·.name)).Sublist driveNames
  unmounted : ∀ d ∈ ds, d.mountPoint = []

/-- The drives of the ATA driver are numbered in the order of the table. -/
def Numbered (ds : List Drive) : Prop := ds.map (·.name) = (List.range ds.length).map hddName

theorem ataProbe_some {hw : Hardware} {n : Nat} {place : Nat × Bool} {d : Drive}
    (h : ataProbe hw n place = some d) : d.name = hddName n ∧ d.mountPoint = [] := by
  obtain ⟨d', -, rfl⟩ := Option.map_eq_some_iff.mp h
  exact ⟨rfl, rfl⟩

theorem ataDetectLoop_numbered (hw : Hardware) (places : List (Nat × Bool)) (t : DriveTable)
    (hn : Numbered t.drives) (hm : ∀ d ∈ t.drives, d.mountPoint = []) :
    Numbered (ataDetectLoop hw places t.drives.length t).drives ∧
      ∀ d ∈ (ataDetectLoop hw places t.drives.length t).drives, d.mountPoint = [] := by
  induction places generalizing t with
  | nil => exact ⟨hn, hm⟩
  | cons place rest ih =>
      unfold ataDetectLoop
      split
      next h =>
        cases hprobe : ataProbe hw t.drives.length place with
        | none => exact ih t hn hm
        | some d =>
            obtain ⟨hname, hmount⟩ := ataProbe_some hprobe
            have hlen : (t.push d h).drives.length = t.drives.length + 1 := by
              simp [DriveTable.push]
            simp only [← hlen]
            apply ih
            · -- the new entry has the number of the entry as its name
              unfold Numbered at hn ⊢
              rw [hlen]
              simp [DriveTable.push, List.range_succ, hn, hname]
            · intro d' hd'
              rcases List.mem_append.mp hd' with hd' | hd'
              · exact hm d' hd'
              · rw [List.mem_singleton.mp hd']
                exact hmount
      next => exact ⟨hn, hm⟩

theorem fddProbe_some {hw : Hardware} {drive : Nat} {d : Drive} (h : fddProbe hw drive = some d) :
    d.name = fddName drive ∧ d.mountPoint = [] := by
  unfold fddProbe at h
  split_ifs at h
  obtain ⟨d', -, rfl⟩ := Option.map_eq_some_iff.mp h
  exact ⟨rfl, rfl⟩

theorem floppies_names (hw : Hardware) (drives : List Nat) :
    ((floppies hw drives).map (·.name)).Sublist (drives.map fddName) := by
  induction drives with
  | nil => exact List.Sublist.refl _
  | cons drive rest ih =>
      unfold floppies at ih ⊢
      rw [List.filterMap_cons, List.map_cons]
      cases hprobe : fddProbe hw drive with
      | none => exact ih.cons _
      | some d =>
          rw [List.map_cons, (fddProbe_some hprobe).1]
          exact ih.cons_cons _

/-- What `driver_init` finds in the table. -/
theorem detectDrives_detected {hw : Hardware} {t : DriveTable} (h : detectDrives hw = some t) :
    Detected t.drives := by
  have hata := ataDetectLoop_numbered hw ataPlaces .empty rfl (fun d hd => absurd hd List.not_mem_nil)
  change Numbered (ataDetectDrives hw).drives ∧ _ at hata
  obtain ⟨hnum, hm⟩ := hata
  have hnames : ((ataDetectDrives hw).drives.map (·.name)).Sublist
      ((List.range maxDrives).map hddName) := by
    rw [hnum]
    exact (List.range_sublist.mpr (ataDetectDrives hw).length_le).map _
  unfold detectDrives fddDetectDrives at h
  split_ifs at h
  · obtain rfl := Option.some.inj h
    exact ⟨hnames.trans (List.sublist_append_left _ _), hm⟩
  · have heq := fddDetectLoop_eq hw [0, 1] (ataDetectDrives hw)
    rw [h, Option.map_some] at heq
    split_ifs at heq
    rw [Option.some.inj heq]
    constructor
    · rw [List.map_append]
      exact hnames.append (floppies_names hw [0, 1])
    · intro d hd
      rcases List.mem_append.mp hd with hd | hd
      · exact hm d hd
      · obtain ⟨drive, -, hprobe⟩ := List.mem_filterMap.mp hd
        exact (fddProbe_some hprobe).2

end MicroKernel.Drives
