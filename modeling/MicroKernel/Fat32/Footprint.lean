import MicroKernel.Fat32.Calls
import MicroKernel.Fat32.Adapter
import MicroKernel.Lib.Frame

set_option autoImplicit false

/-! # Where the driver writes

Every write of the driver goes to one drive: the controller is the one of `ata_base_address`, the
side is that of `current_drive`. No operation on a directory changes either of the two, so all of
its writes go to the same drive (`DirOp.call_writes`). Nothing is assumed of the volume here: the
boot sector may be that of another drive, and the directory any number at all.
-/

namespace MicroKernel.Fat32

open MicroKernel.Lib Prog

/-- The drive that writes go to. -/
def Fs.writeDrive (s : Fs) : Drive := ⟨s.ataBaseAddress, s.currentDrive.isMaster⟩

/-- What may have changed is the contents of that drive, not which drive it is. -/
structure Fs.Footprint (s s' : Fs) : Prop where
  base : s'.ataBaseAddress = s.ataBaseAddress
  current : s'.currentDrive = s.currentDrive
  disks : ∀ drive, drive ≠ s.writeDrive → s'.disks drive = s.disks drive

instance : Std.Refl Fs.Footprint := ⟨fun _ => ⟨rfl, rfl, fun _ _ => rfl⟩⟩

instance : IsTrans Fs Fs.Footprint where
  trans s₁ s₂ s₃ h h' := by
    have hdrive : s₂.writeDrive = s₁.writeDrive := by
      unfold Fs.writeDrive
      rw [h.base, h.current]
    refine ⟨h'.base.trans h.base, h'.current.trans h.current, ?_⟩
    intro drive hne
    calc s₃.disks drive = s₂.disks drive := h'.disks drive (hdrive ▸ hne)
      _ = s₁.disks drive := h.disks drive hne

/-- The program writes to that drive only. -/
abbrev Writes {α : Type} (m : Io α) : Prop := Keeps Fs.Footprint m

/-! ## The ATA driver -/

section

variable {α : Type} {R : Fs → Fs → Prop}

theorem keeps_within {m : Io α} (h : Keeps R m) (l : Label) : Keeps R (within l m) :=
  Keeps.under h _

theorem uninitialised_readOnly (l : Label) : ReadOnly (uninitialised l) := Keeps.ask _

theorem ataReadSector_readOnly (l : Label) (drive : Drive) (lba : Nat) (b : Bytes) (a : Nat) :
    ReadOnly (ataReadSector l drive lba b a) := by
  unfold ataReadSector
  apply Keeps.bind (Keeps.ask _)
  intro failed
  apply Keeps.ite (Keeps.pure _)
  apply Keeps.bind Keeps.get
  intro s
  exact Keeps.pure _

theorem readSector_readOnly (l : Label) (lba : Nat) (b : Bytes) (a : Nat) :
    ReadOnly (readSector l lba b a) := by
  unfold readSector
  apply Keeps.bind Keeps.get
  intro s
  exact ataReadSector_readOnly _ _ _ _ _

theorem ataWriteSector_disks {l : Label} {drive : Drive} {lba : Nat} {b : Bytes} {a : Nat} {e : Env}
    {s s' : Fs} {r : Bool} (hr : (ataWriteSector l drive lba b a).run e s = some (r, s')) :
    ∃ disk, s' = { s with disks := Function.update s.disks drive disk } := by
  unfold ataWriteSector at hr
  rw [run_bind, run_ask, Option.bind_some] at hr
  cases hloses : e.loses l with
  | true =>
      rw [hloses] at hr
      obtain ⟨-, rfl⟩ := Prod.mk.inj (Option.some.inj hr)
      exact ⟨s.disks drive, by rw [Function.update_eq_self]⟩
  | false =>
      rw [hloses] at hr
      obtain ⟨-, rfl⟩ := Prod.mk.inj (Option.some.inj hr)
      exact ⟨_, rfl⟩

theorem writeSector_writes (l : Label) (lba : Nat) (b : Bytes) (a : Nat) :
    Writes (writeSector l lba b a) := by
  constructor
  intro e s r s' hr
  change (ataWriteSector l s.writeDrive lba b a).run e s = _ at hr
  obtain ⟨disk, rfl⟩ := ataWriteSector_disks hr
  refine ⟨rfl, rfl, ?_⟩
  intro drive hne
  exact Function.update_of_ne hne _ _

end

/-! ## Clusters and the FAT -/

section cluster

theorem readFatEntry_readOnly (cluster : Nat) : ReadOnly (readFatEntry cluster) := by
  unfold readFatEntry
  apply Keeps.bind Keeps.get
  intro s
  apply Keeps.ite (Keeps.pure _)
  apply Keeps.bind (uninitialised_readOnly _)
  intro buffer
  apply Keeps.bind (readSector_readOnly _ _ _ _)
  intro r
  exact Keeps.ite (Keeps.pure _) (Keeps.pure _)

theorem getNextClusterInChain_readOnly (cluster : Nat) :
    ReadOnly (getNextClusterInChain cluster) := by
  unfold getNextClusterInChain
  apply Keeps.bind Keeps.get
  intro s
  apply Keeps.bind (uninitialised_readOnly _)
  intro buffer
  apply Keeps.bind (readSector_readOnly _ _ _ _)
  intro r
  apply Keeps.ite (Keeps.pure _)
  exact Keeps.ite (Keeps.pure _) (Keeps.pure _)

theorem writeVerified_writes (i lba : Nat) (b : Bytes) (a : Nat) :
    Writes (writeVerified i lba b a) := by
  unfold writeVerified
  apply Keeps.bind Keeps.get
  intro s
  apply Keeps.bind (writeSector_writes _ _ _ _)
  intro ok
  apply Keeps.ite (Keeps.pure _)
  apply Keeps.bind (Keeps.of_readOnly (uninitialised_readOnly _))
  intro verify
  apply Keeps.bind (Keeps.of_readOnly (readSector_readOnly _ _ _ _))
  intro r
  apply Keeps.ite (Keeps.pure _)
  exact Keeps.ite (Keeps.pure _) (Keeps.pure _)

theorem writeCopies_writes (cluster : Nat) (b : Bytes) (n copy : Nat) :
    Writes (writeCopies cluster b n copy) := by
  induction n generalizing copy with
  | zero => exact Keeps.pure _
  | succ n ih =>
      rw [writeCopies]
      apply Keeps.bind Keeps.get
      intro s
      apply Keeps.bind (writeVerified_writes _ _ _ _)
      intro ok
      exact Keeps.ite (Keeps.pure _) (ih _)

theorem writeFatEntry_writes (cluster value : Nat) : Writes (writeFatEntry cluster value) := by
  unfold writeFatEntry
  apply Keeps.bind Keeps.get
  intro s
  apply Keeps.bind (Keeps.of_readOnly (uninitialised_readOnly _))
  intro buffer
  apply Keeps.bind (Keeps.of_readOnly (readSector_readOnly _ _ _ _))
  intro r
  exact Keeps.ite (Keeps.pure _) (writeCopies_writes _ _ _ _)

/-- The fields of FSInfo in memory are not on a disk. -/
theorem footprint_updateFsinfo (delta : Int) (s : Fs) :
    s.Footprint (s.updateFsinfoFreeCount delta) := by
  unfold Fs.updateFsinfoFreeCount
  split
  · exact Std.Refl.refl s
  · split
    · exact Std.Refl.refl s
    · split
      · exact ⟨rfl, rfl, fun _ _ => rfl⟩
      · exact ⟨rfl, rfl, fun _ _ => rfl⟩

theorem writeFsinfo_writes : Writes writeFsinfo := by
  unfold writeFsinfo
  apply Keeps.bind Keeps.get
  intro s
  apply Keeps.ite (Keeps.pure _)
  apply Keeps.bind (writeSector_writes _ _ _ _)
  intro ok
  apply Keeps.ite (Keeps.pure _)
  apply Keeps.bind (Keeps.of_readOnly (uninitialised_readOnly _))
  intro verify
  apply Keeps.bind (Keeps.of_readOnly (readSector_readOnly _ _ _ _))
  intro r
  exact Keeps.ite (Keeps.pure _) (Keeps.pure _)

theorem markClusterInFat_writes (cluster value : Nat) : Writes (markClusterInFat cluster value) := by
  unfold markClusterInFat
  apply Keeps.bind Keeps.get
  intro s
  apply Keeps.ite (Keeps.pure _)
  apply Keeps.bind (Keeps.of_readOnly (uninitialised_readOnly _))
  intro buffer
  apply Keeps.bind (Keeps.of_readOnly (readSector_readOnly _ _ _ _))
  intro r
  apply Keeps.ite (Keeps.pure _)
  apply Keeps.bind (writeCopies_writes _ _ _ _)
  intro ok
  apply Keeps.ite (Keeps.pure _)
  apply Keeps.ite
  · apply Keeps.bind (Keeps.modify (footprint_updateFsinfo _))
    intro _
    exact Keeps.pure _
  · apply Keeps.ite
    · apply Keeps.bind (Keeps.modify (footprint_updateFsinfo _))
      intro _
      exact Keeps.pure _
    · exact Keeps.pure _

theorem scanFree_writes (label : Nat → Label) (n cluster : Nat) :
    Writes (scanFree label n cluster) := by
  induction n generalizing cluster with
  | zero => exact Keeps.pure _
  | succ n ih =>
      rw [scanFree]
      apply Keeps.bind (keeps_within (Keeps.of_readOnly (readFatEntry_readOnly _)) _)
      intro entry
      apply Keeps.ite
      · apply Keeps.bind
        · apply Keeps.modify
          intro s
          split
          · exact ⟨rfl, rfl, fun _ _ => rfl⟩
          · exact Std.Refl.refl s
        · intro _
          exact Keeps.pure _
      · exact ih _

theorem findFreeCluster_writes : Writes findFreeCluster := by
  unfold findFreeCluster
  apply Keeps.bind Keeps.get
  intro s
  apply Keeps.bind (scanFree_writes _ _ _)
  rintro (_ | cluster)
  · apply Keeps.bind (scanFree_writes _ _ _)
    rintro (_ | cluster)
    · exact Keeps.pure _
    · exact Keeps.pure _
  · exact Keeps.pure _

theorem scanAllocate_writes (n cluster : Nat) : Writes (scanAllocate n cluster) := by
  induction n generalizing cluster with
  | zero => exact Keeps.pure _
  | succ n ih =>
      rw [scanAllocate]
      apply Keeps.bind (keeps_within (Keeps.of_readOnly (readFatEntry_readOnly _)) _)
      intro entry
      apply Keeps.ite
      · apply Keeps.bind (keeps_within (writeFatEntry_writes _ _) _)
        intro ok
        exact Keeps.ite (Keeps.pure _) (Keeps.pure _)
      · exact ih _

theorem allocateNewCluster_writes : Writes allocateNewCluster := by
  unfold allocateNewCluster
  apply Keeps.bind Keeps.get
  intro s
  exact scanAllocate_writes _ _

theorem freeChainLoop_writes (k i current : Nat) : Writes (freeChainLoop k i current) := by
  induction k generalizing i current with
  | zero => exact Keeps.diverge
  | succ k ih =>
      rw [freeChainLoop]
      apply Keeps.bind
        (keeps_within (keeps_within (Keeps.of_readOnly (getNextClusterInChain_readOnly _)) _) _)
      intro nextCluster
      apply Keeps.bind (keeps_within (keeps_within (markClusterInFat_writes _ _) _) _)
      intro ok
      apply Keeps.ite (Keeps.pure _)
      apply Keeps.ite (Keeps.pure _)
      apply Keeps.bind Keeps.get
      intro s
      exact Keeps.ite (Keeps.pure _) (ih _ _)

theorem freeClusterChain_writes (startCluster : Nat) : Writes (freeClusterChain startCluster) := by
  unfold freeClusterChain
  apply Keeps.bind Keeps.get
  intro s
  exact Keeps.ite (Keeps.pure _) (freeChainLoop_writes _ _ _)

theorem writeSectors_writes (firstSector : Nat) (b : Bytes) (n i : Nat) :
    Writes (writeSectors firstSector b n i) := by
  induction n generalizing i with
  | zero => exact Keeps.pure _
  | succ n ih =>
      rw [writeSectors]
      apply Keeps.bind Keeps.get
      intro s
      apply Keeps.bind (writeVerified_writes _ _ _ _)
      intro ok
      exact Keeps.ite (Keeps.pure _) (ih _)

theorem writeCluster_writes (cluster : Nat) (b : Bytes) : Writes (writeCluster cluster b) := by
  unfold writeCluster
  apply Keeps.bind Keeps.get
  intro s
  exact writeSectors_writes _ _ _ _

theorem readSectors_readOnly (startSector n i : Nat) (b : Bytes) :
    ReadOnly (readSectors startSector n i b) := by
  induction n generalizing i b with
  | zero => exact Keeps.pure _
  | succ n ih =>
      rw [readSectors]
      apply Keeps.bind (readSector_readOnly _ _ _ _)
      intro r
      exact ih _ _

theorem readSectorsInto_readOnly (size startSector n i : Nat) (b : Bytes) :
    ReadOnly (readSectorsInto size startSector n i b) := by
  induction n generalizing i b with
  | zero => exact Keeps.pure _
  | succ n ih =>
      rw [readSectorsInto]
      apply Keeps.bind (readSector_readOnly _ _ _ _)
      intro r
      apply Keeps.bind (Keeps.ite (Keeps.pure _) Keeps.diverge)
      intro _
      exact ih _ _

theorem readCluster_readOnly (cluster : Nat) (b : Bytes) : ReadOnly (readCluster cluster b) := by
  unfold readCluster
  apply Keeps.bind Keeps.get
  intro s
  apply Keeps.ite (Keeps.pure _)
  exact Keeps.ite (Keeps.pure _) (readSectors_readOnly _ _ _ _)

theorem readSectorsChecked_readOnly (startSector n i : Nat) (b : Bytes) :
    ReadOnly (readSectorsChecked startSector n i b) := by
  induction n generalizing i b with
  | zero => exact Keeps.pure _
  | succ n ih =>
      rw [readSectorsChecked]
      apply Keeps.bind (readSector_readOnly _ _ _ _)
      intro r
      exact Keeps.ite (Keeps.pure _) (ih _ _)

end cluster

/-! ## Directories -/

section directory

theorem findFileInDirectory_readOnly (filename : List UInt8) :
    ReadOnly (findFileInDirectory filename) := by
  unfold findFileInDirectory
  apply Keeps.bind Keeps.get
  intro s
  apply Keeps.bind (Keeps.ask _)
  intro noBuffer
  apply Keeps.ite (Keeps.pure _)
  apply Keeps.bind (uninitialised_readOnly _)
  intro entries
  apply Keeps.bind (readSectorsChecked_readOnly _ _ _ _)
  rintro (_ | entries)
  · exact Keeps.pure _
  · dsimp only
    split
    · apply Keeps.bind (Keeps.ask _)
      intro noResult
      exact Keeps.ite (Keeps.pure _) (Keeps.pure _)
    · exact Keeps.pure _

theorem createDirectoryEntry_readOnly (name : List UInt8) (cluster : Nat) (attributes : UInt8) :
    ReadOnly (createDirectoryEntry name cluster attributes) := by
  unfold createDirectoryEntry
  apply Keeps.bind (Keeps.ask _)
  intro created
  apply Keeps.bind (Keeps.ask _)
  intro accessed
  apply Keeps.bind (Keeps.ask _)
  intro written
  exact Keeps.pure _

theorem addEntryLoop_writes (newEntry : DirEntry) (parentCluster k i : Nat) (added : Bool)
    (current : Nat) (b : Bytes) :
    Writes (addEntryLoop newEntry parentCluster k i added current b) := by
  induction k generalizing i added current b with
  | zero => exact Keeps.diverge
  | succ k ih =>
      rw [addEntryLoop]
      apply Keeps.ite (Keeps.pure _)
      apply Keeps.bind (keeps_within (Keeps.of_readOnly (readCluster_readOnly _ _)) _)
      intro entries
      apply Keeps.bind Keeps.get
      intro s
      split
      · apply Keeps.bind (keeps_within (keeps_within (writeCluster_writes _ _) _) _)
        intro _
        exact Keeps.pure _
      · apply Keeps.ite (Keeps.pure _)
        apply Keeps.bind
          (keeps_within (keeps_within (Keeps.of_readOnly (getNextClusterInChain_readOnly _)) _) _)
        intro nextCluster
        apply Keeps.ite
        · apply Keeps.bind (keeps_within (keeps_within allocateNewCluster_writes _) _)
          intro newCluster
          apply Keeps.ite (Keeps.pure _)
          apply Keeps.bind (keeps_within (keeps_within (markClusterInFat_writes _ _) _) _)
          intro ok
          apply Keeps.ite (Keeps.pure _)
          apply Keeps.bind (keeps_within (keeps_within (writeCluster_writes _ _) _) _)
          intro _
          exact ih _ _ _ _
        · exact ih _ _ _ _

theorem addEntryToDirectory_writes (parentCluster : Nat) (dirname : List UInt8)
    (newDirCluster : Nat) (attributes : UInt8) :
    Writes (addEntryToDirectory parentCluster dirname newDirCluster attributes) := by
  unfold addEntryToDirectory
  apply Keeps.bind (Keeps.of_readOnly (createDirectoryEntry_readOnly _ _ _))
  intro newEntry
  apply Keeps.bind (Keeps.of_readOnly (uninitialised_readOnly _))
  intro entries
  exact addEntryLoop_writes _ _ _ _ _ _ _

theorem removeEntryLoop_writes (entry : DirEntry) (k i current : Nat) (b : Bytes) :
    Writes (removeEntryLoop entry k i current b) := by
  induction k generalizing i current b with
  | zero => exact Keeps.diverge
  | succ k ih =>
      rw [removeEntryLoop]
      apply Keeps.ite (Keeps.pure _)
      apply Keeps.bind (keeps_within (Keeps.of_readOnly (readCluster_readOnly _ _)) _)
      intro entries
      apply Keeps.bind Keeps.get
      intro s
      split
      · apply Keeps.bind (keeps_within (keeps_within (writeCluster_writes _ _) _) _)
        intro _
        exact Keeps.pure _
      · apply Keeps.bind
          (keeps_within (keeps_within (Keeps.of_readOnly (getNextClusterInChain_readOnly _)) _) _)
        intro nextCluster
        exact ih _ _ _

theorem removeEntryFromDirectory_writes (parentCluster : Nat) (entry : DirEntry) :
    Writes (removeEntryFromDirectory parentCluster entry) := by
  unfold removeEntryFromDirectory
  apply Keeps.bind (Keeps.of_readOnly (uninitialised_readOnly _))
  intro entries
  exact removeEntryLoop_writes _ _ _ _ _

/-- A part of an operation that gives a cluster back and fails. -/
theorem rollback_writes (cluster : Nat) :
    Writes (do
      let _ ← within .rollback (markClusterInFat cluster 0)
      return false) := by
  apply Keeps.bind (keeps_within (markClusterInFat_writes _ _) _)
  intro _
  exact Keeps.pure _

/-- The end of an operation that has succeeded. -/
theorem sync_writes :
    Writes (do
      let _ ← within .sync writeFsinfo
      return true) := by
  apply Keeps.bind (keeps_within writeFsinfo_writes _)
  intro _
  exact Keeps.pure _

theorem fat32CreateFile_writes (filename : List UInt8) : Writes (fat32CreateFile filename) := by
  unfold fat32CreateFile
  apply Keeps.bind findFreeCluster_writes
  intro newFileCluster
  apply Keeps.ite (Keeps.pure _)
  apply Keeps.bind (keeps_within (markClusterInFat_writes _ _) _)
  intro ok
  apply Keeps.ite (Keeps.pure _)
  apply Keeps.bind Keeps.get
  intro s
  apply Keeps.bind (keeps_within (addEntryToDirectory_writes _ _ _ _) _)
  intro ok
  exact Keeps.ite (rollback_writes _) sync_writes

theorem initializeNewDirectoryEntries_readOnly (newDirCluster parentCluster : Nat) :
    ReadOnly (initializeNewDirectoryEntries newDirCluster parentCluster) := by
  unfold initializeNewDirectoryEntries
  apply Keeps.bind (keeps_within (createDirectoryEntry_readOnly _ _ _) _)
  intro dot
  apply Keeps.bind (keeps_within (createDirectoryEntry_readOnly _ _ _) _)
  intro dotDot
  exact Keeps.pure _

theorem fat32CreateDir_writes (dirname : List UInt8) : Writes (fat32CreateDir dirname) := by
  unfold fat32CreateDir
  apply Keeps.bind findFreeCluster_writes
  intro newDirCluster
  apply Keeps.ite (Keeps.pure _)
  apply Keeps.bind (keeps_within (markClusterInFat_writes _ _) _)
  intro ok
  apply Keeps.ite (Keeps.pure _)
  apply Keeps.bind Keeps.get
  intro s
  apply Keeps.bind (keeps_within (Keeps.of_readOnly (initializeNewDirectoryEntries_readOnly _ _)) _)
  intro dirEntries
  apply Keeps.bind (keeps_within (writeCluster_writes _ _) _)
  intro ok
  apply Keeps.ite (rollback_writes _)
  apply Keeps.bind (keeps_within (addEntryToDirectory_writes _ _ _ _) _)
  intro ok
  exact Keeps.ite (rollback_writes _) sync_writes

theorem freeAndRemove_writes (entry : DirEntry) : Writes (freeAndRemove entry) := by
  unfold freeAndRemove
  apply Keeps.bind (keeps_within (freeClusterChain_writes _) _)
  intro ok
  apply Keeps.ite (Keeps.pure _)
  apply Keeps.bind Keeps.get
  intro s
  apply Keeps.bind (keeps_within (removeEntryFromDirectory_writes _ _) _)
  intro ok
  exact Keeps.ite (Keeps.pure _) sync_writes

theorem fat32DeleteFile_writes (filename : List UInt8) : Writes (fat32DeleteFile filename) := by
  unfold fat32DeleteFile
  apply Keeps.bind (keeps_within (Keeps.of_readOnly (findFileInDirectory_readOnly _)) _)
  rintro (_ | entry)
  · exact Keeps.pure _
  · exact freeAndRemove_writes _

theorem isDirectoryEmpty_readOnly (entry : DirEntry) : ReadOnly (isDirectoryEmpty entry) := by
  unfold isDirectoryEmpty
  apply Keeps.bind Keeps.get
  intro s
  apply Keeps.bind (uninitialised_readOnly _)
  intro entries
  apply Keeps.bind (readSectorsInto_readOnly _ _ _ _ _)
  intro entries
  split
  · exact Keeps.pure _
  · exact Keeps.pure _

theorem fat32DeleteDir_writes (dirname : List UInt8) : Writes (fat32DeleteDir dirname) := by
  unfold fat32DeleteDir
  apply Keeps.bind (keeps_within (Keeps.of_readOnly (findFileInDirectory_readOnly _)) _)
  rintro (_ | entry)
  · exact Keeps.pure _
  · apply Keeps.bind (keeps_within (Keeps.of_readOnly (isDirectoryEmpty_readOnly _)) _)
    intro ok
    exact Keeps.ite (Keeps.pure _) (freeAndRemove_writes _)

/-- **The operations on a directory write to one drive**, whatever the state they start in. -/
theorem DirOp.call_writes (op : DirOp) (nm : List UInt8) : Writes (op.call nm) := by
  cases op with
  | createFile => exact fat32CreateFile_writes nm
  | createDir => exact fat32CreateDir_writes nm
  | deleteFile => exact fat32DeleteFile_writes nm
  | deleteDir => exact fat32DeleteDir_writes nm

/-- The reads of `is_directory_empty` leave the stack alone, or `fat32_delete_dir` finds nothing. -/
def DirOp.Contained (op : DirOp) (nm : List UInt8) (e : Env) (s : Fs) : Prop :=
  op = .deleteDir → (e.enter .empty).StoresOne s.bootSector.sectorsPerCluster ∨
    ∀ x s₁, (findFileInDirectory nm).run (e.enter .find) s ≠ some (some x, s₁)

theorem DirOp.overruns_iff_not_contained (op : DirOp) (nm : List UInt8) (e : Env) (s : Fs) :
    op.Overruns nm e s ↔ ¬ op.Contained nm e s := by
  constructor
  · rintro ⟨rfl, x, s₁, hfind, hempty⟩ hok
    obtain rfl := (findFileInDirectory_readOnly nm).related _ _ _ _ hfind
    rcases hok rfl with hroom | hno
    · obtain ⟨b, hb⟩ := isDirectoryEmpty_returns s x hroom
      rw [hb] at hempty
      cases hempty
    · exact hno x s hfind
  · intro hbad
    unfold DirOp.Contained at hbad
    push Not at hbad
    obtain ⟨rfl, hroom, x, s₁, hfind⟩ := hbad
    obtain rfl := (findFileInDirectory_readOnly nm).related _ _ _ _ hfind
    exact ⟨rfl, x, s, hfind, run_isDirectoryEmpty_none x hroom⟩

/-- A call that leaves the stack alone writes to one drive. -/
theorem DirOp.Leaves.footprint {op : DirOp} {nm : List UInt8} {e : Env} {s s' : Fs}
    (hl : op.Leaves nm e s s') (hok : op.Contained nm e s) : s.Footprint s' := by
  cases hl with
  | returned hrun => exact (op.call_writes nm).related e s _ s' hrun
  | overrun ho => exact absurd hok ((op.overruns_iff_not_contained nm e s).mp ho)

end directory

/-! ## What the adapter changes -/

/-- What may have changed is the current drive. -/
def Fs.OnlyDrive (s s' : Fs) : Prop := ∃ drive, s' = { s with currentDrive := drive }

instance : Std.Refl Fs.OnlyDrive := ⟨fun s => ⟨s.currentDrive, rfl⟩⟩

instance : IsTrans Fs Fs.OnlyDrive where
  trans := by
    rintro s₁ s₂ s₃ ⟨drive, rfl⟩ ⟨drive', rfl⟩
    exact ⟨drive', rfl⟩

section changes

open Adapter

theorem readFileSectors_readOnly (sectorNumber bufferSize bytesToRead n j total : Nat) (b : Bytes) :
    ReadOnly (readFileSectors sectorNumber bufferSize bytesToRead n j total b) := by
  induction n generalizing j total b with
  | zero => exact Keeps.pure _
  | succ n ih =>
      rw [readFileSectors]
      apply Keeps.ite (Keeps.pure _)
      apply Keeps.ite (Keeps.pure _)
      apply Keeps.bind (uninitialised_readOnly _)
      intro sectorBuffer
      apply Keeps.bind (readSector_readOnly _ _ _ _)
      intro r
      apply Keeps.ite (Keeps.pure _)
      exact Keeps.ite (Keeps.pure _) (ih _ _ _)

theorem readFileLoop_readOnly (bufferSize bytesToRead k j current total : Nat) (b : Bytes) :
    ReadOnly (readFileLoop bufferSize bytesToRead k j current total b) := by
  induction k generalizing j current total b with
  | zero => exact Keeps.diverge
  | succ k ih =>
      rw [readFileLoop]
      apply Keeps.ite (Keeps.pure _)
      apply Keeps.bind Keeps.get
      intro s
      apply Keeps.bind (keeps_within (readFileSectors_readOnly _ _ _ _ _ _ _) _)
      intro r
      apply Keeps.ite (Keeps.pure _)
      apply Keeps.bind (keeps_within (keeps_within (getNextClusterInChain_readOnly _) _) _)
      intro next
      exact Keeps.ite (Keeps.pure _) (ih _ _ _ _)

theorem setCurrentDrive_onlyDrive (drive : Drive) :
    Keeps Fs.OnlyDrive (setCurrentDrive drive) :=
  Keeps.modify fun _ => ⟨drive, rfl⟩

theorem fat32VfsOpen_onlyDrive (fs : Vfs.Filesystem sig) (path : List UInt8) :
    Keeps Fs.OnlyDrive (fat32VfsOpen fs path) := by
  unfold fat32VfsOpen
  apply Keeps.bind (setCurrentDrive_onlyDrive _)
  intro _
  apply Keeps.ite
  · split
    · exact Keeps.diverge
    · exact Keeps.pure _
  · apply Keeps.bind (keeps_within (Keeps.of_readOnly (findFileInDirectory_readOnly _)) _)
    rintro (_ | x)
    · exact Keeps.pure _
    · apply Keeps.bind (Keeps.ask _)
      intro noMemory
      exact Keeps.ite (Keeps.pure _) (Keeps.pure _)

theorem fat32VfsRead_onlyDrive (node : Vfs.Node sig) (offset size : Nat) (b : Bytes) :
    Keeps Fs.OnlyDrive (fat32VfsRead node offset size b) := by
  unfold fat32VfsRead
  apply Keeps.ite (Keeps.pure _)
  apply Keeps.bind (setCurrentDrive_onlyDrive _)
  intro _
  apply Keeps.bind
  · apply Keeps.of_readOnly
    unfold readFileData
    exact Keeps.ite (Keeps.pure _) (readFileLoop_readOnly _ _ _ _ _ _ _)
  · intro r
    exact Keeps.pure _

theorem fat32VfsReaddir_onlyDrive (node : Vfs.Node sig) (index : Nat) :
    Keeps Fs.OnlyDrive (Adapter.fat32VfsReaddir node index) := by
  unfold Adapter.fat32VfsReaddir
  apply Keeps.ite (Keeps.pure _)
  apply Keeps.bind (setCurrentDrive_onlyDrive _)
  intro _
  apply Keeps.bind Keeps.get
  intro s
  apply Keeps.bind (Keeps.ask _)
  intro noBuffer
  apply Keeps.ite (Keeps.pure _)
  apply Keeps.bind (Keeps.of_readOnly (uninitialised_readOnly _))
  intro entries
  apply Keeps.bind (Keeps.of_readOnly (readSectorsChecked_readOnly _ _ _ _))
  rintro (_ | entries)
  · exact Keeps.pure _
  · dsimp only
    split
    · exact Keeps.pure _
    · exact Keeps.pure _

theorem listPath_onlyDrive (fs : Vfs.Filesystem sig) (path : List UInt8) (index : Nat) :
    Keeps Fs.OnlyDrive (listPath fs path index) := by
  unfold listPath
  apply Keeps.bind (fat32VfsOpen_onlyDrive _ _)
  rintro (err | node)
  · exact Keeps.pure _
  · exact Keeps.ite (Keeps.pure _) (fat32VfsReaddir_onlyDrive _ _)

end changes

/-! ## What the adapter looks at

Opening, reading and listing do not look at FSInfo, nor at the base address that writes go to. -/

/-- The state with another FSInfo and another base address for writes. -/
def Fs.withInfo (i : Sector) (v : Bool) (a : Nat) (s : Fs) : Fs :=
  { s with fsinfo := i, fsinfoValid := v, ataBaseAddress := a }

section looks

open Adapter

variable {i : Sector} {v : Bool} {a : Nat}

theorem uninitialised_ignores (l : Label) : Ignores (Fs.withInfo i v a) (uninitialised l) :=
  Ignores.ask _

theorem readSector_ignores (l : Label) (lba : Nat) (b : Bytes) (x : Nat) :
    Ignores (Fs.withInfo i v a) (readSector l lba b x) := by
  unfold readSector
  refine Ignores.get_bind (fun _ => rfl) ?_
  intro s
  unfold ataReadSector
  apply Ignores.bind (Ignores.ask _)
  intro failed
  apply Ignores.ite (Ignores.pure _)
  refine Ignores.get_bind (fun _ => rfl) ?_
  intro s
  exact Ignores.pure _

theorem readSectorsChecked_ignores (startSector n j : Nat) (b : Bytes) :
    Ignores (Fs.withInfo i v a) (readSectorsChecked startSector n j b) := by
  induction n generalizing j b with
  | zero => exact Ignores.pure _
  | succ n ih =>
      rw [readSectorsChecked]
      apply Ignores.bind (readSector_ignores _ _ _ _)
      intro r
      exact Ignores.ite (Ignores.pure _) (ih _ _)

theorem findFileInDirectory_ignores (filename : List UInt8) :
    Ignores (Fs.withInfo i v a) (findFileInDirectory filename) := by
  unfold findFileInDirectory
  refine Ignores.get_bind (fun _ => rfl) ?_
  intro s
  apply Ignores.bind (Ignores.ask _)
  intro noBuffer
  apply Ignores.ite (Ignores.pure _)
  apply Ignores.bind (uninitialised_ignores _)
  intro entries
  apply Ignores.bind (readSectorsChecked_ignores _ _ _ _)
  rintro (_ | entries)
  · exact Ignores.pure _
  · dsimp only
    split
    · apply Ignores.bind (Ignores.ask _)
      intro noResult
      exact Ignores.ite (Ignores.pure _) (Ignores.pure _)
    · exact Ignores.pure _

theorem getNextClusterInChain_ignores (cluster : Nat) :
    Ignores (Fs.withInfo i v a) (getNextClusterInChain cluster) := by
  unfold getNextClusterInChain
  refine Ignores.get_bind (fun _ => rfl) ?_
  intro s
  apply Ignores.bind (uninitialised_ignores _)
  intro buffer
  apply Ignores.bind (readSector_ignores _ _ _ _)
  intro r
  apply Ignores.ite (Ignores.pure _)
  exact Ignores.ite (Ignores.pure _) (Ignores.pure _)

theorem readFileSectors_ignores (sectorNumber bufferSize bytesToRead n j total : Nat) (b : Bytes) :
    Ignores (Fs.withInfo i v a)
      (readFileSectors sectorNumber bufferSize bytesToRead n j total b) := by
  induction n generalizing j total b with
  | zero => exact Ignores.pure _
  | succ n ih =>
      rw [readFileSectors]
      apply Ignores.ite (Ignores.pure _)
      apply Ignores.ite (Ignores.pure _)
      apply Ignores.bind (uninitialised_ignores _)
      intro sectorBuffer
      apply Ignores.bind (readSector_ignores _ _ _ _)
      intro r
      apply Ignores.ite (Ignores.pure _)
      exact Ignores.ite (Ignores.pure _) (ih _ _ _)

theorem readFileLoop_ignores (bufferSize bytesToRead k j current total : Nat) (b : Bytes) :
    Ignores (Fs.withInfo i v a)
      (readFileLoop bufferSize bytesToRead k j current total b) := by
  induction k generalizing j current total b with
  | zero => exact Ignores.diverge
  | succ k ih =>
      rw [readFileLoop]
      apply Ignores.ite (Ignores.pure _)
      refine Ignores.get_bind (fun _ => rfl) ?_
      intro s
      apply Ignores.bind (Ignores.under (readFileSectors_ignores _ _ _ _ _ _ _) _)
      intro r
      apply Ignores.ite (Ignores.pure _)
      apply Ignores.bind (Ignores.under (Ignores.under (getNextClusterInChain_ignores _) _) _)
      intro next
      exact Ignores.ite (Ignores.pure _) (ih _ _ _ _)

theorem setCurrentDrive_ignores (drive : Drive) :
    Ignores (Fs.withInfo i v a) (setCurrentDrive drive) :=
  Ignores.modify fun _ => rfl

theorem fat32VfsOpen_ignores (fs : Vfs.Filesystem sig) (path : List UInt8) :
    Ignores (Fs.withInfo i v a) (fat32VfsOpen fs path) := by
  unfold fat32VfsOpen
  apply Ignores.bind (setCurrentDrive_ignores _)
  intro _
  apply Ignores.ite
  · split
    · exact Ignores.diverge
    · exact Ignores.pure _
  · apply Ignores.bind (Ignores.under (findFileInDirectory_ignores _) _)
    rintro (_ | x)
    · exact Ignores.pure _
    · apply Ignores.bind (Ignores.ask _)
      intro noMemory
      exact Ignores.ite (Ignores.pure _) (Ignores.pure _)

theorem fat32VfsRead_ignores (node : Vfs.Node sig) (offset size : Nat) (b : Bytes) :
    Ignores (Fs.withInfo i v a) (fat32VfsRead node offset size b) := by
  unfold fat32VfsRead
  apply Ignores.ite (Ignores.pure _)
  apply Ignores.bind (setCurrentDrive_ignores _)
  intro _
  apply Ignores.bind
  · unfold readFileData
    exact Ignores.ite (Ignores.pure _) (readFileLoop_ignores _ _ _ _ _ _ _)
  · intro r
    exact Ignores.pure _

theorem fat32VfsReaddir_ignores (node : Vfs.Node sig) (index : Nat) :
    Ignores (Fs.withInfo i v a) (Adapter.fat32VfsReaddir node index) := by
  unfold Adapter.fat32VfsReaddir
  apply Ignores.ite (Ignores.pure _)
  apply Ignores.bind (setCurrentDrive_ignores _)
  intro _
  refine Ignores.get_bind (fun _ => rfl) ?_
  intro s
  apply Ignores.bind (Ignores.ask _)
  intro noBuffer
  apply Ignores.ite (Ignores.pure _)
  apply Ignores.bind (uninitialised_ignores _)
  intro entries
  apply Ignores.bind (readSectorsChecked_ignores _ _ _ _)
  rintro (_ | entries)
  · exact Ignores.pure _
  · dsimp only
    split
    · exact Ignores.pure _
    · exact Ignores.pure _

theorem listPath_ignores (fs : Vfs.Filesystem sig) (path : List UInt8) (index : Nat) :
    Ignores (Fs.withInfo i v a) (listPath fs path index) := by
  unfold listPath
  apply Ignores.bind (fat32VfsOpen_ignores _ _)
  rintro (err | node)
  · exact Ignores.pure _
  · exact Ignores.ite (Ignores.pure _) (fat32VfsReaddir_ignores _ _)

end looks

end MicroKernel.Fat32
