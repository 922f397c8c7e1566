import MicroKernel.Fat32.Cluster

set_option autoImplicit false

/-! # Directories and files (`fat32_dir.c`, `fat32_files.c`, `fat32_vfs_adapter.c`)

The operations of the driver on the current directory, and the three functions that look
through a directory: `find_file_in_directory`, `find_next_cluster` and `fat32_vfs_readdir`.
-/

namespace MicroKernel.Fat32

open MicroKernel.Lib Bytes

/-! ## Looking through entries -/

/-- How a scan of some entries of a directory ends. -/
inductive Scan where
  /-- An entry is accepted. -/
  | found (e : DirEntry)
  /-- The end-of-directory marker is met. -/
  | ended
  /-- All entries have been looked at. -/
  | more

/-- Look at the `n` entries from `j` on: stop at the end of the directory, pass over what `skip`
says, stop at the first other entry that `accept` likes. -/
def scanEntries (skip accept : DirEntry → Bool) (entries : Bytes) : Nat → Nat → Scan
  | 0, _ => .more
  | n + 1, j =>
      if (entryAt entries j).isEnd then .ended
      else if skip (entryAt entries j) then scanEntries skip accept entries n (j + 1)
      else if accept (entryAt entries j) then .found (entryAt entries j)
      else scanEntries skip accept entries n (j + 1)

/-- What `find_file_in_directory` and `find_next_cluster` pass over. -/
def skipDeletedLfn (e : DirEntry) : Bool := e.isDeleted || e.isLfn

/-- What `is_directory_empty` passes over. -/
def skipDots (e : DirEntry) : Bool :=
  e.isDeleted || e.isLfn || e.name 0 == 0x2E || e.name 1 == 0x2E

/-- What `fat32_vfs_readdir` passes over. -/
def skipReaddir (e : DirEntry) : Bool := e.isDeleted || e.attr == 0x0F || (e.attr &&& 0x08) != 0

/-- `find_file_in_directory`. -/
def findFileInDirectory (filename : List UInt8) : Io (Option DirEntry) := do
  let s ← Prog.get
  let sector := s.clusterToSector s.currentDirectoryCluster
  if (← Prog.ask fun e => e.outOfMemory (.load 0 :: e.path)) then return none
  let entries ← uninitialised (.load 0)
  match ← readSectorsChecked sector s.bootSector.sectorsPerCluster 0 entries with
  | none => return none
  | some entries =>
      match scanEntries skipDeletedLfn (fun e => compareNames e.name filename) entries
          (s.bootSector.sectorsPerCluster * 16) 0 with
      | .found e =>
          if (← Prog.ask fun e => e.outOfMemory (.store 0 :: e.path)) then return none
          return some e
      | _ => return none

/-- The loop of `find_next_cluster` over the sectors of one cluster. -/
def scanSectors (dirName : List UInt8) (sector : Nat) : Nat → Nat → Bytes → Io (Scan × Bytes)
  | 0, _, entries => return (.more, entries)
  | n + 1, i, entries => do
      let (ok, entries) ← readSector (.load i) (u32 (sector + i)) entries 0
      if !ok then return (.ended, entries)
      match scanEntries skipDeletedLfn (fun e => e.isDirectory && compareNames e.name dirName)
          entries 16 0 with
      | .more => scanSectors dirName sector n (i + 1) entries
      | r => return (r, entries)

/-- The loop of `find_next_cluster` along the chain of the directory. -/
def findNextLoop (dirName : List UInt8) : Nat → Nat → Nat → Bytes → Io Nat
  | 0, _, _, _ => Prog.diverge
  | k + 1, i, current, entries => do
      let s ← Prog.get
      let (r, entries) ← within (.cluster i)
        (scanSectors dirName (s.clusterToSector current) s.bootSector.sectorsPerCluster 0 entries)
      match r with
      | .found e => return readStartCluster e
      | .ended => return invalidCluster
      | .more =>
          let nextCluster ← within (.cluster i) (within .next (getNextClusterInChain current))
          if nextCluster < eocMin then findNextLoop dirName k (i + 1) nextCluster entries
          else return invalidCluster

/-- `find_next_cluster`. -/
def findNextCluster (dirName : List UInt8) (currentCluster : Nat) : Io Nat := do
  let entries ← uninitialised (.load 0)
  findNextLoop dirName steps 0 currentCluster entries

/-- The loop of `fat32_vfs_readdir` over the entries of the cluster. -/
def nthEntry (entries : Bytes) (index : Nat) : Nat → Nat → Nat → Option DirEntry
  | 0, _, _ => none
  | n + 1, j, currentIndex =>
      if (entryAt entries j).isEnd then none
      else if skipReaddir (entryAt entries j) then nthEntry entries index n (j + 1) currentIndex
      else if currentIndex = index then some (entryAt entries j)
      else nthEntry entries index n (j + 1) (currentIndex + 1)

/-- `fat32_vfs_readdir` on the directory node of cluster `inode`: the entry it reports. -/
def fat32VfsReaddir (inode index : Nat) : Io (Option DirEntry) := do
  let s ← Prog.get
  let sector := s.clusterToSector inode
  if (← Prog.ask fun e => e.outOfMemory (.load 0 :: e.path)) then return none
  let entries ← uninitialised (.load 0)
  match ← readSectorsChecked sector s.bootSector.sectorsPerCluster 0 entries with
  | none => return none
  | some entries => return nthEntry entries index (s.bootSector.sectorsPerCluster * 16) 0 0

/-! ## Changing a directory -/

/-- The first free slot among the first `n` entries. -/
def freeSlot (entries : Bytes) (n : Nat) : Option Nat :=
  (List.range n).find? fun j => (entryAt entries j).isEnd || (entryAt entries j).isDeleted

/-- The loop of `add_entry_to_directory`. -/
def addEntryLoop (newEntry : DirEntry) (parentCluster : Nat) :
    Nat → Nat → Bool → Nat → Bytes → Io Bool
  | 0, _, _, _, _ => Prog.diverge
  | k + 1, i, entryAdded, current, entries => do
      if ¬ current < eocMin then return entryAdded
      let entries ← within (.cluster i) (readCluster current entries)
      let s ← Prog.get
      match freeSlot entries s.bootSector.getEntriesPerCluster with
      | some j =>
          -- the result of the write is not looked at
          let _ ← within (.cluster i) (within .write
            (writeCluster current (setEntry entries j newEntry)))
          return true
      | none =>
          if entryAdded then return true
          let nextCluster ← within (.cluster i) (within .next (getNextClusterInChain current))
          if isEndOfClusterChain nextCluster then
            let newCluster ← within (.cluster i) (within .mark allocateNewCluster)
            if newCluster = invalidCluster then return false
            if !(← within (.cluster i) (within .link (markClusterInFat parentCluster newCluster)))
              then return false
            let entries := setEntry (fill entries 0 (32 * s.bootSector.getEntriesPerCluster) 0) 0
              newEntry
            let _ ← within (.cluster i) (within .write (writeCluster newCluster entries))
            addEntryLoop newEntry parentCluster k (i + 1) true newCluster entries
          else addEntryLoop newEntry parentCluster k (i + 1) entryAdded nextCluster entries

/-- `add_entry_to_directory`. -/
def addEntryToDirectory (parentCluster : Nat) (dirname : List UInt8) (newDirCluster : Nat)
    (attributes : UInt8) : Io Bool := do
  let newEntry ← createDirectoryEntry dirname newDirCluster attributes
  let entries ← uninitialised .insert
  addEntryLoop newEntry parentCluster steps 0 false parentCluster entries

/-- The first of the first `n` entries that equals `entry`. -/
def slotOf (entry : DirEntry) (entries : Bytes) (n : Nat) : Option Nat :=
  (List.range n).find? fun j => entryAt entries j = entry

/-- The loop of `remove_entry_from_directory`. -/
def removeEntryLoop (entry : DirEntry) : Nat → Nat → Nat → Bytes → Io Bool
  | 0, _, _, _ => Prog.diverge
  | k + 1, i, current, entries => do
      if ¬ current < eocMin then return false
      let entries ← within (.cluster i) (readCluster current entries)
      let s ← Prog.get
      match slotOf entry entries s.bootSector.getEntriesPerCluster with
      | some j =>
          -- the result of the write is not looked at
          let _ ← within (.cluster i) (within .write
            (writeCluster current (setEntry entries j zeroEntry)))
          return true
      | none =>
          let nextCluster ← within (.cluster i) (within .next (getNextClusterInChain current))
          removeEntryLoop entry k (i + 1) nextCluster entries

/-- `remove_entry_from_directory`. -/
def removeEntryFromDirectory (parentCluster : Nat) (entry : DirEntry) : Io Bool := do
  let entries ← uninitialised .remove
  removeEntryLoop entry steps 0 parentCluster entries

/-! ## The operations -/

/-- `fat32_create_file`. -/
def fat32CreateFile (filename : List UInt8) : Io Bool := do
  let newFileCluster ← findFreeCluster
  if newFileCluster = invalidCluster then return false
  if !(← within .mark (markClusterInFat newFileCluster eocMax)) then return false
  let s ← Prog.get
  if !(← within .insert
      (addEntryToDirectory s.currentDirectoryCluster filename newFileCluster 0)) then
    let _ ← within .rollback (markClusterInFat newFileCluster 0)
    return false
  let _ ← within .sync writeFsinfo
  return true

/-- `initialize_new_directory_entries` on an array of zeros. -/
def initializeNewDirectoryEntries (newDirCluster parentCluster : Nat) : Io Bytes := do
  let dot ← within (.cluster 0) (createDirectoryEntry [0x2E] newDirCluster 0x10)
  let dotDot ← within (.cluster 1) (createDirectoryEntry [0x2E, 0x2E] parentCluster 0x10)
  return setEntry (setEntry (fun _ => 0) 0 dot) 1 dotDot

/-- `fat32_create_dir`. -/
def fat32CreateDir (dirname : List UInt8) : Io Bool := do
  let newDirCluster ← findFreeCluster
  if newDirCluster = invalidCluster then return false
  if !(← within .mark (markClusterInFat newDirCluster eocMax)) then return false
  let s ← Prog.get
  let dirEntries ← within .init
    (initializeNewDirectoryEntries newDirCluster s.currentDirectoryCluster)
  if !(← within .init (writeCluster newDirCluster dirEntries)) then
    let _ ← within .rollback (markClusterInFat newDirCluster 0)
    return false
  if !(← within .insert
      (addEntryToDirectory s.currentDirectoryCluster dirname newDirCluster 0x10)) then
    let _ ← within .rollback (markClusterInFat newDirCluster 0)
    return false
  let _ ← within .sync writeFsinfo
  return true

/-- What `fat32_delete_file` and `fat32_delete_dir` do with the entry found. -/
def freeAndRemove (entry : DirEntry) : Io Bool := do
  if !(← within .free (freeClusterChain (readStartCluster entry))) then return false
  let s ← Prog.get
  if !(← within .remove (removeEntryFromDirectory s.currentDirectoryCluster entry)) then
    return false
  let _ ← within .sync writeFsinfo
  return true

/-- `fat32_delete_file`. -/
def fat32DeleteFile (filename : List UInt8) : Io Bool := do
  match ← within .find (findFileInDirectory filename) with
  | none => return false
  | some entry => freeAndRemove entry

/-- `is_directory_empty`. The array has room for one sector, and all sectors of the cluster are read
into it. -/
def isDirectoryEmpty (entry : DirEntry) : Io Bool := do
  let s ← Prog.get
  let sector := s.clusterToSector (readStartCluster entry)
  let entries ← uninitialised (.load 0)
  let entries ← readSectorsInto 512 sector s.bootSector.sectorsPerCluster 0 entries
  match scanEntries skipDots (fun _ => true) entries 16 0 with
  | .found _ => return false
  | _ => return true

/-- `fat32_delete_dir`. -/
def fat32DeleteDir (dirname : List UInt8) : Io Bool := do
  match ← within .find (findFileInDirectory dirname) with
  | none => return false
  | some entry =>
      if !(← within .empty (isDirectoryEmpty entry)) then return false
      freeAndRemove entry

/-- The components of a path: what `strtok_r` with the delimiter `/` returns one by one. -/
def tokens (path : List UInt8) : List (List UInt8) := (path.splitOn 0x2F).filter (· ≠ [])

/-- The loop of `fat32_change_directory`; `none` when a component is not found. -/
def followPath : List (List UInt8) → Nat → Nat → Io (Option Nat)
  | [], _, target => return some target
  | token :: rest, i, target => do
      let target ← within (.component i) (findNextCluster token target)
      if target = invalidCluster then return none
      followPath rest (i + 1) target

/-- `fat32_change_directory`. The path is cut after 255 characters. -/
def fat32ChangeDirectory (path : List UInt8) : Io Bool := do
  let s ← Prog.get
  let path := (path.takeWhile (· ≠ 0)).take 255
  let start := if path.head? = some 0x2F then s.bootSector.rootCluster
    else s.currentDirectoryCluster
  match ← followPath (tokens path) 0 start with
  | none => return false
  | some target =>
      Prog.modify fun s => { s with currentDirectoryCluster := target }
      return true

end MicroKernel.Fat32
