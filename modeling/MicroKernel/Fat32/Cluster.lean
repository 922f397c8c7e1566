import MicroKernel.Fat32.Entry
import MicroKernel.Lib.Checked

set_option autoImplicit false

/-! # Clusters and the file allocation table (`fat32_cluster.c`, `fat32.c`)

The functions below the directory operations: geometry, FAT entries, chains, whole clusters and
FSInfo. Unsigned arithmetic wraps at 32 bits. A walk along a chain is a recursion bounded by
`steps`; a walk that is still not done then never is.
-/

namespace MicroKernel.Fat32

open MicroKernel.Lib Bytes

/-! ## Constants and geometry -/

/-- `FAT32_EOC_MIN`. -/
def eocMin : Nat := 0x0FFFFFF8

/-- `FAT32_EOC_MAX`. -/
def eocMax : Nat := 0x0FFFFFFF

/-- `INVALID_CLUSTER`. -/
def invalidCluster : Nat := 0xFFFFFFFF

/-- Bound on the length of a walk along a chain. -/
def steps : Nat := 2 ^ 32

namespace BootSector

variable (bs : BootSector)

/-- `get_total_clusters`. -/
def getTotalClusters : Nat :=
  if bs.sectorsPerCluster = 0 then 2
  else usub (usub bs.totalSectors32 bs.reservedSectorCount) (u32 (bs.numberOfFats * bs.fatSize32))
    / bs.sectorsPerCluster

/-- `is_valid_cluster`. -/
def isValidCluster (cluster : Nat) : Bool :=
  if cluster < 2 then false
  else if eocMin ≤ cluster then true
  else cluster < bs.getTotalClusters

/-- `get_entries_per_cluster`. -/
def getEntriesPerCluster : Nat :=
  if bs.bytesPerSector = 0 ∨ bs.sectorsPerCluster = 0 then 1
  else bs.bytesPerSector * bs.sectorsPerCluster / 32

end BootSector

/-- `is_end_of_cluster_chain`. -/
def isEndOfClusterChain (cluster : Nat) : Bool := eocMin ≤ cluster && cluster ≤ eocMax

namespace Fs

variable (s : Fs)

/-- `get_first_data_sector`. -/
def getFirstDataSector : Nat :=
  let bs := s.bootSector
  let rootDirSectors := (bs.rootEntryCount * 32 + (bs.bytesPerSector - 1)) / bs.bytesPerSector
  u32 (s.partitionLbaOffset + bs.reservedSectorCount + bs.numberOfFats * bs.fatSize32
    + rootDirSectors)

/-- `cluster_to_sector`. -/
def clusterToSector (cluster : Nat) : Nat :=
  let bs := s.bootSector
  if bs.isValidCluster cluster then
    u32 (s.partitionLbaOffset + (cluster - 2) * bs.sectorsPerCluster
      + (bs.reservedSectorCount + bs.numberOfFats * bs.fatSize32))
  else 0

/-- The sector with the entry of `cluster` in FAT copy `copy`. -/
def fatSector (copy cluster : Nat) : Nat :=
  let bs := s.bootSector
  u32 (s.partitionLbaOffset + bs.reservedSectorCount + copy * bs.fatSize32
    + u32 (cluster * 4) / bs.bytesPerSector)

/-- The offset of the entry of `cluster` in its sector. -/
def entOffset (cluster : Nat) : Nat := u32 (cluster * 4) % s.bootSector.bytesPerSector

end Fs

/-! ## FAT entries -/

/-- `read_fat_entry`. -/
def readFatEntry (cluster : Nat) : Io Nat := do
  let s ← Prog.get
  if cluster < 2 ∨ s.bootSector.getTotalClusters ≤ cluster then return invalidCluster
  let buffer ← uninitialised .fat
  let (ok, buffer) ← readSector .fat (s.fatSector 0 cluster) buffer 0
  if !ok then return invalidCluster
  return load32 buffer (s.entOffset cluster) % 2 ^ 28

/-- `get_next_cluster_in_chain`. -/
def getNextClusterInChain (cluster : Nat) : Io Nat := do
  let s ← Prog.get
  let buffer ← uninitialised .fat
  let (ok, buffer) ← readSector .fat (s.fatSector 0 cluster) buffer 0
  if !ok then return invalidCluster
  let nextCluster := load32 buffer (s.entOffset cluster) % 2 ^ 28
  if eocMin ≤ nextCluster then return invalidCluster
  return nextCluster

/-- `memcmp(a, b, n) == 0`. -/
def memEq (a b : Bytes) (n : Nat) : Prop := ∀ x, x < n → a x = b x

instance (a b : Bytes) (n : Nat) : Decidable (memEq a b n) :=
  inferInstanceAs (Decidable (∀ x, x < n → _))

/-- Write the sector at `&buffer[a]` and read it back. -/
def writeVerified (i lba : Nat) (buffer : Bytes) (a : Nat) : Io Bool := do
  let s ← Prog.get
  if !(← writeSector (.store i) lba buffer a) then return false
  let verify ← uninitialised (.verify i)
  let (ok, verify) ← readSector (.verify i) lba verify 0
  if !ok then return false
  if ¬ memEq (fun x => buffer (a + x)) verify s.bootSector.bytesPerSector then return false
  return true

/-- The loop of `mark_cluster_in_fat` and `write_fat_entry`: the sector in `buffer` is written to
the `n` copies from `copy` on. -/
def writeCopies (cluster : Nat) (buffer : Bytes) : Nat → Nat → Io Bool
  | 0, _ => return true
  | n + 1, copy => do
      let s ← Prog.get
      if !(← writeVerified copy (s.fatSector copy cluster) buffer 0) then return false
      writeCopies cluster buffer n (copy + 1)

/-- The entry with new low 28 bits; the high four bits are reserved and stay. -/
def withLow28 (entry value : Nat) : Nat := entry / 2 ^ 28 * 2 ^ 28 + value % 2 ^ 28

/-- `write_fat_entry`. -/
def writeFatEntry (cluster value : Nat) : Io Bool := do
  let s ← Prog.get
  let buffer ← uninitialised .fat
  let (ok, buffer) ← readSector .fat (s.fatSector 0 cluster) buffer 0
  if !ok then return false
  let a := s.entOffset cluster
  writeCopies cluster (store32 buffer a (withLow28 (load32 buffer a) value))
    s.bootSector.numberOfFats 0

/-! ## FSInfo -/

/-- `fsinfo.free_cluster_count`. -/
def Fs.freeClusterCount (s : Fs) : Nat := s.fsinfo.field 488

/-- `fsinfo.next_free_cluster`. -/
def Fs.nextFreeCluster (s : Fs) : Nat := s.fsinfo.field 492

/-- `update_fsinfo_free_count`. -/
def Fs.updateFsinfoFreeCount (delta : Int) (s : Fs) : Fs :=
  if s.fsinfoValid = false then s
  else if s.freeClusterCount = 0xFFFFFFFF then s
  else if delta < 0 ∧ (s.freeClusterCount : Int) < -delta then
    { s with fsinfo := s.fsinfo.setField 488 0 }
  else { s with fsinfo := s.fsinfo.setField 488 ((s.freeClusterCount + delta) % 2 ^ 32).toNat }

/-- `write_fsinfo`. Its result is not used by any caller. -/
def writeFsinfo : Io Bool := do
  let s ← Prog.get
  if s.fsinfoValid = false then return false
  let fsinfoSector := u32 (s.partitionLbaOffset + s.bootSector.fsInfo)
  if !(← writeSector (.store 0) fsinfoSector (Sector.bytes s.fsinfo) 0) then return false
  let verify ← uninitialised (.verify 0)
  let (ok, verify) ← readSector (.verify 0) fsinfoSector verify 0
  if !ok then return false
  return [0, 484, 508, 488, 492].all fun a => load32 verify a == s.fsinfo.field a

/-- `mark_cluster_in_fat`. -/
def markClusterInFat (cluster value : Nat) : Io Bool := do
  let s ← Prog.get
  if cluster < 2 ∨ s.bootSector.getTotalClusters ≤ cluster then return false
  let buffer ← uninitialised .fat
  let (ok, buffer) ← readSector .fat (s.fatSector 0 cluster) buffer 0
  if !ok then return false
  let a := s.entOffset cluster
  let oldValue := load32 buffer a % 2 ^ 28
  if !(← writeCopies cluster (store32 buffer a (withLow28 (load32 buffer a) value))
      s.bootSector.numberOfFats 0) then return false
  if oldValue = 0 ∧ value ≠ 0 then Prog.modify (Fs.updateFsinfoFreeCount (-1))
  else if oldValue ≠ 0 ∧ value = 0 then Prog.modify (Fs.updateFsinfoFreeCount 1)
  return true

/-! ## Free clusters -/

/-- A loop of `find_free_cluster`: the first of the `n` clusters from `cluster` on whose entry
is zero. A cluster that is found moves the hint behind it. -/
def scanFree (label : Nat → Label) : Nat → Nat → Io (Option Nat)
  | 0, _ => return none
  | n + 1, cluster => do
      if (← within (label cluster) (readFatEntry cluster)) = 0 then
        Prog.modify fun s =>
          if s.fsinfoValid then { s with fsinfo := s.fsinfo.setField 492 (cluster + 1) } else s
        return some cluster
      scanFree label n (cluster + 1)

/-- Where `find_free_cluster` starts. -/
def Fs.searchStart (s : Fs) : Nat :=
  if s.fsinfoValid = true ∧ s.nextFreeCluster ≠ 0xFFFFFFFF ∧ 2 ≤ s.nextFreeCluster
      ∧ s.nextFreeCluster < s.bootSector.getTotalClusters then s.nextFreeCluster
  else 2

/-- `find_free_cluster`. -/
def findFreeCluster : Io Nat := do
  let s ← Prog.get
  let start := s.searchStart
  match ← scanFree .candidate (s.bootSector.getTotalClusters - start) start with
  | some cluster => return cluster
  | none =>
      match ← scanFree .wrapped (start - 2) 2 with
      | some cluster => return cluster
      | none => return invalidCluster

/-- The loop of `allocate_new_cluster`. -/
def scanAllocate : Nat → Nat → Io Nat
  | 0, _ => return invalidCluster
  | n + 1, cluster => do
      if (← within (.candidate cluster) (readFatEntry cluster)) = 0 then
        if ← within .mark (writeFatEntry cluster eocMax) then return cluster
        return invalidCluster
      scanAllocate n (cluster + 1)

/-- `allocate_new_cluster`. -/
def allocateNewCluster : Io Nat := do
  let s ← Prog.get
  scanAllocate (s.bootSector.getTotalClusters - 2) 2

/-! ## Chains -/

/-- The loop of `link_cluster_to_chain`: the last cluster of the chain. -/
def lastOfChain : Nat → Nat → Nat → Io Nat
  | 0, _, _ => Prog.diverge
  | k + 1, i, current => do
      let nextCluster ← within (.cluster i) (getNextClusterInChain current)
      if nextCluster < eocMin then lastOfChain k (i + 1) nextCluster
      else return current

/-- `link_cluster_to_chain`. -/
def linkClusterToChain (parentCluster newCluster : Nat) : Io Bool := do
  let current ← lastOfChain steps 0 parentCluster
  within .mark (markClusterInFat current newCluster)

/-- The loop of `free_cluster_chain`. -/
def freeChainLoop : Nat → Nat → Nat → Io Bool
  | 0, _, _ => Prog.diverge
  | k + 1, i, current => do
      let nextCluster ← within (.cluster i) (within .next (getNextClusterInChain current))
      if !(← within (.cluster i) (within .mark (markClusterInFat current 0))) then return false
      if nextCluster = invalidCluster ∨ isEndOfClusterChain nextCluster then return true
      let s ← Prog.get
      if !s.bootSector.isValidCluster nextCluster then return true
      freeChainLoop k (i + 1) nextCluster

/-- `free_cluster_chain`. -/
def freeClusterChain (startCluster : Nat) : Io Bool := do
  let s ← Prog.get
  if !s.bootSector.isValidCluster startCluster then return false
  freeChainLoop steps 0 startCluster

/-! ## Whole clusters -/

/-- The loop of `write_cluster`: sectors `i` to `i + n - 1` of the cluster. -/
def writeSectors (firstSector : Nat) (entries : Bytes) : Nat → Nat → Io Bool
  | 0, _ => return true
  | n + 1, i => do
      let s ← Prog.get
      if !(← writeVerified i (u32 (firstSector + i)) entries (s.bootSector.bytesPerSector * i))
        then return false
      writeSectors firstSector entries n (i + 1)

/-- `write_cluster`. -/
def writeCluster (cluster : Nat) (entries : Bytes) : Io Bool := do
  let s ← Prog.get
  let first := u32 (usub cluster 2 * s.bootSector.sectorsPerCluster + s.getFirstDataSector)
  writeSectors first entries s.bootSector.sectorsPerCluster 0

/-- The loop of `read_cluster`: a read that fails is passed over. -/
def readSectors (startSector : Nat) : Nat → Nat → Bytes → Io Bytes
  | 0, _, buffer => return buffer
  | n + 1, i, buffer => do
      let (_, buffer) ← readSector (.load i) (u32 (startSector + i)) buffer (512 * i)
      readSectors startSector n (i + 1) buffer

/-- The same loop, into an array of `size` bytes. A read that stores its sector behind the end has no
outcome; one that fails stores nothing. -/
def readSectorsInto (size startSector : Nat) : Nat → Nat → Bytes → Io Bytes
  | 0, _, buffer => return buffer
  | n + 1, i, buffer => do
      let (ok, buffer) ← readSector (.load i) (u32 (startSector + i)) buffer (512 * i)
      Prog.check (ok = true → 512 * i + 512 ≤ size)
      readSectorsInto size startSector n (i + 1) buffer

/-- `read_cluster`: the buffer afterwards. -/
def readCluster (cluster : Nat) (buffer : Bytes) : Io Bytes := do
  let s ← Prog.get
  if !s.bootSector.isValidCluster cluster then return buffer
  let startSector := s.clusterToSector cluster
  if startSector = 0 then return buffer
  readSectors startSector s.bootSector.sectorsPerCluster 0 buffer

/-- The loop of the functions that give up when a sector of a cluster cannot be read. -/
def readSectorsChecked (startSector : Nat) : Nat → Nat → Bytes → Io (Option Bytes)
  | 0, _, buffer => return some buffer
  | n + 1, i, buffer => do
      let (ok, buffer) ← readSector (.load i) (u32 (startSector + i)) buffer (512 * i)
      if !ok then return none
      readSectorsChecked startSector n (i + 1) buffer

end MicroKernel.Fat32
