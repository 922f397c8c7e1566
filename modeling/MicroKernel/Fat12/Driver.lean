import MicroKernel.Fat32.Entry
import MicroKernel.Vfs.Mount

set_option autoImplicit false

/-! # The FAT12 driver (`fat12.c`, `fat12_vfs_adapter.c`)

Mounting a floppy and reading a file from it. The driver keeps the boot sector and the whole FAT in
memory, in the one structure `fat12`; an open file is a structure of its own, with the position of
the next read in it. Sectors are 512 bytes whatever the boot sector says, and a sector is addressed
by head, track and sector number, each of which is passed to the controller as one byte.

The environment is the one of the FAT32 driver: which calls of the controller fail and which calls
of `malloc` return `NULL`.
-/

namespace MicroKernel.Fat12

open MicroKernel.Lib Bytes
open MicroKernel.Fat32 (Sector Env Label DirEntry)

/-! ## Structures -/

/-- The fields of `fat12_boot_sector` that are used. -/
structure BootSector where
  bytesPerSector : Nat
  sectorsPerCluster : Nat
  reservedSectors : Nat
  fatCount : Nat
  rootEntryCount : Nat
  totalSectors : Nat
  sectorsPerFat : Nat
  sectorsPerTrack : Nat
  heads : Nat
  totalSectorsLarge : Nat
  bootSectorSignature : Nat

/-- The boot sector in a buffer. -/
def BootSector.ofBytes (b : Bytes) : BootSector where
  bytesPerSector := load16 b 11
  sectorsPerCluster := (b 13).toNat
  reservedSectors := load16 b 14
  fatCount := (b 16).toNat
  rootEntryCount := load16 b 17
  totalSectors := load16 b 19
  sectorsPerFat := load16 b 22
  sectorsPerTrack := load16 b 24
  heads := load16 b 26
  totalSectorsLarge := load32 b 32
  bootSectorSignature := load16 b 510

/-- `fat12_t`. The FAT is a pointer that may be `NULL`. -/
structure Fat12T where
  bootSector : BootSector
  fatStart : Nat
  rootDirStart : Nat
  dataStart : Nat
  fat : Option Bytes

/-- `fat12_file`, as far as reading uses it. -/
structure File where
  startCluster : Nat
  size : Nat
  position : Nat

/-- The floppies, by drive, head, track and sector number, the global variables, and the open files
by their addresses. `entries` is the array as far as it is filled, and `current_dir` a place in it;
both may be `NULL`. -/
@[ext] structure State where
  floppies : Nat → Nat → Nat → Nat → Sector
  fat12 : Option Fat12T
  currentFddDrive : Nat
  files : Nat → Option File
  entries : Option (List DirEntry)
  currentDir : Option Nat

/-- The programs of the driver. -/
abbrev Io := Prog Env State

/-- The part `l` of a function. -/
def within {α : Type} (l : Label) (m : Io α) : Io α := Prog.under (fun e => e.enter l) m

/-! ## The floppy controller -/

/-- `fdc_read_with_fallback(drive, head, track, sector, &buffer[a])`. The numbers are bytes. -/
def fdcReadWithFallback (l : Label) (drive head track sector : Nat) (buffer : Bytes) (a : Nat) :
    Io (Bool × Bytes) := do
  if (← Prog.ask fun e => e.fails l) then return (false, buffer)
  let s ← Prog.get
  let sec := s.floppies (drive % 256) (head % 256) (track % 256) (sector % 256)
  return (true, copy buffer a (Sector.bytes sec) 0 512)

/-- The geometry of a floppy, sectors per track and heads. -/
structure Geometry where
  spt : Nat
  heads : Nat
  spt_pos : 0 < spt
  heads_pos : 0 < heads

/-- The geometry of a floppy of 1.44 MB, `FAT12_DEFAULT_SPT` and `FAT12_DEFAULT_HEADS`. -/
def Geometry.default : Geometry := ⟨18, 2, by decide, by decide⟩

/-- The geometry that `logical_to_chs` goes by: that of the boot sector, or the default one where it
has none. -/
def geometry (fat12 : Option Fat12T) : Geometry :=
  match fat12 with
  | some v =>
      if h : 0 < v.bootSector.sectorsPerTrack ∧ 0 < v.bootSector.heads then
        ⟨v.bootSector.sectorsPerTrack, v.bootSector.heads, h.1, h.2⟩
      else .default
  | none => .default

/-- `logical_to_chs`: track, head and sector. A number from `2 ^ 31` on is a negative `int`. The
product of the geometry is an `int`, too: where it is too large, the track is not what it should be. -/
def logicalToChs (fat12 : Option Fat12T) (logicalSector : Nat) : Nat × Nat × Nat :=
  if 2 ^ 31 ≤ logicalSector then (0, 0, 0)
  else
    let ⟨spt, heads, _, _⟩ := geometry fat12
    (asWord ((logicalSector : Int).tdiv (asInt (spt * heads))),
      logicalSector / spt % heads, logicalSector % spt + 1)

/-- The read of a logical sector of drive `drive`. -/
def readLogical (l : Label) (drive logicalSector : Nat) (buffer : Bytes) (a : Nat) :
    Io (Bool × Bytes) := do
  let s ← Prog.get
  let (track, head, sector) := logicalToChs s.fat12 logicalSector
  fdcReadWithFallback l drive head track sector buffer a

/-! ## Mounting -/

/-- `validate_fat12_boot_sector`. -/
def validateFat12BootSector (bs : BootSector) : Bool :=
  if bs.bootSectorSignature ≠ 0xAA55 then false
  else if bs.bytesPerSector ≠ 512 ∧ bs.bytesPerSector ≠ 1024 ∧ bs.bytesPerSector ≠ 2048 ∧
      bs.bytesPerSector ≠ 4096 then false
  else if bs.sectorsPerCluster = 0 ∨ 128 < bs.sectorsPerCluster ∨
      bs.sectorsPerCluster &&& (bs.sectorsPerCluster - 1) ≠ 0 then false
  else if bs.fatCount < 1 ∨ 2 < bs.fatCount then false
  else if bs.rootEntryCount = 0 then false
  else
    let totalSectors := if bs.totalSectors ≠ 0 then bs.totalSectors else bs.totalSectorsLarge
    let rootDirSectors :=
      (bs.rootEntryCount * 32 + (bs.bytesPerSector - 1)) / bs.bytesPerSector
    let dataSectors := usub totalSectors
      (bs.reservedSectors + bs.fatCount * bs.sectorsPerFat + rootDirSectors)
    let totalClusters := dataSectors / bs.sectorsPerCluster
    if 4085 ≤ totalClusters then false
    else if totalClusters < 2 then false
    else true

/-- The loop of `read_fat12` over the sectors of the FAT. -/
def loadFat (drive fatStart bps : Nat) : Nat → Nat → Bytes → Io (Option Bytes)
  | 0, _, fat => return some fat
  | n + 1, i, fat => do
      let (ok, fat) ← readLogical (.load (i + 1)) drive (fatStart + i) fat (i * bps)
      if !ok then return none
      loadFat drive fatStart bps n (i + 1) fat

/-- `read_fat12` on the structure `fat12` that has just been filled with zeros. -/
def readFat12 (drive : Nat) : Io Bool := do
  if (← Prog.ask fun e => e.outOfMemory (.store 0 :: e.path)) then return false
  let buffer ← Prog.ask fun e => e.junk (.store 0 :: e.path)
  let (ok, buffer) ← fdcReadWithFallback (.load 0) drive 0 0 1 buffer 0
  if !ok then return false
  let bs := BootSector.ofBytes buffer
  if !validateFat12BootSector bs then
    Prog.modify fun s => { s with fat12 := some ⟨bs, 0, 0, 0, none⟩ }
    return false
  let rootDirSectors :=
    (bs.rootEntryCount * 32 + (bs.bytesPerSector - 1)) / bs.bytesPerSector
  let fatStart := bs.reservedSectors
  let rootDirStart := fatStart + bs.fatCount * bs.sectorsPerFat
  let fat12 : Fat12T := ⟨bs, fatStart, rootDirStart, rootDirStart + rootDirSectors, none⟩
  Prog.modify fun s => { s with fat12 := some fat12 }
  if (← Prog.ask fun e => e.outOfMemory (.store 1 :: e.path)) then return false
  let fat ← Prog.ask fun e => e.junk (.store 1 :: e.path)
  match ← loadFat drive fatStart bs.bytesPerSector bs.sectorsPerFat 0 fat with
  | none => return false
  | some fat =>
      Prog.modify fun s => { s with fat12 := some { fat12 with fat := some fat } }
      return true

/-- `fat12_init_fs`. -/
def fat12InitFs (drive : Nat) : Io Bool := do
  Prog.modify fun s => { s with currentFddDrive := drive, fat12 := none }
  if (← Prog.ask fun e => e.outOfMemory (.store 2 :: e.path)) then return false
  if !(← readFat12 drive) then
    Prog.modify fun s => { s with fat12 := none }
    return false
  return true

/-! ## The FAT -/

/-- `is_valid_cluster_fat12`. -/
def isValidClusterFat12 (cluster : Nat) : Bool := 2 ≤ cluster && cluster ≤ 0xFF7

/-- `is_end_of_chain_fat12`. -/
def isEndOfChainFat12 (cluster : Nat) : Bool := 0xFF8 ≤ cluster && cluster ≤ 0xFFF

/-- `get_next_cluster`; `none` is the result -1. Which half of the three bytes an entry is in is
decided by the offset. -/
def getNextCluster (fat12 : Option Fat12T) (currentCluster : Nat) : Option Nat :=
  match fat12 with
  | none => none
  | some v =>
      match v.fat with
      | none => none
      | some fat =>
          if !isValidClusterFat12 currentCluster then none
          else
            let offset := currentCluster * 3 / 2
            if v.bootSector.sectorsPerFat * 512 ≤ offset + 1 then none
            else
              let nextCluster := if offset % 2 = 0 then load16 fat offset % 4096
                else load16 fat offset / 16
              if isEndOfChainFat12 nextCluster then none
              else if nextCluster = 0xFF7 then none
              else if nextCluster = 0 ∨ nextCluster = 1 then none
              else some nextCluster

/-! ## Reading a file -/

/-- `file->position += n`. -/
def State.advanced (s : State) (file n : Nat) : State :=
  { s with files := fun a =>
      if a = file then (s.files a).map fun f => { f with position := u32 (f.position + n) }
      else s.files a }

/-- The loop of `fat12_read_file` over the sectors of one cluster: whether to go on, the number of
bytes, the buffer and the sector buffer. What lies behind the 512 bytes of the sector buffer is not
the driver's. -/
def readFileSectors (file startOffset firstSector bytesToRead : Nat) :
    Nat → Nat → Nat → Bytes → Bytes → Io (Bool × Nat × Bytes × Bytes)
  | 0, _, bytesRead, buffer, sectorBuffer => return (true, bytesRead, buffer, sectorBuffer)
  | n + 1, i, bytesRead, buffer, sectorBuffer => do
      if bytesToRead ≤ bytesRead then return (true, bytesRead, buffer, sectorBuffer)
      let s ← Prog.get
      let (ok, sectorBuffer) ← readLogical (.load i) s.currentFddDrive (u32 (firstSector + i))
        sectorBuffer 0
      if !ok then return (false, bytesRead, buffer, sectorBuffer)
      let offset := if bytesRead = 0 then startOffset else 0
      let remaining := usub 512 offset
      let bytesToCopy :=
        if bytesToRead - bytesRead < remaining then bytesToRead - bytesRead else remaining
      let buffer := copy buffer bytesRead sectorBuffer offset bytesToCopy
      Prog.modify fun s => s.advanced file bytesToCopy
      readFileSectors file startOffset firstSector bytesToRead n (i + 1) (bytesRead + bytesToCopy)
        buffer sectorBuffer

/-- The loop of `fat12_read_file` along the chain. -/
def readFileLoop (file startOffset bytesToRead : Nat) :
    Nat → Nat → Nat → Nat → Bytes → Bytes → Io (Bool × Nat × Bytes)
  | 0, _, _, _, _, _ => Prog.diverge
  | k + 1, i, currentCluster, bytesRead, buffer, sectorBuffer => do
      if ¬ (bytesRead < bytesToRead ∧ 2 ≤ currentCluster ∧ currentCluster < 0xFF7) then
        return (true, bytesRead, buffer)
      let s ← Prog.get
      match s.fat12 with
      -- the structure is there as long as the call runs
      | none => Prog.diverge
      | some v =>
          let spc := v.bootSector.sectorsPerCluster
          let firstSector := u32 (v.dataStart + (currentCluster - 2) * spc)
          let (ok, bytesRead, buffer, sectorBuffer) ← within (.cluster i)
            (readFileSectors file startOffset firstSector bytesToRead spc 0 bytesRead buffer sectorBuffer)
          if !ok then return (false, bytesRead, buffer)
          match getNextCluster s.fat12 currentCluster with
          | none => return (true, bytesRead, buffer)
          | some next =>
              readFileLoop file startOffset bytesToRead k (i + 1) next bytesRead buffer sectorBuffer

/-- Bound on the number of turns of a loop along a chain: a loop that is still running then runs
for ever. -/
def steps : Nat := 2 ^ 32

/-- `fat12_read_file`: the number of bytes and the buffer. -/
def fat12ReadFile (file : Nat) (buffer : Bytes) (bufferSize bytesToRead : Nat) : Io (Nat × Bytes) := do
  let s ← Prog.get
  match s.files file, s.fat12 with
  | some f, some v =>
      if v.fat.isNone then return (0, buffer)
      if bufferSize = 0 ∨ bytesToRead = 0 then return (0, buffer)
      if !isValidClusterFat12 f.startCluster then return (0, buffer)
      let bytesToRead :=
        if f.size < u32 (f.position + bytesToRead) then usub f.size f.position else bytesToRead
      let bytesToRead := if bufferSize < bytesToRead then bufferSize else bytesToRead
      if bytesToRead = 0 then return (0, buffer)
      let clusterSize := 512 * v.bootSector.sectorsPerCluster
      let startOffset := f.position % clusterSize
      if (← Prog.ask fun e => e.outOfMemory (.store 0 :: e.path)) then return (0, buffer)
      let sectorBuffer ← Prog.ask fun e => e.junk (.store 0 :: e.path)
      let (ok, bytesRead, buffer) ← readFileLoop file startOffset bytesToRead steps 0 f.startCluster 0
        buffer sectorBuffer
      if !ok then return (bytesRead, buffer)
      -- the text is terminated when there is room for it
      return (bytesRead, if bytesRead < bufferSize then store8 buffer bytesRead 0 else buffer)
  | _, _ => return (0, buffer)

/-! ## The adapter -/

/-- What the VFS does not look into, in a kernel where FAT12 is the only table: a drive is its
number, and a node has the address of its file. -/
abbrev sig : Vfs.Sig where
  Ops := Unit
  Drive := Nat
  FsData := Unit
  NodeData := Nat
  Env := Env
  Globals := State

/-- `fat12_vfs_mount`. -/
def fat12VfsMount (fs : Vfs.Filesystem sig) : Io (Except Vfs.Error (Vfs.Mounted sig)) := do
  if !(← within .init (fat12InitFs fs.drive)) then return .error .io
  if (← Prog.ask fun e => e.outOfMemory (.store 0 :: e.path)) then return .error .noMemory
  return .ok ⟨some (), some 0⟩

/-- `fat12_vfs_read`. The offset is printed in a warning and not used. -/
def fat12VfsRead (node : Vfs.Node sig) (_offset size : Nat) (buffer : Bytes) :
    Io (Except Vfs.Error Nat × Bytes) := do
  if node.type ≠ .file then return (.error .isDir, buffer)
  match node.fsSpecific with
  | none => return (.error .invalid, buffer)
  | some file =>
      let bytesToRead := if size < node.size then size else node.size
      let (bytesRead, buffer) ← fat12ReadFile file buffer size bytesToRead
      -- the number is an `int`
      if 2 ^ 31 ≤ bytesRead then return (.error .io, buffer)
      return (.ok bytesRead, buffer)

end MicroKernel.Fat12
