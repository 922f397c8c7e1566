import MicroKernel.Fat32.Dir
import MicroKernel.Vfs.Mount

set_option autoImplicit false

/-! # The FAT32 adapter (`fat32_vfs_adapter.c`)

The operation table that the FAT32 driver registers with the VFS, and the two functions of the
driver that only the adapter calls: `fat32_init_fs` and `read_file_data`. The build is the default
one, without `FAT32_STRICT_VALIDATION`.

The driver has one boot sector, one FSInfo, one base address for writes and one current directory.
A mount sets all of them and leaves `current_drive` as it is; `open`, `read` and `readdir` set
`current_drive` and leave the rest.
-/

namespace MicroKernel.Fat32

open MicroKernel.Lib Bytes

/-- What the VFS does not look into, in a kernel where FAT32 is the only table. -/
abbrev sig : Vfs.Sig where
  Ops := Unit
  Drive := Drive
  FsData := BootSector
  NodeData := DirEntry
  Env := Env
  Globals := Fs

/-! ## Entries -/

/-- The name that `fat32_entry_to_vfs_entry` reports. -/
def vfsName (x : DirEntry) : List UInt8 :=
  let base := ((List.range 8).map x.name).takeWhile (· ≠ 0x20)
  if x.name 8 ≠ 0x20 then
    base ++ 0x2E :: (((List.range 3).map fun i => x.name (8 + i)).takeWhile (· ≠ 0x20))
  else base

/-- The type of the node of an entry. -/
def vfsType (x : DirEntry) : Vfs.NodeType := if x.isDirectory then .directory else .file

/-- `file_size`. -/
def fileSize (x : DirEntry) : Nat :=
  (x 28).toNat + 256 * (x 29).toNat + 65536 * (x 30).toNat + 16777216 * (x 31).toNat

/-- `fat32_entry_to_vfs_entry`. -/
def fat32EntryToVfsEntry (x : DirEntry) : Vfs.DirEntry where
  name := vfsName x
  type := vfsType x
  size := fileSize x
  inode := readStartCluster x
  createTime := 0
  modifyTime := 0
  accessTime := 0
  attributes := x.attr

/-! ## `fat32_init_fs` -/

/-- The boot sector in a buffer. -/
def BootSector.ofBytes (b : Bytes) : BootSector where
  bytesPerSector := load16 b 11
  sectorsPerCluster := (b 13).toNat
  reservedSectorCount := load16 b 14
  numberOfFats := (b 16).toNat
  rootEntryCount := load16 b 17
  totalSectors32 := load32 b 32
  fatSize32 := load32 b 36
  rootCluster := load32 b 44
  fsInfo := load16 b 48

/-- `read_fsinfo`. -/
def readFsinfo : Io Bool := do
  let s ← Prog.get
  let (ok, buffer) ← readSector (.load 0) (u32 (s.partitionLbaOffset + s.bootSector.fsInfo))
    (Sector.bytes s.fsinfo) 0
  if !ok then return false
  let fsinfo := Sector.ofBytes buffer 0
  Prog.modify fun s => { s with fsinfo }
  if fsinfo.field 0 ≠ 0x41615252 ∨ fsinfo.field 484 ≠ 0x61417272 ∨ fsinfo.field 508 ≠ 0xAA550000 then
    return false
  Prog.modify fun s => { s with fsinfoValid := true }
  return true

/-- `fat32_init_fs`. The boot sector is as long as a sector, so a read that succeeds leaves nothing
of the one before. -/
def fat32InitFs (drive : Drive) : Io Bool := do
  let (ok, buffer) ← ataReadSector (.load 0) drive 0 (fun _ => 0) 0
  if !ok then return false
  let bs := BootSector.ofBytes buffer
  Prog.modify fun s =>
    { s with bootSector := bs, ataBaseAddress := drive.base, currentDirectoryCluster := bs.rootCluster }
  if bs.fsInfo ≠ 0 ∧ bs.fsInfo ≠ 0xFFFF then
    let _ ← within .sync readFsinfo
  return true

/-! ## `read_file_data` -/

/-- The loop over the sectors of one cluster: whether to go on, the bytes read so far and the
buffer. -/
def readFileSectors (sectorNumber bufferSize bytesToRead : Nat) :
    Nat → Nat → Nat → Bytes → Io (Bool × Nat × Bytes)
  | 0, _, total, buffer => return (true, total, buffer)
  | n + 1, i, total, buffer => do
      let now := min (bytesToRead - total) 512
      -- no room is left in the buffer
      if bufferSize < total + now ∧ bufferSize ≤ total then return (true, total, buffer)
      let now := if bufferSize < total + now then bufferSize - total else now
      if now = 0 then return (true, total, buffer)
      let sectorBuffer ← uninitialised (.load i)
      let (ok, sectorBuffer) ← readSector (.load i) (u32 (sectorNumber + i)) sectorBuffer 0
      if !ok then return (false, total, buffer)
      let buffer := copy buffer total sectorBuffer 0 now
      let total := total + now
      if bytesToRead ≤ total then return (true, total, buffer)
      readFileSectors sectorNumber bufferSize bytesToRead n (i + 1) total buffer

/-- The loop of `read_file_data` along the chain of the file. -/
def readFileLoop (bufferSize bytesToRead : Nat) : Nat → Nat → Nat → Nat → Bytes → Io (Nat × Bytes)
  | 0, _, _, _, _ => Prog.diverge
  | k + 1, i, current, total, buffer => do
      if bytesToRead ≤ total then return (total, buffer)
      let s ← Prog.get
      let (ok, total, buffer) ← within (.cluster i) (readFileSectors (s.clusterToSector current)
        bufferSize bytesToRead s.bootSector.sectorsPerCluster 0 total buffer)
      if !ok then return (total, buffer)
      let current ← within (.cluster i) (within .next (getNextClusterInChain current))
      if isEndOfClusterChain current = true ∨ current = invalidCluster then return (total, buffer)
      readFileLoop bufferSize bytesToRead k (i + 1) current total buffer

/-- `read_file_data`: the number of bytes and the buffer. -/
def readFileData (startCluster : Nat) (buffer : Bytes) (bufferSize bytesToRead : Nat) :
    Io (Nat × Bytes) := do
  if bufferSize = 0 ∨ bytesToRead = 0 then return (0, buffer)
  readFileLoop bufferSize bytesToRead steps 0 startCluster 0 buffer

/-! ## The operations -/

namespace Adapter

/-- `fat32_vfs_mount`. -/
def fat32VfsMount (fs : Vfs.Filesystem sig) : Io (Except Vfs.Error (Vfs.Mounted sig)) := do
  if !(← fat32InitFs fs.drive) then return .error .io
  if (← Prog.ask fun e => e.outOfMemory (.store 0 :: e.path)) then return .error .noMemory
  let s ← Prog.get
  if (← Prog.ask fun e => e.outOfMemory (.store 1 :: e.path)) then return .error .noMemory
  return .ok ⟨some s.bootSector, some s.bootSector.rootCluster⟩

/-- `current_drive = drive`. -/
def setCurrentDrive (drive : Drive) : Io Unit := Prog.modify fun s => { s with currentDrive := drive }

/-- The node that `fs->root` points to. -/
def rootNode (fs : Vfs.Filesystem sig) (root : Nat) : Vfs.Node sig :=
  ⟨[0x2F], .directory, root, 0, 0, fs, none⟩

/-- The node of a directory entry. -/
def entryNode (fs : Vfs.Filesystem sig) (x : DirEntry) : Vfs.Node sig :=
  ⟨vfsName x, vfsType x, readStartCluster x, fileSize x, 0, fs, some x⟩

/-- `fat32_vfs_open`. -/
def fat32VfsOpen (fs : Vfs.Filesystem sig) (path : List UInt8) :
    Io (Except Vfs.Error (Vfs.Node sig)) := do
  setCurrentDrive fs.drive
  if path = [0x2F] then
    match fs.root with
    -- a file system that is mounted has a root
    | none => Prog.diverge
    | some root => return .ok (rootNode fs root)
  else
    let filename := if path.head? = some 0x2F then path.tail else path
    match ← within .find (findFileInDirectory filename) with
    | none => return .error .notFound
    | some x =>
        if (← Prog.ask fun e => e.outOfMemory (.store 0 :: e.path)) then return .error .noMemory
        return .ok (entryNode fs x)

/-- `fat32_vfs_read`. The offset is printed in a warning and not used. -/
def fat32VfsRead (node : Vfs.Node sig) (_offset size : Nat) (buffer : Bytes) :
    Io (Except Vfs.Error Nat × Bytes) := do
  if node.type ≠ .file then return (.error .isDir, buffer)
  setCurrentDrive node.fs.drive
  let bytesToRead := if size < node.size then size else node.size
  let (bytesRead, buffer) ← readFileData node.inode buffer size bytesToRead
  return (.ok bytesRead, buffer)

/-- `fat32_vfs_readdir`. -/
def fat32VfsReaddir (node : Vfs.Node sig) (index : Nat) : Io (Except Vfs.Error Vfs.DirEntry) := do
  if node.type ≠ .directory then return .error .notDir
  setCurrentDrive node.fs.drive
  let s ← Prog.get
  let sector := s.clusterToSector node.inode
  if (← Prog.ask fun e => e.outOfMemory (.load 0 :: e.path)) then return .error .noMemory
  let entries ← uninitialised (.load 0)
  match ← readSectorsChecked sector s.bootSector.sectorsPerCluster 0 entries with
  | none => return .error .io
  | some entries =>
      match nthEntry entries index (s.bootSector.sectorsPerCluster * 16) 0 0 with
      | none => return .error .notFound
      | some x => return .ok (fat32EntryToVfsEntry x)

/-- `fat32_vfs_ops`. Unmounting and closing give memory back, which is not part of the state. -/
def fat32VfsOps : Vfs.FilesystemOps sig where
  mount := fat32VfsMount
  unmount := some fun _ s => s
  openNode := some fat32VfsOpen
  close := some fun _ s => s
  read := some fat32VfsRead
  readdir := some fat32VfsReaddir

/-- The name under which the table is registered. -/
def fat32Name : List UInt8 := [0x66, 0x61, 0x74, 0x33, 0x32]

/-- The kernel after `fat32_register_vfs`. -/
def registered (g : Fs) : Vfs.State sig := ⟨[(fat32Name, ())], .empty, g⟩

/-! ## The calls of the VFS -/

/-- The operation tables of a kernel that has FAT32 only. -/
abbrev tables : sig.Ops → Vfs.FilesystemOps sig := fun _ => fat32VfsOps

/-- `vfs_readdir` below the resolution of its path. -/
def listPath (fs : Vfs.Filesystem sig) (path : List UInt8) (index : Nat) :
    Io (Except Vfs.Error Vfs.DirEntry) := do
  match ← fat32VfsOpen fs path with
  | .error err => return .error err
  | .ok node =>
      if node.type ≠ .directory then return .error .notDir
      fat32VfsReaddir node index

section calls

variable {e : Env} {s : Vfs.State sig} {fs : Vfs.Filesystem sig} {path : List UInt8}

theorem run_vfsOpen (hfs : Vfs.vfsGetFilesystem s.mountList path = some fs) :
    (Vfs.vfsOpen tables path).run e s = (Vfs.onGlobals
      (fat32VfsOpen fs (Vfs.vfsGetRelativePath s.mountList path fs))).run e s := by
  unfold Vfs.vfsOpen
  rw [Prog.run_bind, Prog.run_get, Option.bind_some]
  dsimp only
  rw [hfs]
  rfl

theorem run_vfsReaddir (hfs : Vfs.vfsGetFilesystem s.mountList path = some fs) (index : Nat) :
    (Vfs.vfsReaddir tables path index).run e s = (Vfs.onGlobals
      (listPath fs (Vfs.vfsGetRelativePath s.mountList path fs) index)).run e s := by
  unfold Vfs.vfsReaddir
  rw [Prog.run_bind, Prog.run_get, Option.bind_some]
  dsimp only
  rw [hfs]
  dsimp only
  change Option.bind (Option.map _ ((fat32VfsOpen fs _).run e s.globals)) _
    = Option.map _ (Option.bind ((fat32VfsOpen fs _).run e s.globals) _)
  cases (fat32VfsOpen fs (Vfs.vfsGetRelativePath s.mountList path fs)).run e s.globals with
  | none => rfl
  | some r =>
      obtain ⟨node, g⟩ := r
      cases node with
      | error err => rfl
      | ok node =>
          rw [Option.map_some, Option.bind_some, Option.bind_some]
          dsimp only
          by_cases htype : node.type ≠ .directory
          · rw [if_pos htype, if_pos htype]
            rfl
          · rw [if_neg htype, if_neg htype]
            change Option.bind (Option.map _ ((fat32VfsReaddir node index).run e g)) _
              = Option.map _ ((fat32VfsReaddir node index).run e g)
            cases (fat32VfsReaddir node index).run e g with
            | none => rfl
            | some r => rfl

end calls

end Adapter

end MicroKernel.Fat32
