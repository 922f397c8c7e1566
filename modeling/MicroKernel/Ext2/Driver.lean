import MicroKernel.Fat32.Disk
import MicroKernel.Libc.Memmove
import MicroKernel.Libc.String
import MicroKernel.Vfs.Mount

set_option autoImplicit false

/-! # The ext2 driver (`ext2.c`, `ext2_vfs_adapter.c`)

Mounting a volume, reading and writing blocks and inodes, reading a file, and reading and searching
a directory. Every mount has a structure of its own, with the superblock and the table of the block
groups in it; nothing but that structure and the disk is looked at. The block buffer of the structure is filled whole before it is looked at, so what
it holds before a call is taken from the environment. A file is read through the twelve direct
blocks of its inode only.

The disks are those of the ATA driver, which the FAT32 driver uses as well.
-/

namespace MicroKernel.Ext2

open MicroKernel.Lib Bytes
open MicroKernel.Fat32 (Drive Env Io ataReadSector ataWriteSector within uninitialised)

/-! ## Structures -/

/-- The fields of `ext2_superblock_t` that are used. -/
structure Superblock where
  blocksCount : Nat
  firstDataBlock : Nat
  logBlockSize : Nat
  blocksPerGroup : Nat
  inodesPerGroup : Nat
  magic : Nat
  inodeSize : Nat

/-- The superblock in a buffer. -/
def Superblock.ofBytes (b : Bytes) : Superblock where
  blocksCount := load32 b 4
  firstDataBlock := load32 b 20
  logBlockSize := load32 b 24
  blocksPerGroup := load32 b 32
  inodesPerGroup := load32 b 40
  magic := load16 b 56
  inodeSize := load16 b 88

/-- `ext2_fs_t`, as far as reading uses it. -/
structure Ext2Fs where
  superblock : Superblock
  groupDescTable : Bytes
  blockSize : Nat
  numBlockGroups : Nat
  drive : Drive

namespace Ext2Fs

variable (fs : Ext2Fs)

/-- `group_desc_table[group].bg_inode_table`. -/
def inodeTable (group : Nat) : Nat := load32 fs.groupDescTable (32 * group + 8)

/-- The size of an inode; that of the first revision where the superblock has none. -/
def inodeSize : Nat := if fs.superblock.inodeSize = 0 then 128 else fs.superblock.inodeSize

/-- `ext2_get_inode_block_group`. -/
def ext2GetInodeBlockGroup (inodeNum : Nat) : Nat :=
  usub inodeNum 1 / fs.superblock.inodesPerGroup

/-- `ext2_get_inode_table_index`. -/
def ext2GetInodeTableIndex (inodeNum : Nat) : Nat :=
  usub inodeNum 1 % fs.superblock.inodesPerGroup

end Ext2Fs

/-- `inode->i_mode` of the inode in a buffer. -/
def iMode (inode : Bytes) : Nat := load16 inode 0

/-- `inode->i_size` of the inode in a buffer. -/
def iSize (inode : Bytes) : Nat := load32 inode 4

/-- `inode->i_block[i]`. -/
def iBlock (inode : Bytes) (i : Nat) : Nat := load32 inode (40 + 4 * i)

/-! ## Blocks and inodes -/

/-- The loop of `ext2_read_block`. -/
def readBlockSectors (drive : Drive) (startSector : Nat) :
    Nat → Nat → Bytes → Nat → Io (Bool × Bytes)
  | 0, _, buffer, _ => return (true, buffer)
  | n + 1, i, buffer, a => do
      let (ok, buffer) ← ataReadSector (.load i) drive (u32 (startSector + i)) buffer (a + i * 512)
      if !ok then return (false, buffer)
      readBlockSectors drive startSector n (i + 1) buffer a

/-- `ext2_read_block(fs, block_num, &buffer[a])`. -/
def ext2ReadBlock (fs : Ext2Fs) (blockNum : Nat) (buffer : Bytes) (a : Nat) : Io (Bool × Bytes) :=
  let sectorsPerBlock := fs.blockSize / 512
  readBlockSectors fs.drive (u32 (blockNum * sectorsPerBlock)) sectorsPerBlock 0 buffer a

/-- `ext2_read_inode`: the bytes of the inode. -/
def ext2ReadInode (fs : Ext2Fs) (inodeNum : Nat) : Io (Option Bytes) := do
  if inodeNum = 0 then return none
  -- a division by zero
  if fs.superblock.inodesPerGroup = 0 then Prog.diverge
  let blockGroup := fs.ext2GetInodeBlockGroup inodeNum
  let index := fs.ext2GetInodeTableIndex inodeNum
  if fs.numBlockGroups ≤ blockGroup then return none
  let blockOffset := u32 (index * fs.inodeSize) / fs.blockSize
  let offsetInBlock := u32 (index * fs.inodeSize) % fs.blockSize
  let blockBuffer ← uninitialised (.load 0)
  let (ok, blockBuffer) ←
    ext2ReadBlock fs (u32 (fs.inodeTable blockGroup + blockOffset)) blockBuffer 0
  if !ok then return none
  return some fun x => blockBuffer (offsetInBlock + x)

/-- The loop of `ext2_write_block`. -/
def writeBlockSectors (drive : Drive) (startSector : Nat) : Nat → Nat → Bytes → Io Bool
  | 0, _, _ => return true
  | n + 1, i, buffer => do
      let ok ← ataWriteSector (.store i) drive (u32 (startSector + i)) buffer (i * 512)
      if !ok then return false
      writeBlockSectors drive startSector n (i + 1) buffer

/-- `ext2_write_block`. -/
def ext2WriteBlock (fs : Ext2Fs) (blockNum : Nat) (buffer : Bytes) : Io Bool :=
  let sectorsPerBlock := fs.blockSize / 512
  writeBlockSectors fs.drive (u32 (blockNum * sectorsPerBlock)) sectorsPerBlock 0 buffer

/-- `ext2_write_inode`. -/
def ext2WriteInode (fs : Ext2Fs) (inodeNum : Nat) (inode : Bytes) : Io Bool := do
  if inodeNum = 0 then return false
  -- a division by zero
  if fs.superblock.inodesPerGroup = 0 then Prog.diverge
  let blockGroup := fs.ext2GetInodeBlockGroup inodeNum
  let index := fs.ext2GetInodeTableIndex inodeNum
  if fs.numBlockGroups ≤ blockGroup then return false
  let blockOffset := u32 (index * fs.inodeSize) / fs.blockSize
  let offsetInBlock := u32 (index * fs.inodeSize) % fs.blockSize
  let blockBuffer ← uninitialised (.load 0)
  let (ok, blockBuffer) ←
    ext2ReadBlock fs (u32 (fs.inodeTable blockGroup + blockOffset)) blockBuffer 0
  if !ok then return false
  let blockBuffer := Libc.memcpy blockBuffer offsetInBlock inode 0 128
  ext2WriteBlock fs (u32 (fs.inodeTable blockGroup + blockOffset)) blockBuffer

/-! ## Mounting -/

/-- The loop of `ext2_init` over the blocks of the group descriptor table. -/
def loadGroups (fs : Ext2Fs) (gdtBlock : Nat) : Nat → Nat → Bytes → Io (Option Bytes)
  | 0, _, table => return some table
  | n + 1, i, table => do
      let (ok, table) ← within (.cluster i)
        (ext2ReadBlock fs (u32 (gdtBlock + i)) table (i * fs.blockSize))
      if !ok then return none
      loadGroups fs gdtBlock n (i + 1) table

/-- `ext2_init`. A shift uses the low five bits of its count. -/
def ext2Init (drive : Drive) : Io (Option Ext2Fs) := do
  let buffer ← uninitialised .init
  let (ok, buffer) ← ataReadSector (.load 0) drive 2 buffer 0
  if !ok then return none
  let (ok, buffer) ← ataReadSector (.load 1) drive 3 buffer 512
  if !ok then return none
  let superblock := Superblock.ofBytes buffer
  if superblock.magic ≠ 0xEF53 then return none
  let blockSize := u32 (1024 * 2 ^ (superblock.logBlockSize % 32))
  if blockSize = 0 ∨ 65536 < blockSize then return none
  -- a division by zero
  if superblock.blocksPerGroup = 0 then Prog.diverge
  else
    let numBlockGroups :=
      usub (u32 (superblock.blocksCount + superblock.blocksPerGroup)) 1 / superblock.blocksPerGroup
    let gdtSize := u32 (numBlockGroups * 32)
    if (← Prog.ask fun e => e.outOfMemory (.store 0 :: e.path)) then return none
    let table ← Prog.ask fun e => e.junk (.store 0 :: e.path)
    let fs : Ext2Fs := ⟨superblock, table, blockSize, numBlockGroups, drive⟩
    let gdtBlocks := usub (u32 (gdtSize + blockSize)) 1 / blockSize
    match ← loadGroups fs (u32 (superblock.firstDataBlock + 1)) gdtBlocks 0 table with
    | none => return none
    | some table =>
        if (← Prog.ask fun e => e.outOfMemory (.store 1 :: e.path)) then return none
        return some { fs with groupDescTable := table }

/-! ## Reading a file -/

/-- Bound on the number of turns of a loop: a loop that is still running then runs for ever. -/
def steps : Nat := 2 ^ 32

/-- The loop of `ext2_read_file`. -/
def readFileLoop (fs : Ext2Fs) (inode : Bytes) (size : Nat) :
    Nat → Nat → Nat → Nat → Bytes → Io (Nat × Bytes)
  | 0, _, _, _, _ => Prog.diverge
  | k + 1, i, bytesRead, currentOffset, buffer => do
      if size ≤ bytesRead then return (bytesRead, buffer)
      let blockIndex := currentOffset / fs.blockSize
      let offsetInBlock := currentOffset % fs.blockSize
      let bytesInBlock := fs.blockSize - offsetInBlock
      let bytesInBlock := if size - bytesRead < bytesInBlock then size - bytesRead else bytesInBlock
      -- indirect blocks are not supported
      if 12 ≤ blockIndex then return (bytesRead, buffer)
      let blockNum := iBlock inode blockIndex
      if blockNum = 0 then
        readFileLoop fs inode size k (i + 1) (bytesRead + bytesInBlock)
          (u32 (currentOffset + bytesInBlock)) (fill buffer bytesRead bytesInBlock 0)
      else
        let blockBuffer ← within (.cluster i) (uninitialised (.load 0))
        let (ok, blockBuffer) ← within (.cluster i) (ext2ReadBlock fs blockNum blockBuffer 0)
        if !ok then return (bytesRead, buffer)
        readFileLoop fs inode size k (i + 1) (bytesRead + bytesInBlock)
          (u32 (currentOffset + bytesInBlock))
          (Libc.memcpy buffer bytesRead blockBuffer offsetInBlock bytesInBlock)

/-- `ext2_read_file`. -/
def ext2ReadFile (fs : Ext2Fs) (inode : Bytes) (offset size : Nat) (buffer : Bytes) :
    Io (Nat × Bytes) := do
  if iSize inode ≤ offset then return (0, buffer)
  let size := if iSize inode < u32 (offset + size) then iSize inode - offset else size
  readFileLoop fs inode size steps 0 0 offset buffer

/-! ## Directories -/

/-- `entry->inode` of the directory entry at `x`. -/
def entryInode (b : Bytes) (x : Nat) : Nat := load32 b x

/-- `entry->rec_len`. -/
def recLen (b : Bytes) (x : Nat) : Nat := load16 b (x + 4)

/-- `entry->name_len`. -/
def nameLen (b : Bytes) (x : Nat) : Nat := (b (x + 6)).toNat

/-- `sizeof(ext2_dir_entry_t)`: a head of eight bytes and 255 for the name. -/
def entrySize : Nat := 263

/-- The entry at `x` of `block` is copied to `entries[count]`. -/
def copyEntry (entries : Bytes) (count : Nat) (block : Bytes) (x : Nat) : Bytes :=
  let a := entrySize * count
  let entries := store32 entries a (entryInode block x)
  let entries := store16 entries (a + 4) (recLen block x)
  let entries := store8 entries (a + 6) (block (x + 6))
  let entries := store8 entries (a + 7) (block (x + 7))
  let copyLen := if 255 < nameLen block x then 255 else nameLen block x
  let entries := Libc.memcpy entries (a + 8) block (x + 8) copyLen
  store8 entries (a + 8 + copyLen) 0

/-- The loop of `ext2_read_dir` over the records of a block: the entries and their number. -/
def readDirRecords (fs : Ext2Fs) (inode : Bytes) (maxEntries : Nat) (block : Bytes) :
    Nat → Nat → Nat → Bytes → Nat → Io (Bytes × Nat)
  | 0, _, _, _, _ => Prog.diverge
  | k + 1, blockOffset, offset, entries, count =>
      if blockOffset < fs.blockSize ∧ offset < iSize inode then
        if entryInode block blockOffset = 0 ∨ recLen block blockOffset = 0 then
          return (entries, count)
        else if fs.blockSize < recLen block blockOffset ∨ recLen block blockOffset < 8 then
          return (entries, count)
        else if count < maxEntries then
          readDirRecords fs inode maxEntries block k (u32 (blockOffset + recLen block blockOffset))
            (u32 (offset + recLen block blockOffset)) (copyEntry entries count block blockOffset)
            (count + 1)
        else
          readDirRecords fs inode maxEntries block k (u32 (blockOffset + recLen block blockOffset))
            (u32 (offset + recLen block blockOffset)) entries count
      else return (entries, count)

/-- The loop of `ext2_read_dir` over the blocks. -/
def readDirBlocks (fs : Ext2Fs) (inode : Bytes) (maxEntries : Nat) :
    Nat → Nat → Bytes → Nat → Io (Bool × Bytes × Nat)
  | 0, _, _, _ => Prog.diverge
  | k + 1, offset, entries, count => do
      if offset < iSize inode ∧ count < maxEntries then
        let blockIndex := offset / fs.blockSize
        -- indirect blocks are not supported
        if 12 ≤ blockIndex then return (true, entries, count)
        let blockNum := iBlock inode blockIndex
        if blockNum = 0 then return (true, entries, count)
        let block ← within (.cluster blockIndex) (uninitialised (.load 0))
        let (ok, block) ← within (.cluster blockIndex) (ext2ReadBlock fs blockNum block 0)
        if !ok then return (false, entries, count)
        let (entries, count) ←
          readDirRecords fs inode maxEntries block steps 0 offset entries count
        readDirBlocks fs inode maxEntries k (u32 ((blockIndex + 1) * fs.blockSize)) entries count
      else return (true, entries, count)

/-- `ext2_read_dir`: whether it succeeds, `entries` and `*count`. -/
def ext2ReadDir (fs : Ext2Fs) (inodeNum : Nat) (entries : Bytes) (maxEntries count : Nat) :
    Io (Bool × Bytes × Nat) := do
  match ← within .find (ext2ReadInode fs inodeNum) with
  | none => return (false, entries, count)
  | some inode =>
      if iMode inode &&& 0x4000 ≠ 0x4000 then return (false, entries, count)
      readDirBlocks fs inode maxEntries steps 0 entries 0

/-- The loop of `ext2_find_entry`: what is in the entry that is found. -/
def findEntryLoop (name : List UInt8) (entries : Bytes) : Nat → Nat → Io (Option Bytes)
  | 0, _ => return none
  | n + 1, i =>
      let a := entrySize * i
      let cells := first (fun x => entries (a + 8 + x)) (entrySize * 64 - (a + 8))
      match Libc.strncmp cells name (nameLen entries a), Libc.strlen name with
      | some d, some len =>
          if d = 0 ∧ len = nameLen entries a then return some fun x => entries (a + x)
          else findEntryLoop name entries n (i + 1)
      | _, _ => Prog.diverge

/-- `ext2_find_entry`. -/
def ext2FindEntry (fs : Ext2Fs) (dirInode : Nat) (name : List UInt8) : Io (Option Bytes) := do
  let entries ← uninitialised (.store 0)
  let (ok, entries, count) ← ext2ReadDir fs dirInode entries 64 0
  if !ok then return none
  findEntryLoop name entries count 0

/-! ## The adapter -/

/-- What the VFS does not look into, in a kernel where ext2 is the only table. -/
abbrev sig : Vfs.Sig where
  Ops := Unit
  Drive := Drive
  FsData := Ext2Fs
  NodeData := Unit
  Env := Env
  Globals := Fat32.Fs

/-- `ext2_vfs_mount`. There is no root node. -/
def ext2VfsMount (fs : Vfs.Filesystem sig) : Io (Except Vfs.Error (Vfs.Mounted sig)) := do
  if (← Prog.ask fun e => e.outOfMemory (.store 0 :: e.path)) then return .error .noMemory
  match ← within .init (ext2Init fs.drive) with
  | none => return .error .io
  | some data => return .ok ⟨some data, none⟩

/-- `ext2_vfs_read`. -/
def ext2VfsRead (node : Vfs.Node sig) (offset size : Nat) (buffer : Bytes) :
    Io (Except Vfs.Error Nat × Bytes) := do
  match node.fs.fsData with
  | none => return (.error .invalid, buffer)
  | some fs =>
      match ← within .find (ext2ReadInode fs node.inode) with
      | none => return (.error .io, buffer)
      | some inode =>
          let (bytesRead, buffer) ← ext2ReadFile fs inode offset size buffer
          -- the number is an `int`
          if 2 ^ 31 ≤ bytesRead then return (.error .io, buffer)
          return (.ok bytesRead, buffer)

end MicroKernel.Ext2
