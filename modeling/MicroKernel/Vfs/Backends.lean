import MicroKernel.Ext2.Read
import MicroKernel.Fat12.Read
import MicroKernel.Fat32.FileData
import MicroKernel.Fat32.Image

set_option autoImplicit false

/-! # One interface, three backends

`vfs_read` calls the `read` of the table that the node's file system has: FAT32, FAT12 or ext2. What a
caller may expect is the same for all of them (`Vfs.File.Answers`), and it is expected whatever has
been read before. ext2 does what is expected, unless a block of 64 KB is asked for as a whole. The
other two do not look at the offset: FAT32 reads from the start of the file, FAT12 from a position
that every read moves on.

A pointer that a table stores is only ever looked at by that table, so a node that has the data of
another one is taken to have none.
-/

namespace MicroKernel.Backends

open MicroKernel.Lib Bytes
open MicroKernel.Fat32 (Env)
open MicroKernel.Vfs (Node Filesystem Error Mounted vfsRead)

/-! ## The kernel with three tables -/

/-- The operation tables. -/
inductive Backend where
  | fat32
  | fat12
  | ext2
  deriving DecidableEq

/-- `drive_t`: a drive of the ATA driver, or a floppy drive. -/
structure Drive where
  ata : Fat32.Drive
  fddDriveNo : Nat

/-- What `fs_data` points to. -/
inductive FsData where
  | fat32 (bs : Fat32.BootSector)
  | fat12
  | ext2 (fs : Ext2.Ext2Fs)

/-- What `fs_specific` points to. -/
inductive NodeData where
  | fat32 (x : Fat32.DirEntry)
  | fat12 (file : Nat)

/-- The variables of the drivers. The disks of ext2 are those of FAT32. -/
structure Globals where
  fat32 : Fat32.Fs
  fat12 : Fat12.State

/-- What the VFS does not look into. -/
abbrev sig : Vfs.Sig where
  Ops := Backend
  Drive := Drive
  FsData := FsData
  NodeData := NodeData
  Env := Env
  Globals := Globals

/-! ### What a table sees -/

/-- A file system, with its drive and its data as a table looks at them. -/
def seenFs {S : Vfs.Sig} (ops : S.Ops) (drive : Drive → S.Drive) (data : FsData → Option S.FsData)
    (fs : Filesystem sig) : Filesystem S where
  addr := fs.addr
  name := fs.name
  drive := drive fs.drive
  ops := ops
  fsData := fs.fsData.bind data
  root := fs.root

/-- A node of that file system. -/
def seenNode {S : Vfs.Sig} (fs : Filesystem sig → Filesystem S)
    (data : NodeData → Option S.NodeData) (node : Node sig) : Node S where
  name := node.name
  type := node.type
  inode := node.inode
  size := node.size
  flags := node.flags
  fs := fs node.fs
  fsSpecific := node.fsSpecific.bind data

/-- What the FAT32 adapter sees. -/
def fat32Fs : Filesystem sig → Filesystem Fat32.sig :=
  seenFs () Drive.ata fun | .fat32 bs => some bs | _ => none

def fat32Node : Node sig → Node Fat32.sig :=
  seenNode fat32Fs fun | .fat32 x => some x | _ => none

/-- What the FAT12 adapter sees. -/
def fat12Fs : Filesystem sig → Filesystem Fat12.sig :=
  seenFs () Drive.fddDriveNo fun | .fat12 => some () | _ => none

def fat12Node : Node sig → Node Fat12.sig :=
  seenNode fat12Fs fun | .fat12 file => some file | _ => none

/-- What the ext2 adapter sees. -/
def ext2Fs : Filesystem sig → Filesystem Ext2.sig :=
  seenFs () Drive.ata fun | .ext2 fs => some fs | _ => none

def ext2Node : Node sig → Node Ext2.sig :=
  seenNode ext2Fs fun _ => none

/-! ### The tables -/

/-- A program of the FAT32 driver or of the ext2 driver. -/
def onDisks {α : Type} (m : Fat32.Io α) : Prog Env Globals α :=
  Prog.zoom Globals.fat32 (fun g s => { g with fat32 := s }) m

/-- A program of the FAT12 driver. -/
def onFloppies {α : Type} (m : Fat12.Io α) : Prog Env Globals α :=
  Prog.zoom Globals.fat12 (fun g s => { g with fat12 := s }) m

section run

variable {α : Type} {e : Env} {g : Globals} {a : α}

theorem run_onDisks {m : Fat32.Io α} {s : Fat32.Fs} (h : m.run e g.fat32 = some (a, s)) :
    (onDisks m).run e g = some (a, { g with fat32 := s }) :=
  Prog.run_zoom_of_some e g h

theorem run_onFloppies {m : Fat12.Io α} {s : Fat12.State} (h : m.run e g.fat12 = some (a, s)) :
    (onFloppies m).run e g = some (a, { g with fat12 := s }) :=
  Prog.run_zoom_of_some e g h

end run

/-- The result of a mount, as the VFS stores it. -/
def stored {S : Vfs.Sig} (data : S.FsData → FsData) :
    Except Error (Mounted S) → Except Error (Mounted sig)
  | .error err => .error err
  | .ok m => .ok ⟨m.fsData.map data, m.root⟩

namespace Backend

/-- The `mount` of a table. -/
def mount (fs : Filesystem sig) : Backend → Prog Env Globals (Except Error (Mounted sig))
  | .fat32 => return stored .fat32 (← onDisks (Fat32.Adapter.fat32VfsMount (fat32Fs fs)))
  | .fat12 => return stored (fun _ => .fat12) (← onFloppies (Fat12.fat12VfsMount (fat12Fs fs)))
  | .ext2 => return stored .ext2 (← onDisks (Ext2.ext2VfsMount (ext2Fs fs)))

/-- The `read` of a table. -/
def read (node : Node sig) (offset size : Nat) (buffer : Bytes) :
    Backend → Prog Env Globals (Except Error Nat × Bytes)
  | .fat32 => onDisks (Fat32.Adapter.fat32VfsRead (fat32Node node) offset size buffer)
  | .fat12 => onFloppies (Fat12.fat12VfsRead (fat12Node node) offset size buffer)
  | .ext2 => onDisks (Ext2.ext2VfsRead (ext2Node node) offset size buffer)

end Backend

/-- Operation tables whose reads are those of the three adapters. Nothing else in them matters to a
read. -/
structure Tables where
  ops : Backend → Vfs.FilesystemOps sig
  read_eq : ∀ b, (ops b).read = some fun node offset size buffer => b.read node offset size buffer

/-! ## What reads change -/

/-- What may have changed are the current drive of the FAT32 driver and the positions of the open
files of the FAT12 driver. -/
structure Globals.OnlyReads (g g' : Globals) : Prop where
  fat32 : g.fat32.OnlyDrive g'.fat32
  fat12 : g.fat12.OnlyPositions g'.fat12

instance : Std.Refl Globals.OnlyReads := ⟨fun _ => ⟨Std.Refl.refl _, Std.Refl.refl _⟩⟩

instance : IsTrans Globals Globals.OnlyReads where
  trans := by
    intro g₁ g₂ g₃ h h'
    exact ⟨IsTrans.trans _ _ _ h.fat32 h'.fat32, IsTrans.trans _ _ _ h.fat12 h'.fat12⟩

section frame

open Prog (Keeps)

theorem onDisks_onlyReads {α : Type} {m : Fat32.Io α} (h : Keeps Fat32.Fs.OnlyDrive m) :
    Keeps Globals.OnlyReads (onDisks m) := by
  unfold onDisks
  apply Keeps.zoom h
  intro g s hs
  exact ⟨hs, Std.Refl.refl _⟩

theorem onFloppies_onlyReads {α : Type} {m : Fat12.Io α} (h : Keeps Fat12.State.OnlyPositions m) :
    Keeps Globals.OnlyReads (onFloppies m) := by
  unfold onFloppies
  apply Keeps.zoom h
  intro g s hs
  exact ⟨Std.Refl.refl _, hs⟩

theorem Backend.read_onlyReads (b : Backend) (node : Node sig) (offset size : Nat)
    (buffer : Bytes) : Keeps Globals.OnlyReads (b.read node offset size buffer) := by
  cases b with
  | fat32 => exact onDisks_onlyReads (Fat32.fat32VfsRead_onlyDrive _ _ _ _)
  | fat12 => exact onFloppies_onlyReads (Fat12.fat12VfsRead_onlyPositions _ _ _ _)
  | ext2 => exact onDisks_onlyReads (Keeps.of_readOnly (Ext2.ext2VfsRead_readOnly _ _ _ _))

end frame

/-- `vfs_read` is the read of the table of the node. -/
theorem vfsRead_eq (T : Tables) (node : Node sig) (offset size : Nat) (buffer : Bytes) :
    vfsRead T.ops node offset size buffer
      = Vfs.onGlobals (node.fs.ops.read node offset size buffer) := by
  unfold vfsRead
  rw [T.read_eq]

/-- Any number of reads, of any nodes and each in an environment of its own, lead from one state to
another. -/
inductive Reads (T : Tables) : Vfs.State sig → Vfs.State sig → Prop where
  | refl (s : Vfs.State sig) : Reads T s s
  | tail {s s₁ s' : Vfs.State sig} {e : Env} {node : Node sig} {offset size : Nat} {buffer : Bytes}
      {r : Except Error Nat × Bytes} (h : Reads T s s₁)
      (hr : (vfsRead T.ops node offset size buffer).run e s₁ = some (r, s')) : Reads T s s'

theorem Reads.onlyReads {T : Tables} {s s' : Vfs.State sig} (h : Reads T s s') :
    s.globals.OnlyReads s'.globals := by
  induction h with
  | refl => exact Std.Refl.refl _
  | @tail s₁ s' e node offset size buffer r h hr ih =>
      rw [vfsRead_eq] at hr
      obtain ⟨⟨r', g⟩, hm, heq⟩ := Option.map_eq_some_iff.mp hr
      obtain ⟨-, rfl⟩ := Prod.mk.inj heq
      exact IsTrans.trans _ _ _ ih
        ((Backend.read_onlyReads _ node offset size buffer).related e _ r' g hm)

/-! ## Open files -/

/-- What is behind a node: a volume, and where the file is on it. -/
inductive Source where
  | fat32 (V : Fat32.Volume) (l : List Nat)
  | fat12 (V : Fat12.Volume) (file : Nat) (l : List Nat)
  | ext2 (fs : Ext2.Ext2Fs)

namespace Source

/-- The node is open on a file of a well-formed volume, which the driver has mounted. -/
def Open (g : Globals) (node : Node sig) : Source → Prop
  | .fat32 V l => node.fs.ops = .fat32 ∧
      Fat32.Fs.On { g.fat32 with currentDrive := node.fs.drive.ata } V ∧
      V.HasFile (g.fat32.disks node.fs.drive.ata) (fat32Node node) l
  | .fat12 V file l => node.fs.ops = .fat12 ∧ V.On g.fat12 ∧
      ∃ f, Fat12.NodeOf g.fat12 (fat12Node node) file f ∧ V.HasFile f l
  | .ext2 fs => node.fs.ops = .ext2 ∧ fs.WellFormed ∧
      Ext2.NodeOf (g.fat32.disks fs.drive) (ext2Node node) fs

/-- The file that the node is open on. -/
def file (g : Globals) (node : Node sig) : Source → Vfs.File
  | .fat32 V l => V.file (g.fat32.disks node.fs.drive.ata) (fat32Node node) l
  | .fat12 V _ l => ⟨V.fileBytes g.fat12 l, node.size⟩
  | .ext2 fs => fs.file (g.fat32.disks fs.drive) node.inode

/-- The reads that the backend answers rightly. -/
def ReadsRight (e : Env) (g : Globals) (node : Node sig) (offset size : Nat) : Source → Prop
  | .fat32 V l => Fat32.ReadsRight V (fat32Node node) l offset size
  | .fat12 V file l => ∀ f, g.fat12.files file = some f → Fat12.ReadsRight V e f l offset size
  | .ext2 fs => fs.ReadsRight (fs.inodeBytes (g.fat32.disks fs.drive) node.inode) offset size

variable {src : Source} {g g' : Globals} {node : Node sig}

/-- Reads do not close a file. -/
theorem Open.of_onlyReads (h : src.Open g node) (hg : g.OnlyReads g') : src.Open g' node := by
  obtain ⟨drive, hdrive⟩ := hg.fat32
  cases src with
  | fat32 V l =>
      obtain ⟨hops, hon, hfile⟩ := h
      unfold Open
      rw [hdrive]
      exact ⟨hops, hon, hfile⟩
  | fat12 V file l =>
      obtain ⟨hops, hon, f, hnode, hfile⟩ := h
      obtain ⟨p, hp⟩ := hg.fat12.files file f hnode.openFile
      exact ⟨hops, hg.fat12.fat12.trans hon, { f with position := p },
        ⟨hnode.type, hnode.data, hnode.size, hp⟩, ⟨hfile.chain, hfile.room⟩⟩
  | ext2 fs =>
      obtain ⟨hops, hfs, hnode⟩ := h
      unfold Open
      rw [hdrive]
      exact ⟨hops, hfs, hnode⟩

/-- Nor do they change it. -/
theorem file_of_onlyReads (hg : g.OnlyReads g') : src.file g' node = src.file g node := by
  obtain ⟨drive, hdrive⟩ := hg.fat32
  cases src with
  | fat32 V l =>
      unfold file
      rw [hdrive]
  | fat12 V file l =>
      unfold Source.file Fat12.Volume.fileBytes Fat12.Volume.clusterBytes Fat12.Volume.sector
      rw [hg.fat12.floppies, hg.fat12.drive]
  | ext2 fs =>
      unfold file
      rw [hdrive]

/-! ## The contract -/

/-- The read of a table, from any state in which the file is open. -/
theorem read_answers (h : src.Open g node) {e : Env} (he : e.Reliable) {offset size : Nat}
    (hlen : offset + size < 2 ^ 31) (hright : src.ReadsRight e g node offset size) (buffer : Bytes) :
    ∃ r g', (node.fs.ops.read node offset size buffer).run e g = some (r, g') ∧
      (src.file g node).Answers offset size r := by
  cases src with
  | fat32 V l =>
      obtain ⟨hops, hon, hfile⟩ := h
      obtain ⟨r, s', hrun, hans⟩ := Fat32.fat32VfsRead_answers he hon hfile hright buffer
      rw [hops]
      exact ⟨r, _, run_onDisks hrun, hans⟩
  | fat12 V file l =>
      obtain ⟨hops, hon, f, hnode, hfile⟩ := h
      obtain ⟨r, s', hrun, hans⟩ := Fat12.fat12VfsRead_answers he hon hnode hfile hlen
        (hright f hnode.openFile) buffer
      rw [hops]
      rw [← hnode.size] at hans
      exact ⟨r, _, run_onFloppies hrun, hans⟩
  | ext2 fs =>
      obtain ⟨hops, hfs, hnode⟩ := h
      obtain ⟨r, hrun, hans⟩ := Ext2.ext2VfsRead_answers he hfs hnode hlen hright buffer
      rw [hops]
      exact ⟨r, _, run_onDisks hrun, hans⟩

end Source

/-- **The contract of `vfs_read`.** A file is open. After any reads, of this node and of others,
every read of it that its backend answers rightly returns, with the number of bytes and the bytes that
the file has there. -/
theorem vfsRead_answers (T : Tables) {src : Source} {node : Node sig} {s s' : Vfs.State sig}
    (hopen : src.Open s.globals node) (hreads : Reads T s s') {e : Env} (he : e.Reliable)
    {offset size : Nat} (hlen : offset + size < 2 ^ 31)
    (hright : src.ReadsRight e s'.globals node offset size) (buffer : Bytes) :
    ∃ r s'', (vfsRead T.ops node offset size buffer).run e s' = some (r, s'') ∧
      (src.file s.globals node).Answers offset size r := by
  have hg := hreads.onlyReads
  obtain ⟨r, g', hrun, hans⟩ := Source.read_answers (hopen.of_onlyReads hg) he hlen hright buffer
  rw [src.file_of_onlyReads hg] at hans
  refine ⟨r, { s' with globals := g' }, ?_, hans⟩
  rw [vfsRead_eq]
  unfold Vfs.onGlobals
  change Option.map _ (Prog.run (node.fs.ops.read node offset size buffer) e s'.globals) = _
  rw [hrun]
  rfl

/-! ### A file on each of the three -/

/-- A floppy of 1.44 MB, in whose FAT every cluster is the last one of a file. -/
def floppy : Fat12.Volume where
  fat12 :=
    { bootSector :=
        { bytesPerSector := 512
          sectorsPerCluster := 1
          reservedSectors := 1
          fatCount := 2
          rootEntryCount := 224
          totalSectors := 2880
          sectorsPerFat := 9
          sectorsPerTrack := 18
          heads := 2
          totalSectorsLarge := 0
          bootSectorSignature := 0xAA55 }
      fatStart := 1
      rootDirStart := 19
      dataStart := 33
      fat := some fun _ => 0xFF }
  fat := fun _ => 0xFF
  clusters := 2847
  fat_eq := rfl
  bytesPerSector_eq := rfl
  dataStart_eq := rfl
  sectorsPerCluster_pos := by decide
  sectorsPerCluster_le := by decide
  spt_lt := by decide
  heads_le := by decide
  clusters_lt := by decide
  stop_le := by decide
  fat_room := by decide

/-- A small ext2 volume: one group, whose inodes are in block 5. -/
def smallExt2 : Ext2.Ext2Fs where
  superblock := ⟨64, 1, 0, 8192, 8, 0xEF53, 128⟩
  groupDescTable := fun x => if x = 8 then 5 else 0
  blockSize := 1024
  numBlockGroups := 1
  drive := ⟨0x170, true⟩

/-- The two letters that all the files have. -/
def letters : Fat32.DirEntry := fun i => if i.val = 0 then 0x41 else if i.val = 1 then 0x42 else 0

/-- A file of two bytes on each volume: in cluster 3 of the FAT32 volume, in cluster 2 of the floppy,
and in inode 1 of the ext2 volume, which has block 6. -/
def threeFiles : Globals where
  fat32 :=
    { Fat32.smallFs (fun _ => 0x0FFFFFFF) (fun _ _ => letters) (fun _ => 0) with
      disks := fun drive => if drive.base = 0x170 then
          fun n x => if n = 10 ∧ x.val = 4 then 2 else if n = 10 ∧ x.val = 40 then 6
            else if n = 12 ∧ x.val < 2 then UInt8.ofNat (0x41 + x.val) else 0
        else Fat32.smallVolume.image (fun _ => 0x0FFFFFFF) (fun _ _ => letters) fun _ => 0 }
  fat12 :=
    { floppies := fun _ _ _ _ x => if x.val < 2 then UInt8.ofNat (0x41 + x.val) else 0
      fat12 := some floppy.fat12
      currentFddDrive := 0
      files := fun a => if a = 0 then some ⟨2, 2, 0⟩ else none
      entries := none
      currentDir := none }

/-- The tables, with mounting and reading only. -/
def mountAndRead : Tables where
  ops := fun b =>
    { mount := fun fs => b.mount fs
      unmount := none
      openNode := none
      close := none
      read := some fun node offset size buffer => b.read node offset size buffer
      readdir := none }
  read_eq := fun _ => rfl

/-- An open node of one of these files. -/
def openOn (ops : Backend) (inode : Nat) (data : FsData) (fsSpecific : Option NodeData) : Node sig where
  name := [0x41]
  type := .file
  inode := inode
  size := 2
  flags := 0
  fs := ⟨0, [], ⟨⟨0x1F0, true⟩, 0⟩, ops, some data, none⟩
  fsSpecific := fsSpecific

def fat32File : Node sig := openOn .fat32 3 (.fat32 Fat32.smallVolume.bs) (some (.fat32 letters))

def fat12File : Node sig := openOn .fat12 2 .fat12 (some (.fat12 0))

def ext2File : Node sig := openOn .ext2 1 (.ext2 smallExt2) none

theorem fat32File_open : Source.Open threeFiles fat32File (.fat32 Fat32.smallVolume [3]) := by
  refine ⟨rfl, ⟨rfl, rfl, rfl⟩, rfl, fun _ => .last ?_, by decide⟩
  decide

theorem fat12File_open : Source.Open threeFiles fat12File (.fat12 floppy 0 [2]) := by
  refine ⟨rfl, rfl, ⟨2, 2, 0⟩, ⟨rfl, rfl, rfl, rfl⟩, fun _ => .last ?_, by decide⟩
  decide

theorem ext2File_open : Source.Open threeFiles ext2File (.ext2 smallExt2) := by
  refine ⟨rfl, ⟨⟨by decide, by decide, by decide⟩, by decide⟩, rfl, ⟨by decide, by decide, by decide, by decide, ?_⟩,
    ?_, ?_⟩
  · unfold Ext2.Ext2Fs.Reaches
    decide
  · decide
  · unfold Ext2.Ext2Fs.Reaches
    decide

/-- The kernel with the three files open. -/
def started : Vfs.State sig := ⟨[], .empty, threeFiles⟩

/-- The floppy is read on, and then the other two are read. -/
theorem vfsRead_answers_threeFiles : ∃ s₁ s₂ s₃ r₁ r₂ r₃ r₄ s₄,
    (vfsRead mountAndRead.ops fat12File 0 1 (fun _ => 0)).run Fat32.quietEnv started = some (r₁, s₁) ∧
    (vfsRead mountAndRead.ops fat12File 1 5 (fun _ => 0)).run Fat32.quietEnv s₁ = some (r₂, s₂) ∧
    (Source.file threeFiles fat12File (.fat12 floppy 0 [2])).Answers 1 5 r₂ ∧
    (vfsRead mountAndRead.ops fat32File 0 2 (fun _ => 0)).run Fat32.quietEnv s₂ = some (r₃, s₃) ∧
    (Source.file threeFiles fat32File (.fat32 Fat32.smallVolume [3])).Answers 0 2 r₃ ∧
    (vfsRead mountAndRead.ops ext2File 1 1 (fun _ => 0)).run Fat32.quietEnv s₃ = some (r₄, s₄) ∧
    (Source.file threeFiles ext2File (.ext2 smallExt2)).Answers 1 1 r₄ := by
  have hmoved : ((vfsRead mountAndRead.ops fat12File 0 1 (fun _ => 0)).run Fat32.quietEnv started).map
      (fun r => (r.2.globals.fat12.files 0).map fun f => (f.startCluster, f.size, f.position))
        = some (some (2, 2, 1)) := by decide
  obtain ⟨⟨r₁, s₁⟩, h₁, hfile⟩ := Option.map_eq_some_iff.mp hmoved
  have hreads₁ : Reads mountAndRead started s₁ := .tail (.refl _) h₁
  -- the position of the file is the offset of the next read
  have hright : Source.ReadsRight Fat32.quietEnv s₁.globals fat12File 1 5 (.fat12 floppy 0 [2]) := by
    rintro ⟨c, n, p⟩ hf
    rw [hf] at hfile
    obtain ⟨rfl, rfl, rfl⟩ : c = 2 ∧ n = 2 ∧ p = 1 := by simpa using hfile
    refine Or.inr (Or.inr (Or.inr ⟨rfl, by decide, by decide, rfl, fun j hj => ?_⟩))
    change (j + 1) * 512 < min 6 2 at hj
    omega
  obtain ⟨r₂, s₂, h₂, hans₂⟩ := vfsRead_answers mountAndRead (s := started) fat12File_open hreads₁
    Fat32.quietEnv_reliable (by decide) hright (fun _ => 0)
  have hreads₂ : Reads mountAndRead started s₂ := .tail hreads₁ h₂
  have hright₃ : Source.ReadsRight Fat32.quietEnv s₂.globals fat32File 0 2
      (.fat32 Fat32.smallVolume [3]) := by
    refine Or.inr (Or.inr ⟨rfl, fun j hj => ?_⟩)
    change j * 512 < 2 at hj
    obtain rfl : j = 0 := by omega
    decide
  obtain ⟨r₃, s₃, h₃, hans₃⟩ := vfsRead_answers mountAndRead (s := started) fat32File_open hreads₂
    Fat32.quietEnv_reliable (by decide) hright₃ (fun _ => 0)
  have hright₄ : Source.ReadsRight Fat32.quietEnv s₃.globals ext2File 1 1 (.ext2 smallExt2) :=
    fun k h => absurd h.1 (by decide)
  obtain ⟨r₄, s₄, h₄, hans₄⟩ := vfsRead_answers mountAndRead (s := started) ext2File_open
    (.tail hreads₂ h₃) Fat32.quietEnv_reliable (by decide) hright₄ (fun _ => 0)
  exact ⟨s₁, s₂, s₃, r₁, r₂, r₃, r₄, s₄, h₁, h₂, hans₂, h₃, hans₃, h₄, hans₄⟩

/-- Not every read gives what is expected: the byte at offset 1 of a file on FAT32 is given as the one
at offset 0. -/
theorem not_vfsRead_answers : ¬ ∀ (T : Tables) (src : Source) (node : Node sig) (s s' : Vfs.State sig),
    src.Open s.globals node → Reads T s s' → ∀ e : Env, e.Reliable → e.HasMemory →
    ∀ offset size, offset + size < 2 ^ 31 → ∀ buffer : Bytes,
      ∃ r s'', (vfsRead T.ops node offset size buffer).run e s' = some (r, s'') ∧
        (src.file s.globals node).Answers offset size r := by
  intro hall
  obtain ⟨r, s'', hrun, hans⟩ := hall mountAndRead _ fat32File started started fat32File_open (.refl _)
    Fat32.quietEnv Fat32.quietEnv_reliable Fat32.quietEnv_hasMemory 1 1 (by decide) (fun _ => 0)
  have hfirst : ((vfsRead mountAndRead.ops fat32File 1 1 (fun _ => 0)).run Fat32.quietEnv started).map
      (fun r => r.1.2 0) = some 0x41 := by decide
  have hsecond : (Source.file threeFiles fat32File (.fat32 Fat32.smallVolume [3])).bytes 1
      = 0x42 := by decide
  have hbyte := hans.data 0 (by decide)
  rw [hrun] at hfirst
  rw [Nat.add_zero] at hbyte
  have hclash : (0x41 : UInt8) = 0x42 := by
    calc (0x41 : UInt8) = r.2 0 := (Option.some.inj hfirst).symm
      _ = _ := hbyte
      _ = 0x42 := hsecond
  exact absurd hclash (by decide)

end MicroKernel.Backends
