import MicroKernel.Lib.Prog

set_option autoImplicit false

/-! # The virtual file system (`fs/vfs/vfs.c`)

File systems register an operation table under a name; `vfs_mount` makes a file system of a drive
and puts it at a path, and every other call finds its file system by the path it is given. What
the tables do, and what they keep in `fs_data` and `fs_specific`, the VFS does not look into: it
is the parameter `Sig`.

Strings are lists of bytes, without the terminating zero. Pointers that no caller passes as `NULL`
are not tested for it. A file system is compared by its address, so a mount table carries the
proof that no two of its file systems lie at the same one.
-/

namespace MicroKernel.Vfs

open MicroKernel.Lib

/-- What the VFS does not look into. -/
structure Sig where
  /-- The addresses of the operation tables. -/
  Ops : Type
  /-- `drive_t`. -/
  Drive : Type
  /-- What `fs_data` points to. -/
  FsData : Type
  /-- What `fs_specific` points to. -/
  NodeData : Type
  Env : Type
  /-- The state of the file systems and of the disks. -/
  Globals : Type

/-- `VFS_ERR_…`. -/
inductive Error where
  | notFound
  | noMemory
  | invalid
  | io
  | exists
  | notDir
  | isDir
  | noSpace
  | readOnly
  | unsupported
  deriving DecidableEq, Repr

/-- `vfs_node_type_t`. -/
inductive NodeType where
  | file
  | directory
  | charDevice
  | blockDevice
  | pipe
  | symlink
  | mountPoint
  deriving DecidableEq, Repr

variable {S : Sig}

/-- `vfs_filesystem_t`. The root node is its inode: the other fields of it are the same for every
file system that has one. -/
structure Filesystem (S : Sig) where
  addr : Nat
  name : List UInt8
  drive : S.Drive
  ops : S.Ops
  fsData : Option S.FsData
  root : Option Nat

/-- `vfs_node_t`. -/
structure Node (S : Sig) where
  name : List UInt8
  type : NodeType
  inode : Nat
  size : Nat
  flags : Nat
  fs : Filesystem S
  fsSpecific : Option S.NodeData

/-- `vfs_dir_entry_t`. -/
structure DirEntry where
  name : List UInt8
  type : NodeType
  size : Nat
  inode : Nat
  createTime : Nat
  modifyTime : Nat
  accessTime : Nat
  attributes : UInt8
  deriving DecidableEq

/-- What `mount` of an operation table stores in the file system. -/
structure Mounted (S : Sig) where
  fsData : Option S.FsData
  root : Option Nat

/-- `vfs_filesystem_ops_t`, as far as the calls below use it. A pointer that may be `NULL` is an
`Option`. A read gives the number of bytes and what the buffer holds then. -/
structure FilesystemOps (S : Sig) where
  mount : Filesystem S → Prog S.Env S.Globals (Except Error (Mounted S))
  unmount : Option (Filesystem S → S.Globals → S.Globals)
  openNode : Option (Filesystem S → List UInt8 → Prog S.Env S.Globals (Except Error (Node S)))
  close : Option (Node S → S.Globals → S.Globals)
  read : Option (Node S → Nat → Nat → (Nat → UInt8) →
    Prog S.Env S.Globals (Except Error Nat × (Nat → UInt8)))
  readdir : Option (Node S → Nat → Prog S.Env S.Globals (Except Error DirEntry))

/-! ## The mount table -/

/-- `vfs_mount_t`. -/
structure Mount (S : Sig) where
  path : List UInt8
  fs : Filesystem S

/-- `mount_list`, from its head on, which is the mount made last. -/
structure MountTable (S : Sig) where
  mounts : List (Mount S)
  distinct : mounts.Pairwise fun m m' => m.fs.addr ≠ m'.fs.addr

namespace MountTable

/-- The table without mounts. -/
def empty : MountTable S := ⟨[], List.Pairwise.nil⟩

/-- No mounted file system lies at `addr`. -/
def Fresh (t : MountTable S) (addr : Nat) : Prop := ∀ m ∈ t.mounts, addr ≠ m.fs.addr

instance (t : MountTable S) (addr : Nat) : Decidable (t.Fresh addr) :=
  inferInstanceAs (Decidable (∀ m ∈ t.mounts, _))

/-- A mount becomes the head of the list. -/
def push (t : MountTable S) (m : Mount S) (h : t.Fresh m.fs.addr) : MountTable S :=
  ⟨m :: t.mounts, List.pairwise_cons.mpr ⟨h, t.distinct⟩⟩

/-- The list without the first mount at `path`. -/
def remove (t : MountTable S) (path : List UInt8) : MountTable S :=
  ⟨t.mounts.eraseP fun m => m.path = path, t.distinct.sublist (List.eraseP_sublist)⟩

end MountTable

/-! ## Path resolution -/

/-- `strncmp(str1, str2, n) == 0`. -/
def strncmpEq : List UInt8 → List UInt8 → Nat → Bool
  | _, _, 0 => true
  | [], [], _ + 1 => true
  | [], _ :: _, _ + 1 => false
  | _ :: _, [], _ + 1 => false
  | a :: s, b :: t, n + 1 => if a = b then strncmpEq s t n else false

/-- The loop of `vfs_get_filesystem`. -/
def bestMatch (path : List UInt8) : List (Mount S) → Option (Mount S) → Nat → Option (Mount S)
  | [], best, _ => best
  | current :: rest, best, bestLen =>
      let mountLen := current.path.length
      if strncmpEq path current.path mountLen = true ∧ bestLen < mountLen then
        bestMatch path rest (some current) mountLen
      else bestMatch path rest best bestLen

/-- `vfs_get_filesystem`. -/
def vfsGetFilesystem (t : MountTable S) (path : List UInt8) : Option (Filesystem S) :=
  if path.head? = some 0x2F then (bestMatch path t.mounts none 0).map (·.fs) else none

/-- The loop of `vfs_get_relative_path`. -/
def relativeTo (absolutePath : List UInt8) (fs : Filesystem S) : List (Mount S) → List UInt8
  | [] => absolutePath
  | current :: rest =>
      if current.fs.addr = fs.addr ∧
          strncmpEq absolutePath current.path current.path.length = true then
        let relative := absolutePath.drop current.path.length
        if relative = [] then [0x2F] else relative
      else relativeTo absolutePath fs rest

/-- `vfs_get_relative_path`. -/
def vfsGetRelativePath (t : MountTable S) (absolutePath : List UInt8) (fs : Filesystem S) :
    List UInt8 :=
  relativeTo absolutePath fs t.mounts

/-! ## Registering, mounting, unmounting -/

/-- `registered_filesystems` up to `fs_count`, `mount_list`, and everything else. -/
structure State (S : Sig) where
  registered : List (List UInt8 × S.Ops)
  mountList : MountTable S
  globals : S.Globals

/-- `MAX_FILESYSTEMS`. -/
def maxFilesystems : Nat := 10

/-- `vfs_register_filesystem`. -/
def vfsRegisterFilesystem (name : List UInt8) (table : S.Ops) (s : State S) :
    Except Error Unit × State S :=
  if maxFilesystems ≤ s.registered.length then (.error .noMemory, s)
  else if s.registered.any (fun r => r.1 = name) then (.error .exists, s)
  else (.ok (), { s with registered := s.registered ++ [(name.take 31, table)] })

/-- A program of a file system, as a program of the kernel. -/
def onGlobals {α : Type} (m : Prog S.Env S.Globals α) : Prog S.Env (State S) α := fun e s =>
  (m.run e s.globals).map fun r => (r.1, { s with globals := r.2 })

/-- What the two calls of `malloc` in `vfs_mount` come to: the address of the file system, and
whether there is memory for the mount. An address that is in use is never given out, so one that
is proposed here stands for a call that fails. -/
structure Memory where
  fs : Option Nat
  mount : Bool

/-- The table that is registered as `name`. -/
def State.findOps (s : State S) (name : List UInt8) : Option S.Ops :=
  (s.registered.find? fun r => r.1 = name).map (·.2)

/-- `vfs_mount`. -/
def vfsMount (ops : S.Ops → FilesystemOps S) (memory : Memory) (drive : S.Drive)
    (fsType mountPath : List UInt8) : Prog S.Env (State S) (Except Error Unit) := do
  let s ← Prog.get
  match s.findOps fsType with
  | none => return .error .unsupported
  | some table =>
      match memory.fs with
      | none => return .error .noMemory
      | some addr =>
          if h : s.mountList.Fresh addr then
            let fs : Filesystem S := ⟨addr, fsType.take 31, drive, table, none, none⟩
            match ← onGlobals ((ops table).mount fs) with
            | .error err => return .error err
            | .ok result =>
                let fs := { fs with fsData := result.fsData, root := result.root }
                if memory.mount then
                  Prog.modify fun s' =>
                    { s' with mountList := s.mountList.push ⟨mountPath.take 255, fs⟩ h }
                  return .ok ()
                else
                  match (ops table).unmount with
                  -- a call through `NULL`
                  | none => Prog.diverge
                  | some unmount =>
                      Prog.modify fun s' => { s' with globals := unmount fs s'.globals }
                      return .error .noMemory
          else return .error .noMemory

/-- `vfs_unmount`. -/
def vfsUnmount (ops : S.Ops → FilesystemOps S) (mountPath : List UInt8) (s : State S) :
    Except Error Unit × State S :=
  match s.mountList.mounts.find? fun m => m.path = mountPath with
  | none => (.error .notFound, s)
  | some toRemove =>
      let globals := match (ops toRemove.fs.ops).unmount with
        | none => s.globals
        | some unmount => unmount toRemove.fs s.globals
      (.ok (), { s with mountList := s.mountList.remove mountPath, globals })

/-! ## Files and directories -/

/-- `vfs_open`. -/
def vfsOpen (ops : S.Ops → FilesystemOps S) (path : List UInt8) :
    Prog S.Env (State S) (Except Error (Node S)) := do
  let s ← Prog.get
  match vfsGetFilesystem s.mountList path with
  | none => return .error .notFound
  | some fs =>
      match (ops fs.ops).openNode with
      | none => return .error .unsupported
      | some openNode => onGlobals (openNode fs (vfsGetRelativePath s.mountList path fs))

/-- `vfs_read`. -/
def vfsRead (ops : S.Ops → FilesystemOps S) (node : Node S) (offset size : Nat)
    (buffer : Nat → UInt8) : Prog S.Env (State S) (Except Error Nat × (Nat → UInt8)) :=
  match (ops node.fs.ops).read with
  | none => return (.error .unsupported, buffer)
  | some read => onGlobals (read node offset size buffer)

/-- The calls of `close` in `vfs_readdir`. -/
def closeNode (ops : S.Ops → FilesystemOps S) (fs : Filesystem S) (node : Node S) :
    Prog S.Env (State S) Unit :=
  match (ops fs.ops).close with
  | none => return ()
  | some close => Prog.modify fun s => { s with globals := close node s.globals }

/-- `vfs_readdir`. -/
def vfsReaddir (ops : S.Ops → FilesystemOps S) (path : List UInt8) (index : Nat) :
    Prog S.Env (State S) (Except Error DirEntry) := do
  let s ← Prog.get
  match vfsGetFilesystem s.mountList path with
  | none => return .error .notFound
  | some fs =>
      match (ops fs.ops).openNode with
      | none => return .error .unsupported
      | some openNode =>
          match ← onGlobals (openNode fs (vfsGetRelativePath s.mountList path fs)) with
          | .error err => return .error err
          | .ok dirNode =>
              if dirNode.type ≠ .directory then
                closeNode ops fs dirNode
                return .error .notDir
              match (ops fs.ops).readdir with
              | none =>
                  closeNode ops fs dirNode
                  return .error .unsupported
              | some readdir =>
                  let result ← onGlobals (readdir dirNode index)
                  closeNode ops fs dirNode
                  return result

end MicroKernel.Vfs
