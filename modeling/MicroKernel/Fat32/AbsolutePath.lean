import MicroKernel.Fat32.Scanners

set_option autoImplicit false

/-! # Absolute paths and the current directory

`vfs_open` is given absolute paths. `fat32_vfs_open` takes what is left of one below the mount point
as the name of a single entry and looks it up in the directory the shell has changed to last.
`Volume.walk` is what the path means: one directory after the other from the root on.
`opensWalked_iff` says for which volumes and paths the two come to the same, whatever the current
directory is.
-/

namespace MicroKernel.Fat32

open MicroKernel.Lib Bytes Adapter

/-! ## What a path means -/

/-- The fields of a node that the claim of a path is about. -/
structure NodeInfo where
  inode : Nat
  type : Vfs.NodeType
  size : Nat
  deriving DecidableEq

/-- What a node says. -/
def nodeInfo (node : Vfs.Node sig) : NodeInfo := ⟨node.inode, node.type, node.size⟩

/-- What the node of an entry says. -/
def entryInfo (x : DirEntry) : NodeInfo := ⟨readStartCluster x, vfsType x, fileSize x⟩

namespace Volume

variable (V : Volume) (d : Disk)

open Classical in
/-- The clusters of the directory that starts at `c`. -/
noncomputable def chainOf (c : Nat) : List Nat :=
  if h : ∃ l, V.Chain d c l then h.choose else []

variable {V d} in
theorem chainOf_eq {c : Nat} {l : List Nat} (h : V.Chain d c l) : V.chainOf d c = l := by
  have hex : ∃ l, V.Chain d c l := ⟨l, h⟩
  unfold chainOf
  rw [dif_pos hex]
  exact hex.choose_spec.unique h

/-- The entry with the name `nm` in the directory that starts at `c`. -/
noncomputable def lookup (c : Nat) (nm : List UInt8) : Option DirEntry :=
  (V.firstOf d skipReaddir (isNamed nm) (V.chainOf d c)).map (V.entryIn d)

/-- The components of a path, one after the other. -/
noncomputable def walk : List (List UInt8) → NodeInfo → Option NodeInfo
  | [], n => some n
  | nm :: rest, n =>
      if n.type = .directory then (V.lookup d n.inode nm).bind fun x => walk rest (entryInfo x)
      else none

/-- The root directory. -/
def rootInfo : NodeInfo := ⟨V.bs.rootCluster, .directory, 0⟩

/-- What a path below the mount point leads to. -/
noncomputable def walkPath (path : List UInt8) : Option NodeInfo := V.walk d (tokens path) V.rootInfo

end Volume

/-- The answer of `vfs_open` to a path that leads there. -/
def answer : Option NodeInfo → Except Vfs.Error NodeInfo
  | some n => .ok n
  | none => .error .notFound

/-! ## What the current directory can be -/

/-- The state with another current directory. -/
def Fs.withCwd (s : Fs) (c : Nat) : Fs := { s with currentDirectoryCluster := c }

/-- The values that calls of `fat32_change_directory` can give to the current directory. -/
inductive Settable (s : Fs) : Nat → Prop
  | root : Settable s s.bootSector.rootCluster
  | change {c : Nat} {e : Env} {path : List UInt8} {s' : Fs} (hc : Settable s c)
      (hr : (fat32ChangeDirectory path).run e (s.withCwd c) = some (true, s')) :
      Settable s s'.currentDirectoryCluster

section settable

variable {V : Volume} {s : Fs} {S : Nat → Prop}

/-- A set of directories that has the directories in them. -/
def Closed (V : Volume) (d : Disk) (S : Nat → Prop) : Prop :=
  ∀ c, S c → ∃ l, V.Chain d c l ∧ ∀ p ∈ V.listing d l,
    (V.entryIn d p).isDirectory = true → S (readStartCluster (V.entryIn d p))

theorem Closed.followFrom (hS : Closed V s.disk S) (h : s.On V) {path : List (List UInt8)}
    {c t : Nat} (hc : S c) (hr : s.followFrom path c = some (some t)) : S t := by
  induction path generalizing c with
  | nil =>
      obtain rfl : c = t := Option.some.inj (Option.some.inj hr)
      exact hc
  | cons token rest ih =>
      obtain ⟨l, hl, hmem⟩ := hS c hc
      rw [Fs.followFrom, searchFrom_chain h token hl (Nat.le_of_lt hl.length_lt)] at hr
      cases hp : V.firstOf s.disk skipDeletedLfn (Fs.isDirNamed token) l with
      | none =>
          rw [hp] at hr
          cases hr
      | some p =>
          rw [hp, Option.bind_eq_bind, Option.bind_some, startOr] at hr
          obtain ⟨hlist, -, hnamed⟩ := firstOf_taken hp
          obtain ⟨hdir, -⟩ := Bool.and_eq_true _ _ ▸ hnamed
          have hstart := hmem p hlist hdir
          split at hr
          · cases hr
          · exact ih hstart hr

/-- A closed set that has the root has every directory that can be the current one. -/
theorem Closed.of_settable (hS : Closed V s.disk S) (h : s.On V) (hroot : S V.bs.rootCluster) {c : Nat}
    (hc : Settable s c) : S c := by
  induction hc with
  | root =>
      rw [h.boot]
      exact hroot
  | @change c e path s' _ hr ih =>
      have hon : (s.withCwd c).On V := ⟨h.boot, h.offset, h.drive⟩
      have htarget := changeDirectory_target hon hr
      -- a path starts at the root or at a directory that is in the set already
      have hstart : S ((s.withCwd c).pathStart path) := by
        unfold Fs.pathStart
        split
        · rw [hon.boot]
          exact hroot
        · exact ih
      apply Closed.followFrom (s := s.withCwd c) hS hon hstart htarget

end settable

/-! ## What `vfs_open` does -/

/-- The name that `fat32_vfs_open` looks up. -/
def lookupName (path : List UInt8) : List UInt8 := if path.head? = some 0x2F then path.tail else path

/-- The lookup in directory `c` comes to what the path leads to: an entry in the first cluster that
says the same, or no entry at all. -/
def FindsWalked (V : Volume) (e : Env) (d : Disk) (path : List UInt8) (c : Nat) : Prop :=
  match V.walkPath d path with
  | none => (e.enter .find).Searches V →
      V.firstOf d skipDeletedLfn (isNamed (lookupName path)) [c] = none
  | some n => (e.enter .find).Searches V ∧ e.outOfMemory (.store 0 :: e.path) = false ∧
      ∃ p, V.firstOf d skipDeletedLfn (isNamed (lookupName path)) [c] = some p ∧
        entryInfo (V.entryIn d p) = n

section openPath

variable {V : Volume} {e : Env} {fs : Vfs.Filesystem sig} {path : List UInt8}

theorem run_fat32VfsOpen_root {root : Nat} (hroot : fs.root = some root) (g : Fs) :
    (fat32VfsOpen fs [0x2F]).run e g
      = some (.ok (rootNode fs root), { g with currentDrive := fs.drive }) := by
  unfold fat32VfsOpen
  rw [hroot]
  rfl

theorem run_fat32VfsOpen (hpath : path ≠ [0x2F]) (g : Fs) :
    (fat32VfsOpen fs path).run e g
      = ((findFileInDirectory (lookupName path)).run (e.enter .find)
          { g with currentDrive := fs.drive }).map fun r =>
        (match r.1 with
          | none => .error .notFound
          | some x => if e.outOfMemory (.store 0 :: e.path) then .error .noMemory
              else .ok (entryNode fs x), r.2) := by
  unfold fat32VfsOpen
  rw [if_neg hpath]
  change ((findFileInDirectory (lookupName path)).run (e.enter .find)
    { g with currentDrive := fs.drive }).bind _ = _
  cases (findFileInDirectory (lookupName path)).run (e.enter .find)
      { g with currentDrive := fs.drive } with
  | none => rfl
  | some r =>
      obtain ⟨x, s'⟩ := r
      cases x with
      | none => rfl
      | some x =>
          change Prog.run (if e.outOfMemory (.store 0 :: e.path) = true then _ else _) e s' = _
          rw [Prog.run_ite]
          cases e.outOfMemory (.store 0 :: e.path) with
          | true => rfl
          | false => rfl

/-- A path that is not the mount point itself. -/
theorem fat32VfsOpen_walked_iff {g : Fs}
    (h : Fs.Ready { g with currentDrive := fs.drive } V) (hpath : path ≠ [0x2F]) :
    ((fat32VfsOpen fs path).run e g).map (fun r => r.1.map nodeInfo)
        = some (answer (V.walkPath (g.disks fs.drive) path)) ↔
      FindsWalked V e (g.disks fs.drive) path g.currentDirectoryCluster := by
  have hiff : ∀ x s', (findFileInDirectory (lookupName path)).run (e.enter .find)
      { g with currentDrive := fs.drive } = some (some x, s') ↔ _ :=
    fun x s' => findFile_iff h
  rw [run_fat32VfsOpen hpath, Option.map_map]
  unfold FindsWalked
  -- `find_file_in_directory` returns, in the state it was called in
  obtain ⟨r, hr⟩ : ∃ r, (findFileInDirectory (lookupName path)).run (e.enter .find)
      { g with currentDrive := fs.drive } = some (r, { g with currentDrive := fs.drive }) := by
    by_cases hex : (e.enter .find).Searches V ∧ ∃ j, V.FoundAt
        (Fs.disk { g with currentDrive := fs.drive }) g.currentDirectoryCluster (lookupName path) j
    · obtain ⟨hs, j, hj⟩ := hex
      exact ⟨_, run_findFileInDirectory hs h hj⟩
    · exact ⟨_, run_findFileInDirectory_none h fun hs j hj => hex ⟨hs, j, hj⟩⟩
  rw [hr, Option.map_some, Option.some.injEq]
  cases hwalk : V.walkPath (g.disks fs.drive) path with
  | none =>
      cases r with
      | none =>
          refine ⟨fun _ hs => ?_, fun _ => rfl⟩
          cases hp : V.firstOf (g.disks fs.drive) skipDeletedLfn (isNamed (lookupName path))
              [g.currentDirectoryCluster] with
          | none => rfl
          | some p =>
              rw [(hiff (V.entryIn (g.disks fs.drive) p) _).mpr ⟨rfl, hs, p, hp, rfl⟩] at hr
              cases hr
      | some x =>
          obtain ⟨-, hs, p, hp, rfl⟩ := (hiff x _).mp hr
          constructor
          · intro heq
            simp only [Function.comp_apply, answer] at heq
            split at heq
            · cases heq
            · cases heq
          · intro hnone
            rw [show V.firstOf (g.disks fs.drive) _ _ _ = _ from hp] at hnone
            cases hnone hs
  | some n =>
      cases r with
      | none =>
          constructor
          · intro heq
            cases heq
          · rintro ⟨hs, -, p, hp, -⟩
            rw [(hiff (V.entryIn (g.disks fs.drive) p) _).mpr ⟨rfl, hs, p, hp, rfl⟩] at hr
            cases hr
      | some x =>
          obtain ⟨-, hs, p, hp, rfl⟩ := (hiff x _).mp hr
          simp only [Function.comp_apply, answer]
          cases hm : e.outOfMemory (.store 0 :: e.path) with
          | true =>
              constructor
              · intro heq
                cases heq
              · rintro ⟨-, hm', -⟩
                cases hm'
          | false =>
              constructor
              · intro heq
                exact ⟨hs, rfl, p, hp, Except.ok.inj heq⟩
              · rintro ⟨-, -, q, hq, rfl⟩
                obtain rfl : p = q := Option.some.inj (hp.symm.trans hq)
                rfl

end openPath

/-! ## The exact condition -/

/-- The kernel with another current directory. -/
def withCwd (s : Vfs.State sig) (c : Nat) : Vfs.State sig := { s with globals := s.globals.withCwd c }

/-- `vfs_open` of a path of the file system `fs` gives what the path leads to from the root, for
every value that `fat32_change_directory` can give to the current directory on its drive. -/
def OpensWalked (V : Volume) (e : Env) (s : Vfs.State sig) (fs : Vfs.Filesystem sig)
    (path : List UInt8) : Prop :=
  ∀ c, Settable { s.globals with currentDrive := fs.drive } c →
    ((Vfs.vfsOpen tables path).run e (withCwd s c)).map (fun r => r.1.map nodeInfo)
      = some (answer (V.walkPath (s.globals.disks fs.drive)
          (Vfs.vfsGetRelativePath s.mountList path fs)))

section iff

variable {V : Volume} {e : Env} {s : Vfs.State sig} {fs : Vfs.Filesystem sig} {path : List UInt8}

theorem run_vfsOpen_withCwd (hfs : Vfs.vfsGetFilesystem s.mountList path = some fs) (c : Nat) :
    ((Vfs.vfsOpen tables path).run e (withCwd s c)).map (fun r => r.1.map nodeInfo)
      = ((fat32VfsOpen fs (Vfs.vfsGetRelativePath s.mountList path fs)).run e
          (s.globals.withCwd c)).map fun r => r.1.map nodeInfo := by
  rw [run_vfsOpen (s := withCwd s c) hfs]
  change Option.map _ (Option.map _ _) = _
  rw [Option.map_map]
  rfl

/-- **Absolute paths do not depend on the current directory** exactly for the mount point itself and
for the paths that are found as a whole in the first cluster of every directory. -/
theorem opensWalked_iff (hfs : Vfs.vfsGetFilesystem s.mountList path = some fs)
    (hroot : fs.root = some V.bs.rootCluster)
    (hV : ∀ c, Settable { s.globals with currentDrive := fs.drive } c →
      Fs.Ready { s.globals.withCwd c with currentDrive := fs.drive } V) :
    OpensWalked V e s fs path ↔ Vfs.vfsGetRelativePath s.mountList path fs = [0x2F] ∨
      ∀ c, Settable { s.globals with currentDrive := fs.drive } c →
        FindsWalked V e (s.globals.disks fs.drive) (Vfs.vfsGetRelativePath s.mountList path fs) c := by
  unfold OpensWalked
  by_cases hpath : Vfs.vfsGetRelativePath s.mountList path fs = [0x2F]
  · constructor
    · intro _
      exact Or.inl hpath
    · intro _ c _
      -- no component is left, and the answer is the root node
      rw [run_vfsOpen_withCwd hfs, hpath, run_fat32VfsOpen_root hroot]
      rfl
  · have hopen := fun c (hc : Settable { s.globals with currentDrive := fs.drive } c) =>
      fat32VfsOpen_walked_iff (e := e) (g := s.globals.withCwd c) (hV c hc) hpath
    constructor
    · intro h
      right
      intro c hc
      apply (hopen c hc).mp
      rw [← run_vfsOpen_withCwd hfs]
      exact h c hc
    · rintro (h | h) c hc
      · exact absurd h hpath
      · rw [run_vfsOpen_withCwd hfs]
        exact (hopen c hc).mpr (h c hc)

end iff

/-! ### Two small volumes -/

/-- The small volume as a file system. -/
def smallMount : Vfs.Filesystem sig :=
  ⟨1, fat32Name, ⟨0x1F0, true⟩, (), some smallVolume.bs, some smallVolume.bs.rootCluster⟩

/-- The kernel with the small volume at `/`. -/
def mountedAtRoot (g : Fs) : Vfs.State sig :=
  { registered g with mountList := ⟨[⟨[0x2F], smallMount⟩], List.pairwise_singleton _ _⟩ }

theorem twoFilesFs_closed : Closed smallVolume twoFilesFs.disk (· = 2) := by
  rintro c rfl
  refine ⟨[2], .last (by decide), ?_⟩
  rw [twoFilesFs_listing]
  decide

/-- The file `A` in a root that has no directories. -/
theorem opensWalked_twoFiles :
    OpensWalked smallVolume quietEnv (mountedAtRoot twoFilesFs) smallMount [0x2F, 0x41] := by
  have hroot : ∀ c, Settable twoFilesFs c → c = 2 := fun c hc =>
    twoFilesFs_closed.of_settable twoFilesFs_ready.on rfl hc
  apply (opensWalked_iff (V := smallVolume) rfl rfl ?_).mpr
  · right
    intro c hc
    obtain rfl := hroot c hc
    have hchain : smallVolume.Chain twoFilesFs.disk 2 [2] := .last (by decide)
    have hwalk : smallVolume.walkPath twoFilesFs.disk [0x41]
        = some (entryInfo (smallVolume.entryIn twoFilesFs.disk (2, 0))) := by
      have hfirst : smallVolume.firstOf twoFilesFs.disk skipReaddir (isNamed [0x41]) [2]
          = some (2, 0) := by decide
      have htokens : tokens [0x41] = [[0x41]] := by decide
      have hlookup : smallVolume.lookup twoFilesFs.disk smallVolume.rootInfo.inode [0x41]
          = some (smallVolume.entryIn twoFilesFs.disk (2, 0)) := by
        unfold Volume.lookup
        rw [show smallVolume.rootInfo.inode = 2 from rfl, Volume.chainOf_eq hchain, hfirst]
        rfl
      have hdirectory : smallVolume.rootInfo.type = .directory := rfl
      rw [Volume.walkPath, htokens, Volume.walk, if_pos hdirectory, hlookup, Option.bind_some,
        Volume.walk]
    have hpath : Vfs.vfsGetRelativePath (mountedAtRoot twoFilesFs).mountList [0x2F, 0x41] smallMount
        = [0x41] := rfl
    have hdisk : (mountedAtRoot twoFilesFs).globals.disks smallMount.drive = twoFilesFs.disk := rfl
    unfold FindsWalked
    rw [hpath, hdisk, hwalk]
    exact ⟨(quietEnv_reliable.enter .find).searches fun _ => rfl, rfl, (2, 0), by decide, rfl⟩
  · intro c hc
    obtain rfl := hroot c hc
    exact twoFilesFs_ready

/-- The small volume with the file F and the directory D in the root. -/
def fileAndDirFs : Fs :=
  smallFs (fun c => if c = 2 ∨ c = 3 ∨ c = 4 then eocMax else 0)
    (fun c j =>
      if c = 2 ∧ j = 0 then quietEnv.newEntry [0x46] 4 0
      else if c = 2 ∧ j = 1 then quietEnv.newEntry [0x44] 3 0x10
      else if c = 3 ∧ j = 0 then quietEnv.newEntry [0x2E] 3 0x10
      else if c = 3 ∧ j = 1 then quietEnv.newEntry [0x2E, 0x2E] 2 0x10
      else zeroEntry) (fun _ => 0)

theorem fileAndDirFs_closed : Closed smallVolume fileAndDirFs.disk (fun c => c = 2 ∨ c = 3) := by
  rintro c (rfl | rfl)
  · exact ⟨[2], .last (by decide), by decide⟩
  · exact ⟨[3], .last (by decide), by decide⟩

/-- From the directory D the path `/F` is not found. -/
theorem not_opensWalked_fileAndDir :
    (∀ c, Settable fileAndDirFs c → (fileAndDirFs.withCwd c).Ready smallVolume) ∧
      Vfs.vfsGetFilesystem (mountedAtRoot fileAndDirFs).mountList [0x2F, 0x46] = some smallMount ∧
      ¬ OpensWalked smallVolume quietEnv (mountedAtRoot fileAndDirFs) smallMount [0x2F, 0x46] := by
  have hready : fileAndDirFs.Ready smallVolume := smallFs_ready _ _ _
  refine ⟨fun c hc => ?_, rfl, fun hopens => ?_⟩
  · rcases fileAndDirFs_closed.of_settable hready.on (Or.inl rfl) hc with rfl | rfl
    · exact hready
    · exact ⟨⟨rfl, rfl, rfl⟩, hready.info, show smallVolume.Has 3 by decide⟩
  · have hdown : ((fat32ChangeDirectory [0x44]).run quietEnv (fileAndDirFs.withCwd 2)).map
        (fun r => (r.1, r.2.currentDirectoryCluster)) = some (true, 3) := by
      decide
    obtain ⟨⟨b, s'⟩, hrun, heq⟩ := Option.map_eq_some_iff.mp hdown
    obtain ⟨rfl, hcwd⟩ := Prod.mk.inj heq
    have h2 : Settable fileAndDirFs 2 := .root
    have h3 : Settable fileAndDirFs 3 := hcwd ▸ .change h2 hrun
    -- if the answer were the right one in both directories, it would be the same
    have hsame := congrArg (Option.map Except.isOk) ((hopens 2 h2).trans (hopens 3 h3).symm)
    exact absurd hsame (by decide)

end MicroKernel.Fat32
