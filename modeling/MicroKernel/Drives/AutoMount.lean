import MicroKernel.Drives.Detect
import MicroKernel.Lib.Bytes
import MicroKernel.Vfs.Algebra

set_option autoImplicit false

/-! # Mounting the drives (`fs/vfs/filesystem.c`)

`auto_mount_all_drives` mounts the detected drives in the order of the table: the first one that can be
mounted at `/`, and the others at `/mnt/` and their name. The entry of a drive then holds its mount
point, and the mount table of the VFS holds the file system. That the two agree, and that no two drives
have the same mount point, is `Kernel.Sound`; it holds after the start (`boot_sound`).

A `drive_t *` is the place of the drive in `detected_drives`. What the disks hold, which calls of
`malloc` fail, and what the file systems do, is not known here: `Outside` is what one call of `vfs_mount`
meets.
-/

namespace MicroKernel.Drives

open MicroKernel.Lib MicroKernel.Vfs Bytes

/-! ## The kernel -/

/-- A signature whose drives are places in `detected_drives`. -/
abbrev Indexed (S : Sig) : Sig := { S with Drive := Nat }

/-- The variables of the shell and of the VFS. -/
structure Kernel (S : Sig) where
  table : DriveTable
  currentDrive : Option Nat
  currentPath : List UInt8
  vfs : State (Indexed S)

/-- What a mount of a drive meets: the environment of its file system, the memory for `vfs_mount`, and
the sectors of the drive that `ata_read_sector` can read. -/
structure Outside (S : Sig) where
  env : S.Env
  memory : Memory
  reads : Nat → Option Bytes

variable {S : Sig}

/-- Set the mount point of a drive. -/
def DriveTable.setMountPoint (t : DriveTable) (i : Nat) (path : List UInt8) : DriveTable :=
  ⟨t.drives.modify i fun d => { d with mountPoint := path }, by
    rw [List.length_modify]
    exact t.length_le⟩

/-- The type of the file system on an ATA drive: `ext2` where sector 2 has the magic number and sector
3 can be read too, else `fat32`. Nothing is mounted without sector 0. -/
def fsTypeOf (reads : Nat → Option Bytes) : Option (List UInt8) :=
  (reads 0).map fun _ =>
    if ((reads 2).any fun ext2Buffer => load16 ext2Buffer 56 = 0xEF53) ∧ (reads 3).isSome then
      ofString "ext2"
    else ofString "fat32"

/-- Mount a file system of drive `i`, and note the mount point where that succeeds. -/
def mountAt (ops : (Indexed S).Ops → FilesystemOps (Indexed S)) (w : Outside S) (i : Nat)
    (fsType mountPath : List UInt8) (k : Kernel S) : Option (Bool × Kernel S) :=
  ((vfsMount ops w.memory i fsType mountPath).run w.env k.vfs).map fun (result, vfs) =>
    match result with
    | .error _ => (false, { k with vfs })
    | .ok () => (true, { k with vfs, table := k.table.setMountPoint i (mountPath.take 63) })

/-- The part that `auto_mount_all_drives` and `cmd_mount` have in common: whether drive `i` has been
mounted at the path. -/
def mountDrive (ops : (Indexed S).Ops → FilesystemOps (Indexed S)) (w : Outside S) (i : Nat)
    (drive : Drive) (mountPath : List UInt8) (k : Kernel S) : Option (Bool × Kernel S) :=
  match drive.type with
  | .ata =>
      match fsTypeOf w.reads with
      | none => some (false, k)
      | some fsType => mountAt ops w i fsType mountPath k
  | .fdd => mountAt ops w i (ofString "fat12") mountPath k
  | .none => some (false, k)

/-! ## The start -/

/-- The path `/`. -/
def rootPath : List UInt8 := [0x2F]

/-- The path that `"/mnt/%s"` makes of a name. -/
def mntPath (name : List UInt8) : List UInt8 := ofString "/mnt/" ++ name

/-- The loop of `auto_mount_all_drives`, over the places of the table. The file systems are mounted
each in an environment of its own. -/
def autoMountLoop (ops : (Indexed S).Ops → FilesystemOps (Indexed S)) (outside : Nat → Outside S) :
    List Nat → Bool → Nat → Kernel S → Option (Nat × Kernel S)
  | [], _, mountedCount, k => some (mountedCount, k)
  | i :: rest, firstDriveSet, mountedCount, k =>
      match k.table.drives[i]? with
      | none => autoMountLoop ops outside rest firstDriveSet mountedCount k
      | some drive => do
          let mountPath := if firstDriveSet then fitted 32 (mntPath drive.name) else rootPath
          let (mounted, k) ← mountDrive ops (outside i) i drive mountPath k
          if mounted then
            let k := if firstDriveSet then k else { k with currentDrive := some i }
            autoMountLoop ops outside rest true (mountedCount + 1) k
          else autoMountLoop ops outside rest firstDriveSet mountedCount k

/-- The operation tables of the three file systems. -/
structure Registered (S : Sig) where
  fat32 : S.Ops
  fat12 : S.Ops
  ext2 : S.Ops

/-- `vfs_init`, and the registrations behind it. -/
def vfsStart (tables : Registered S) (globals : S.Globals) : State (Indexed S) :=
  let vfs : State (Indexed S) := ⟨[], .empty, globals⟩
  let vfs := (vfsRegisterFilesystem (S := Indexed S) (ofString "fat32") tables.fat32 vfs).2
  let vfs := (vfsRegisterFilesystem (S := Indexed S) (ofString "fat12") tables.fat12 vfs).2
  (vfsRegisterFilesystem (S := Indexed S) (ofString "ext2") tables.ext2 vfs).2

/-- `auto_mount_all_drives`. -/
def autoMountAllDrives (ops : (Indexed S).Ops → FilesystemOps (Indexed S)) (tables : Registered S)
    (outside : Nat → Outside S) (k : Kernel S) : Option (Kernel S) :=
  if k.table.drives = [] then some k
  else do
    let k := { k with vfs := vfsStart tables k.vfs.globals }
    let (mountedCount, k) ← autoMountLoop ops outside (List.range k.table.drives.length) false 0 k
    if mountedCount = 0 then some { k with currentDrive := none } else some k

/-- The end of `driver_init`: the drives are detected and mounted. -/
def boot (ops : (Indexed S).Ops → FilesystemOps (Indexed S)) (tables : Registered S) (hw : Hardware)
    (outside : Nat → Outside S) (globals : S.Globals) : Option (Kernel S) := do
  let table ← detectDrives hw
  autoMountAllDrives ops tables outside ⟨table, none, rootPath, ⟨[], .empty, globals⟩⟩

/-! ## Names and paths -/

theorem length_of_mem_driveNames {name : List UInt8} (h : name ∈ driveNames) : name.length = 4 := by
  rw [driveNames_eq] at h
  revert name
  decide

@[simp] theorem length_mntPath (name : List UInt8) : (mntPath name).length = 5 + name.length := by
  unfold mntPath
  rw [List.length_append]
  rfl

theorem mntPath_ne_root (name : List UInt8) : mntPath name ≠ rootPath := by
  intro h
  have hlen := congrArg List.length h
  rw [length_mntPath] at hlen
  change 5 + name.length = 1 at hlen
  omega

theorem fitted_mntPath {name : List UInt8} (h : name.length = 4) :
    fitted 32 (mntPath name) = mntPath name := by
  unfold fitted
  exact List.take_of_length_le (by simp [h])

/-- The paths at which a drive of that name is mounted. -/
def IsMountPoint (name path : List UInt8) : Prop := path = rootPath ∨ path = mntPath name

theorem IsMountPoint.length_le {name path : List UInt8} (h : IsMountPoint name path)
    (hn : name.length = 4) : 0 < path.length ∧ path.length ≤ 9 := by
  rcases h with rfl | rfl
  · decide
  · rw [length_mntPath, hn]
    decide

/-! ## What a mount changes -/

/-- The two have the same drives and the same mounts. -/
structure SameMounts (k k' : Kernel S) : Prop where
  table : k'.table = k.table
  mountList : k'.vfs.mountList = k.vfs.mountList

/-- Drive `i` has been mounted at `path`. -/
structure Attached (i : Nat) (path : List UInt8) (k k' : Kernel S) : Prop where
  table : k'.table = k.table.setMountPoint i path
  mountList : ∃ m, ∃ hf : k.vfs.mountList.Fresh m.fs.addr,
    k'.vfs.mountList = k.vfs.mountList.push m hf ∧ m.path = path ∧ m.fs.drive = i

variable (ops : (Indexed S).Ops → FilesystemOps (Indexed S))

theorem mountAt_cases {w : Outside S} {i : Nat} {fsType path : List UInt8} {k k' : Kernel S}
    {mounted : Bool} (hlen : path.length ≤ 63)
    (h : mountAt ops w i fsType path k = some (mounted, k')) :
    k'.currentDrive = k.currentDrive ∧ k'.currentPath = k.currentPath ∧
      (mounted = false ∧ SameMounts k k' ∨ mounted = true ∧ Attached i path k k') := by
  obtain ⟨⟨result, vfs⟩, hrun, heq⟩ := Option.map_eq_some_iff.mp h
  rcases vfsMount_cases ops hrun with ⟨addr, m, hf, rfl, -, hm, hmount⟩ | ⟨⟨err, rfl⟩, hmount⟩
  · obtain ⟨rfl, rfl⟩ := Prod.mk.inj heq
    refine ⟨rfl, rfl, Or.inr ⟨rfl, ?_, m, hf, hmount, ?_, hm.2.2.1⟩⟩
    · rw [List.take_of_length_le hlen]
    · rw [hm.1, List.take_of_length_le (by omega)]
  · obtain ⟨rfl, rfl⟩ := Prod.mk.inj heq
    exact ⟨rfl, rfl, Or.inl ⟨rfl, rfl, hmount⟩⟩

theorem mountDrive_cases {w : Outside S} {i : Nat} {drive : Drive} {path : List UInt8}
    {k k' : Kernel S} {mounted : Bool} (hlen : path.length ≤ 63)
    (h : mountDrive ops w i drive path k = some (mounted, k')) :
    k'.currentDrive = k.currentDrive ∧ k'.currentPath = k.currentPath ∧
      (mounted = false ∧ SameMounts k k' ∨ mounted = true ∧ Attached i path k k') := by
  unfold mountDrive at h
  split at h
  next =>
    cases hfs : fsTypeOf w.reads with
    | none =>
        simp only [hfs, Option.some.injEq, Prod.mk.injEq] at h
        obtain ⟨rfl, rfl⟩ := h
        exact ⟨rfl, rfl, Or.inl ⟨rfl, rfl, rfl⟩⟩
    | some fsType =>
        simp only [hfs] at h
        exact mountAt_cases ops hlen h
  next => exact mountAt_cases ops hlen h
  next =>
    obtain ⟨rfl, rfl⟩ := Prod.mk.inj (Option.some.inj h)
    exact ⟨rfl, rfl, Or.inl ⟨rfl, rfl, rfl⟩⟩

/-! ## Mount points and mounts agree -/

namespace Kernel

/-- Drive `i` has the entry `d`. -/
def HasDrive (k : Kernel S) (i : Nat) (d : Drive) : Prop := k.table.drives[i]? = some d

/-- The entries of the drives say where they are mounted. -/
structure Sound (k : Kernel S) : Prop where
  names : (k.table.drives.map (·.name)).Sublist driveNames
  mountPoint : ∀ {i d}, k.HasDrive i d → d.mountPoint ≠ [] → IsMountPoint d.name d.mountPoint
  root_unique : ∀ {i j d d'}, k.HasDrive i d → k.HasDrive j d' → d.mountPoint = rootPath →
    d'.mountPoint = rootPath → i = j
  mounted : ∀ {i d}, k.HasDrive i d → d.mountPoint ≠ [] →
    ∃ m ∈ k.vfs.mountList.mounts, m.path = d.mountPoint ∧ m.fs.drive = i
  ofDrive : ∀ m ∈ k.vfs.mountList.mounts,
    ∃ d, k.HasDrive m.fs.drive d ∧ d.mountPoint = m.path ∧ m.path ≠ []
  current : ∀ {i}, k.currentDrive = some i → ∃ d, k.HasDrive i d

variable {k k' : Kernel S} {i j : Nat} {d d' : Drive} {path : List UInt8}

theorem Sound.length_name (h : k.Sound) (hd : k.HasDrive i d) : d.name.length = 4 :=
  length_of_mem_driveNames (h.names.subset (List.mem_map_of_mem (List.mem_of_getElem? hd)))

theorem hasDrive_of_same (hs : SameMounts k k') : k'.HasDrive i d ↔ k.HasDrive i d := by
  unfold HasDrive
  rw [hs.table]

theorem Sound.of_same (h : k.Sound) (hs : SameMounts k k')
    (hcurrent : ∀ {i}, k'.currentDrive = some i → ∃ d, k.HasDrive i d) : k'.Sound where
  names := by
    rw [hs.table]
    exact h.names
  mountPoint := fun hd => h.mountPoint ((hasDrive_of_same hs).mp hd)
  root_unique := fun hd hd' =>
    h.root_unique ((hasDrive_of_same hs).mp hd) ((hasDrive_of_same hs).mp hd')
  mounted := by
    intro i d hd hne
    rw [hs.mountList]
    exact h.mounted ((hasDrive_of_same hs).mp hd) hne
  ofDrive := by
    intro m hm
    rw [hs.mountList] at hm
    obtain ⟨d, hd, hrest⟩ := h.ofDrive m hm
    exact ⟨d, (hasDrive_of_same hs).mpr hd, hrest⟩
  current := by
    intro i hi
    obtain ⟨d, hd⟩ := hcurrent hi
    exact ⟨d, (hasDrive_of_same hs).mpr hd⟩

/-- The entries after a mount. -/
theorem hasDrive_attached (ha : Attached i path k k') :
    k'.HasDrive j d' ↔
      if j = i then ∃ d, k.HasDrive i d ∧ d' = { d with mountPoint := path } else k.HasDrive j d' := by
  unfold HasDrive
  rw [ha.table]
  unfold DriveTable.setMountPoint
  rw [List.getElem?_modify]
  by_cases hj : j = i
  · subst hj
    simp only [if_true, Option.map_eq_map, Option.map_eq_some_iff]
    simp only [eq_comm]
  · simp only [if_neg hj, if_neg (Ne.symm hj), Option.map_eq_map, Option.map_id']

/-- The entry of the drive that has been mounted. -/
theorem hasDrive_attached_self (ha : Attached i path k k') (hd : k.HasDrive i d) :
    k'.HasDrive i d' ↔ d' = { d with mountPoint := path } := by
  rw [hasDrive_attached ha, if_pos rfl]
  unfold HasDrive at hd ⊢
  simp [hd]

/-- The entries of the other drives. -/
theorem hasDrive_attached_ne (ha : Attached i path k k') (hj : j ≠ i) :
    k'.HasDrive j d' ↔ k.HasDrive j d' := by
  rw [hasDrive_attached ha, if_neg hj]

theorem names_attached (ha : Attached i path k k') :
    k'.table.drives.map (·.name) = k.table.drives.map (·.name) := by
  rw [ha.table]
  unfold DriveTable.setMountPoint
  apply List.ext_getElem?
  intro j
  rw [List.getElem?_map, List.getElem?_map, List.getElem?_modify]
  cases k.table.drives[j]? with
  | none => simp
  | some d => split <;> simp

/-- Mounting a drive that is not mounted keeps the two in step. -/
theorem Sound.attached (h : k.Sound) (ha : Attached i path k k') (hd : k.HasDrive i d)
    (hnone : d.mountPoint = []) (hpath : IsMountPoint d.name path)
    (hroot : path = rootPath → ∀ {j d'}, k.HasDrive j d' → d'.mountPoint ≠ rootPath)
    (hcurrent : ∀ {i}, k'.currentDrive = some i → ∃ d, k.HasDrive i d) : k'.Sound where
  names := by
    rw [names_attached ha]
    exact h.names
  mountPoint := by
    intro j d' hd' hne'
    by_cases hj : j = i
    · subst hj
      rw [(hasDrive_attached_self ha hd).mp hd']
      exact hpath
    · exact h.mountPoint ((hasDrive_attached_ne ha hj).mp hd') hne'
  root_unique := by
    -- a second drive at the root was there before
    intro j l d₁ d₂ h₁ h₂ hp₁ hp₂
    by_cases hj : j = i
    · by_cases hl : l = i
      · rw [hj, hl]
      · subst hj
        rw [(hasDrive_attached_self ha hd).mp h₁] at hp₁
        exact absurd hp₂ (hroot hp₁ ((hasDrive_attached_ne ha hl).mp h₂))
    · by_cases hl : l = i
      · subst hl
        rw [(hasDrive_attached_self ha hd).mp h₂] at hp₂
        exact absurd hp₁ (hroot hp₂ ((hasDrive_attached_ne ha hj).mp h₁))
      · exact h.root_unique ((hasDrive_attached_ne ha hj).mp h₁) ((hasDrive_attached_ne ha hl).mp h₂)
          hp₁ hp₂
  mounted := by
    obtain ⟨m, hf, hlist, hmpath, hmdrive⟩ := ha.mountList
    intro j d' hd' hne'
    rw [hlist]
    by_cases hj : j = i
    · subst hj
      rw [(hasDrive_attached_self ha hd).mp hd']
      exact ⟨m, List.mem_cons_self, hmpath, hmdrive⟩
    · obtain ⟨m', hm', hrest⟩ := h.mounted ((hasDrive_attached_ne ha hj).mp hd') hne'
      exact ⟨m', List.mem_cons_of_mem _ hm', hrest⟩
  ofDrive := by
    have hne : path ≠ [] := List.ne_nil_of_length_pos (hpath.length_le (h.length_name hd)).1
    obtain ⟨m, hf, hlist, hmpath, hmdrive⟩ := ha.mountList
    intro m' hm'
    rw [hlist] at hm'
    rcases List.mem_cons.mp hm' with rfl | hm'
    · refine ⟨{ d with mountPoint := path }, ?_, hmpath.symm, ?_⟩
      · rw [hmdrive]
        exact (hasDrive_attached_self ha hd).mpr rfl
      · rw [hmpath]
        exact hne
    · obtain ⟨d', hd', hp', hne'⟩ := h.ofDrive m' hm'
      have hj : m'.fs.drive ≠ i := by
        intro hj
        rw [hj] at hd'
        obtain rfl : d' = d := Option.some.inj (hd'.symm.trans hd)
        exact hne' (hp' ▸ hnone)
      exact ⟨d', (hasDrive_attached_ne ha hj).mpr hd', hp', hne'⟩
  current := by
    intro j hj
    obtain ⟨d', hd'⟩ := hcurrent hj
    by_cases hji : j = i
    · subst hji
      exact ⟨_, (hasDrive_attached_self ha hd).mpr rfl⟩
    · exact ⟨d', (hasDrive_attached_ne ha hji).mpr hd'⟩

/-! ### The start -/

/-- The loop of `auto_mount_all_drives` has come to the places from `n` on. A drive is mounted at the
root as soon as one is mounted, and that one is the current drive. -/
structure MountedUpTo (k : Kernel S) (n : Nat) (firstDriveSet : Bool) : Prop where
  sound : k.Sound
  ahead : ∀ {i d}, n ≤ i → k.HasDrive i d → d.mountPoint = []
  first : firstDriveSet = true → ∃ i d, k.currentDrive = some i ∧ k.HasDrive i d ∧
    d.mountPoint = rootPath
  none : firstDriveSet = false → k.currentDrive = none ∧ ∀ {i d}, k.HasDrive i d → d.mountPoint = []

variable {firstDriveSet : Bool} {n mountedCount mountedCount' : Nat} {outside : Nat → Outside S}

/-- Nothing is mounted at the start of the loop. -/
theorem mountedUpTo_start {table : DriveTable} (h : Detected table.drives)
    {vfs : State (Indexed S)} (hvfs : vfs.mountList = .empty) :
    MountedUpTo ⟨table, none, rootPath, vfs⟩ 0 false := by
  have hnone : ∀ {i : Nat} {d : Drive}, table.drives[i]? = some d → d.mountPoint = [] :=
    fun hd => h.unmounted _ (List.mem_of_getElem? hd)
  refine ⟨⟨h.names, ?_, ?_, ?_, ?_, ?_⟩, fun _ => hnone, ?_, fun _ => ⟨rfl, hnone⟩⟩
  · intro i d hd hne
    exact absurd (hnone hd) hne
  · intro i j d d' hd _ hroot
    rw [hnone hd] at hroot
    cases hroot
  · intro i d hd hne
    exact absurd (hnone hd) hne
  · intro m hm
    rw [hvfs] at hm
    cases hm
  · intro i hi
    cases hi
  · intro hset
    cases hset

theorem MountedUpTo.skip (h : k.MountedUpTo n firstDriveSet) :
    k.MountedUpTo (n + 1) firstDriveSet :=
  ⟨h.sound, fun hi => h.ahead (by omega), h.first, h.none⟩

theorem MountedUpTo.of_same (h : k.MountedUpTo n firstDriveSet) (hs : SameMounts k k')
    (hcurrent : k'.currentDrive = k.currentDrive) : k'.MountedUpTo (n + 1) firstDriveSet := by
  have hd : ∀ {i d}, k'.HasDrive i d ↔ k.HasDrive i d := hasDrive_of_same hs
  constructor
  · apply h.sound.of_same hs
    rw [hcurrent]
    exact h.sound.current
  · intro i d hi hd'
    exact h.ahead (by omega) (hd.mp hd')
  · intro hset
    obtain ⟨i, d, hc, hi, hroot⟩ := h.first hset
    exact ⟨i, d, hcurrent.trans hc, hd.mpr hi, hroot⟩
  · intro hset
    obtain ⟨hc, hall⟩ := h.none hset
    exact ⟨hcurrent.trans hc, fun hd' => hall (hd.mp hd')⟩

/-- The mount path of the loop. -/
def mountPathOf (firstDriveSet : Bool) (d : Drive) : List UInt8 :=
  if firstDriveSet then fitted 32 (mntPath d.name) else rootPath

theorem MountedUpTo.attached (h : k.MountedUpTo n firstDriveSet) (hd : k.HasDrive n d)
    (ha : Attached n (mountPathOf firstDriveSet d) k k') (hcurrent : k'.currentDrive = k.currentDrive) :
    (if firstDriveSet then k' else { k' with currentDrive := some n }).MountedUpTo (n + 1) true := by
  have hnone : d.mountPoint = [] := h.ahead (Nat.le_refl _) hd
  have hahead : ∀ {i d'}, n + 1 ≤ i → k'.HasDrive i d' → d'.mountPoint = [] := by
    intro i d' hi hd'
    rw [hasDrive_attached ha, if_neg (by omega)] at hd'
    exact h.ahead (by omega) hd'
  have hself : k'.HasDrive n { d with mountPoint := mountPathOf firstDriveSet d } := by
    rw [hasDrive_attached ha, if_pos rfl]
    exact ⟨d, hd, rfl⟩
  cases firstDriveSet with
  | true =>
      have hpath : mountPathOf true d = mntPath d.name := fitted_mntPath (h.sound.length_name hd)
      obtain ⟨i, d', hc, hi, hroot⟩ := h.first rfl
      refine ⟨?_, hahead, fun _ => ⟨i, d', hcurrent.trans hc, ?_, hroot⟩, fun hset => by cases hset⟩
      · apply h.sound.attached ha hd hnone (Or.inr hpath)
        · intro hp
          exact absurd (hpath.symm.trans hp) (mntPath_ne_root _)
        · intro j hj
          exact h.sound.current (hcurrent ▸ hj)
      · have hne : i ≠ n := by
          rintro rfl
          obtain rfl : d = d' := Option.some.inj (hd.symm.trans hi)
          rw [hnone] at hroot
          cases hroot
        change k'.HasDrive i d'
        rw [hasDrive_attached ha, if_neg hne]
        exact hi
  | false =>
      obtain ⟨-, hall⟩ := h.none rfl
      have ha' : Attached n rootPath k { k' with currentDrive := some n } := ⟨ha.table, ha.mountList⟩
      refine ⟨?_, hahead, fun _ => ⟨n, _, rfl, hself, rfl⟩, fun hset => by cases hset⟩
      apply h.sound.attached ha' hd hnone (Or.inl rfl)
      · intro _ j d' hd' hroot
        rw [hall hd'] at hroot
        cases hroot
      · intro j hj
        exact ⟨d, Option.some.inj hj ▸ hd⟩

/-- The whole loop. -/
theorem autoMountLoop_mounted (h : k.MountedUpTo n firstDriveSet)
    (hcount : mountedCount = 0 ↔ firstDriveSet = false)
    (hrun : autoMountLoop ops outside (List.range' n (k.table.drives.length - n)) firstDriveSet
      mountedCount k = some (mountedCount', k')) :
    ∃ first, k'.MountedUpTo k'.table.drives.length first ∧ (mountedCount' = 0 ↔ first = false) := by
  generalize hlen : k.table.drives.length - n = left at hrun
  induction left generalizing k n firstDriveSet mountedCount with
  | zero =>
      obtain ⟨rfl, rfl⟩ := Prod.mk.inj (Option.some.inj hrun)
      have hahead : ∀ {i d}, k.table.drives.length ≤ i → k.HasDrive i d → d.mountPoint = [] := by
        intro i d hi hd
        exact absurd (List.getElem?_eq_some_iff.mp hd).1 (by omega)
      exact ⟨firstDriveSet, ⟨h.sound, hahead, h.first, h.none⟩, hcount⟩
  | succ left ih =>
      rw [List.range'_succ, autoMountLoop] at hrun
      have hlt : n < k.table.drives.length := by omega
      obtain ⟨d, hget⟩ : ∃ d, k.table.drives[n]? = some d := ⟨_, List.getElem?_eq_getElem hlt⟩
      simp only [hget] at hrun
      obtain ⟨⟨mounted, k₁⟩, hmount, hrun⟩ := Option.bind_eq_some_iff.mp hrun
      have hpath : (mountPathOf firstDriveSet d).length ≤ 63 := by
        unfold mountPathOf
        split
        · rw [fitted_mntPath (h.sound.length_name hget), length_mntPath, h.sound.length_name hget]
          decide
        · decide
      obtain ⟨hcurrent, -, ⟨rfl, hs⟩ | ⟨rfl, ha⟩⟩ := mountDrive_cases ops hpath hmount
      · have hk := h.of_same hs hcurrent
        rw [if_neg (by simp)] at hrun
        exact ih hk hcount (by rw [hs.table]; omega) hrun
      · have hk := h.attached hget ha hcurrent
        have hlen₁ : k₁.table.drives.length = k.table.drives.length := by
          rw [ha.table]
          exact List.length_modify _ _ _
        rw [if_pos rfl] at hrun
        refine ih hk (by simp) ?_ hrun
        split <;> (simp only [hlen₁]; omega)

end Kernel

section start

variable {ops} {tables : Registered S} {hw : Hardware} {outside : Nat → Outside S}
  {globals : S.Globals} {k : Kernel S}

theorem vfsStart_mountList (tables : Registered S) (globals : S.Globals) :
    (vfsStart tables globals).mountList = .empty := by
  have hreg : ∀ (name : List UInt8) (table : S.Ops) (s : State (Indexed S)),
      (vfsRegisterFilesystem (S := Indexed S) name table s).2.mountList = s.mountList := by
    intro name table s
    unfold vfsRegisterFilesystem
    split_ifs <;> rfl
  unfold vfsStart
  simp only [hreg]

/-- What `driver_init` leaves: the mounts agree with the entries of the drives, and the current drive
is the one at the root. Without one, no drive is mounted. -/
theorem boot_mounted (h : boot ops tables hw outside globals = some k) : k.Sound ∧
    (∀ {i}, k.currentDrive = some i → ∃ d, k.HasDrive i d ∧ d.mountPoint = rootPath) ∧
    (k.currentDrive = none → ∀ {i d}, k.HasDrive i d → d.mountPoint = []) := by
  obtain ⟨table, htable, h⟩ := Option.bind_eq_some_iff.mp h
  have hdet := detectDrives_detected htable
  have hnone : ∀ {i : Nat} {d : Drive}, table.drives[i]? = some d → d.mountPoint = [] :=
    fun hd => hdet.unmounted _ (List.mem_of_getElem? hd)
  unfold autoMountAllDrives at h
  split at h
  next =>
    obtain rfl := Option.some.inj h
    exact ⟨(Kernel.mountedUpTo_start hdet rfl).sound, fun hi => (by cases hi), fun _ => hnone⟩
  next =>
    obtain ⟨⟨mountedCount, k₁⟩, hloop, h⟩ := Option.bind_eq_some_iff.mp h
    simp only at h
    rw [List.range_eq_range'] at hloop
    obtain ⟨first, hk, hcount⟩ := Kernel.autoMountLoop_mounted ops
      (Kernel.mountedUpTo_start hdet (vfsStart_mountList tables globals)) (by simp) hloop
    cases first with
    | true =>
        rw [if_neg (by simpa using hcount)] at h
        obtain rfl := Option.some.inj h
        obtain ⟨i, d, hc, hd, hroot⟩ := hk.first rfl
        refine ⟨hk.sound, ?_, ?_⟩
        · intro j hj
          obtain rfl : i = j := Option.some.inj (hc.symm.trans hj)
          exact ⟨d, hd, hroot⟩
        · intro hn
          rw [hc] at hn
          cases hn
    | false =>
        obtain ⟨-, hall⟩ := hk.none rfl
        rw [if_pos (hcount.mpr rfl)] at h
        obtain rfl := Option.some.inj h
        refine ⟨hk.sound.of_same ⟨rfl, rfl⟩ ?_, ?_, ?_⟩
        · intro i hi
          cases hi
        · intro i hi
          cases hi
        · intro _ i d hd
          exact hall hd

end start

end MicroKernel.Drives
