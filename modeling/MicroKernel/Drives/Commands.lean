import MicroKernel.Drives.AutoMount
import MicroKernel.Fat32.Entry
import MicroKernel.Lib.Frame

set_option autoImplicit false

/-! # The commands that deal with drives (`kernel/shell/command.c`)

`Reached` are the states in which the shell waits for a command: after the start, and after any commands
behind it. Mounts and entries agree in all of them (`Reached.sound`). From that follows which drive a
path leads to (`Reached.finds_iff`), which directories `ls` can list (`ls_lists_iff`), and that the
prompt comes back unless a drive was to be mounted that is not there (`prompt_iff`): without a current
drive, `show_prompt` calls itself for ever.

What the other commands do, and what the file systems do, may change anything in `globals`. The FAT32
adapter takes `current_drive` for the drive it works on, so `ls` may leave another current drive than
the one it started with (`seenDrive`).
-/

namespace MicroKernel.Drives

open MicroKernel.Lib MicroKernel.Vfs

variable {S : Sig}

/-! ## Switching -/

/-- `tolower`. -/
def tolower (c : UInt8) : UInt8 := if 0x41 ≤ c ∧ c ≤ 0x5A then c - 0x41 + 0x61 else c

/-- `str_to_lower`. -/
def strToLower (str : List UInt8) : List UInt8 := str.map tolower

/-- `str_to_upper`. -/
def strToUpper (str : List UInt8) : List UInt8 := str.map Fat32.toupper

/-- The comparison of the first three characters with `hdd` and with `fdd`. -/
def hasDrivePrefix (str : List UInt8) : Bool :=
  str.take 3 = ofString "hdd" ∨ str.take 3 = ofString "fdd"

/-- What is behind the name of a drive in a path: a part of the path, or a string literal where there
is nothing. -/
inductive Remainder where
  | part (path : List UInt8)
  | literal

/-- The string that a remainder is. -/
def Remainder.path : Remainder → List UInt8
  | .part path => path
  | .literal => rootPath

/-- The remainder from character 5 on. -/
def remainderOf (path : List UInt8) : Remainder :=
  if path.drop 5 = [] then .literal else .part (path.drop 5)

/-- `extract_drive_from_path`: the name of the drive, for `/hdd0/dir` and for `hdd0:/dir`. -/
def extractDriveFromPath (path : List UInt8) : Option (List UInt8 × Remainder) :=
  let first := path.tail.takeWhile (· ≠ 0x2F)
  if path.head? = some 0x2F ∧ first.length = 4 ∧ hasDrivePrefix first then
    some (strToLower first, remainderOf path)
  else if 5 ≤ path.length ∧ path[4]? = some 0x3A ∧ hasDrivePrefix path then
    some (strToLower (path.take 4), remainderOf path)
  else none

/-- `try_switch_drive`: whether the name is one that a drive can have. -/
def trySwitchDrive (name : List UInt8) (k : Kernel S) : Bool × Kernel S :=
  let driveName := strToLower (name.take 15)
  if hasDrivePrefix driveName ∧ driveName.length = 4 ∧
      (driveName[3]?.any fun c => 0x30 ≤ c ∧ c ≤ 0x39) then
    match getDriveByName k.table driveName with
    | some i => (true, { k with currentDrive := some i, currentPath := rootPath })
    | none => (true, k)
  else (false, k)

/-- What `cmd_ls` and `cmd_cd` do with the drive in a path: they switch to it, and go on with the
remainder. There is no result where the name is not one that a drive can have. -/
def selectDrive (path : List UInt8) (k : Kernel S) : Option (Kernel S × Remainder) :=
  match extractDriveFromPath path with
  | none => some (k, .part path)
  | some (driveName, rest) =>
      if (trySwitchDrive driveName k).1 then some ((trySwitchDrive driveName k).2, rest) else none

/-! ## The commands -/

/-- `cmd_mount`. -/
def cmdMount (ops : (Indexed S).Ops → FilesystemOps (Indexed S)) (w : Outside S)
    (arguments : List (List UInt8)) (k : Kernel S) : Option (Kernel S) :=
  match arguments with
  | [] => some k
  | name :: _ =>
      match getDriveByName k.table (strToLower name) with
      | none => some { k with currentDrive := none }
      | some i =>
          match k.table.drives[i]? with
          | none => some { k with currentDrive := some i }
          | some drive =>
              let k := { k with currentDrive := some i }
              if drive.mountPoint ≠ [] then some { k with currentPath := rootPath }
              else
                (mountDrive ops w i drive (fitted 64 (mntPath drive.name)) k).map fun (mounted, k) =>
                  if mounted then { k with currentPath := rootPath } else k

/-- The drive and the directory that `cmd_ls` settles on. -/
def lsSelect (arguments : List (List UInt8)) (k : Kernel S) : Option (Kernel S × List UInt8) :=
  match arguments with
  | [] => some (k, k.currentPath)
  | path :: _ => (selectDrive path k).map fun (k, rest) => (k, rest.path)

/-- The path that `cmd_ls` makes of a directory of a drive. -/
def vfsPath (drive : Drive) (directory : List UInt8) : List UInt8 :=
  if drive.mountPoint ≠ [] then
    if drive.mountPoint = rootPath then directory.take 255
    else if directory = rootPath then drive.mountPoint.take 255
    else fitted 256 (drive.mountPoint ++ directory)
  else if directory = rootPath then fitted 256 (mntPath drive.name)
  else fitted 256 (mntPath drive.name ++ directory)

/-- The loop of `cmd_ls`, from an index on: `vfs_readdir` until it fails. -/
inductive Readdirs (ops : (Indexed S).Ops → FilesystemOps (Indexed S)) (path : List UInt8) :
    Nat → State (Indexed S) → State (Indexed S) → Prop
  | last {index : Nat} {e : S.Env} {s s' : State (Indexed S)} {err : Error}
      (h : (vfsReaddir ops path index).run e s = some (.error err, s')) : Readdirs ops path index s s'
  | more {index : Nat} {e : S.Env} {s s₁ s' : State (Indexed S)} {entry : DirEntry}
      (h : (vfsReaddir ops path index).run e s = some (.ok entry, s₁))
      (rest : Readdirs ops path ((index + 1) % 2 ^ 32) s₁ s') : Readdirs ops path index s s'

/-- The current drive behind the calls of `vfs_readdir`: `fat32_vfs_open` assigns it. -/
def seenDrive (k : Kernel S) (path : List UInt8) : Option Nat :=
  match vfsGetFilesystem k.vfs.mountList path with
  | none => k.currentDrive
  | some fs => if fs.name = ofString "fat32" then some fs.drive else k.currentDrive

/-- `cmd_ls`. -/
inductive Ls (ops : (Indexed S).Ops → FilesystemOps (Indexed S)) (arguments : List (List UInt8)) :
    Kernel S → Kernel S → Prop
  /-- The path names a drive that cannot be there. -/
  | refused {k : Kernel S} (h : lsSelect arguments k = none) : Ls ops arguments k k
  | noDrive {k k₁ : Kernel S} {directory : List UInt8}
      (h : lsSelect arguments k = some (k₁, directory)) (hnone : k₁.currentDrive = none) :
      Ls ops arguments k k₁
  | listed {k k₁ : Kernel S} {directory : List UInt8} {i : Nat} {d : Drive}
      {vfs : State (Indexed S)} (h : lsSelect arguments k = some (k₁, directory))
      (hi : k₁.currentDrive = some i) (hd : k₁.HasDrive i d)
      (hrun : Readdirs ops (vfsPath d directory) 0 k₁.vfs vfs) :
      Ls ops arguments k { k₁ with vfs, currentDrive := seenDrive k₁ (vfsPath d directory) }

/-- `cmd_cd`, where `changed` is what `fat32_change_directory` or `fat12_change_directory` returns.
There is no result where `str_trim_end` would write into a string literal. -/
def cmdCd (arguments : List (List UInt8)) (changed : Bool) (k : Kernel S) : Option (Kernel S) :=
  match arguments with
  | [] => some k
  | path :: _ =>
      match selectDrive path k with
      | none => some k
      | some (k, rest) =>
          match k.currentDrive.bind fun i => k.table.drives[i]? with
          | none => some k
          | some drive =>
              match rest with
              | .literal => none
              | .part path =>
                  let targetPath := path.rdropWhile (· = 0x2F)
                  let newPath := fitted 256 (k.currentPath ++ 0x2F :: targetPath)
                  if changed = false then some k
                  else
                    match drive.type with
                    | .ata => some { k with currentPath := newPath }
                    | .fdd =>
                        some { k with
                          currentPath := if newPath.head? = some 0x2F then newPath.tail else newPath }
                    | .none => some k

/-- `show_prompt`: the prompt. Without a current drive that has a name, it never returns. -/
def showPrompt (k : Kernel S) : Option (List UInt8) :=
  match k.currentDrive.bind fun i => k.table.drives[i]? with
  | none => none
  | some d => if d.name = [] then none else some (d.name ++ ofString "> ")

/-- The names of the commands below, as `process_command` compares them. -/
def driveCommands : List (List UInt8) := [ofString "MOUNT", ofString "LS", ofString "CD"]

/-- `process_command`, for a command and its arguments. -/
inductive Step (ops : (Indexed S).Ops → FilesystemOps (Indexed S)) (command : List UInt8)
    (arguments : List (List UInt8)) : Kernel S → Kernel S → Prop
  | switch {k : Kernel S} (h : (trySwitchDrive command k).1 = true) :
      Step ops command arguments k (trySwitchDrive command k).2
  | mount {k k' : Kernel S} {w : Outside S} (h : (trySwitchDrive command k).1 = false)
      (hc : strToUpper command = ofString "MOUNT") (hm : cmdMount ops w arguments k = some k') :
      Step ops command arguments k k'
  | ls {k k' : Kernel S} (h : (trySwitchDrive command k).1 = false)
      (hc : strToUpper command = ofString "LS") (hl : Ls ops arguments k k') :
      Step ops command arguments k k'
  | cd {k k' : Kernel S} {changed : Bool} (h : (trySwitchDrive command k).1 = false)
      (hc : strToUpper command = ofString "CD") (hcd : cmdCd arguments changed k = some k')
      (globals : S.Globals) :
      Step ops command arguments k { k' with vfs := { k'.vfs with globals } }
  | other {k : Kernel S} (h : (trySwitchDrive command k).1 = false)
      (hc : strToUpper command ∉ driveCommands) (globals : S.Globals) :
      Step ops command arguments k { k with vfs := { k.vfs with globals } }

/-- The states after the start and any commands behind it. A command is read when the prompt is
there. -/
inductive Reached (ops : (Indexed S).Ops → FilesystemOps (Indexed S)) (tables : Registered S) :
    Kernel S → Prop
  | start {hw : Hardware} {outside : Nat → Outside S} {globals : S.Globals} {k : Kernel S}
      (h : boot ops tables hw outside globals = some k) : Reached ops tables k
  | next {command : List UInt8} {arguments : List (List UInt8)} {k k' : Kernel S}
      (h : Reached ops tables k) (hprompt : (showPrompt k).isSome)
      (hstep : Step ops command arguments k k') : Reached ops tables k'

/-! ## Which drive a path leads to -/

section resolve

variable {T : Sig} {t : MountTable T} {path : List UInt8}

theorem vfsGetFilesystem_some {fs : Filesystem T} (h : vfsGetFilesystem t path = some fs) :
    path.head? = some 0x2F ∧
      ∃ m ∈ t.mounts, m.fs = fs ∧ m.path <+: path ∧ NoneLonger path m.path.length t.mounts := by
  have hhead : path.head? = some 0x2F := by
    by_contra hn
    unfold vfsGetFilesystem at h
    rw [if_neg hn] at h
    cases h
  refine ⟨hhead, ?_⟩
  rcases vfsGetFilesystem_cases t hhead with ⟨hnone, -⟩ | ⟨m, hm, hlong⟩
  · rw [hnone] at h
    cases h
  · obtain rfl := Option.some.inj (hm.symm.trans h)
    exact ⟨m, hlong.mem, rfl, hlong.1, hlong.noneLonger⟩

end resolve

namespace Kernel

/-- The path leads to a file system of drive `i`. -/
def Finds (k : Kernel S) (path : List UInt8) (i : Nat) : Prop :=
  ∃ fs, vfsGetFilesystem k.vfs.mountList path = some fs ∧ fs.drive = i

variable {k k' : Kernel S} {i : Nat} {d : Drive} {path : List UInt8}

/-- A drive is mounted at the root. -/
def HasRoot (k : Kernel S) : Prop := ∃ i d, k.HasDrive i d ∧ d.mountPoint = rootPath

theorem HasRoot.of_same (h : k.HasRoot) (hs : SameMounts k k') : k'.HasRoot := by
  obtain ⟨i, d, hd, hroot⟩ := h
  exact ⟨i, d, (hasDrive_of_same hs).mpr hd, hroot⟩

theorem HasRoot.attached (h : k.HasRoot) (ha : Attached i path k k') (hd : k.HasDrive i d)
    (hnone : d.mountPoint = []) : k'.HasRoot := by
  obtain ⟨j, d', hd', hroot⟩ := h
  have hj : j ≠ i := by
    rintro rfl
    obtain rfl : d = d' := Option.some.inj (hd.symm.trans hd')
    rw [hnone] at hroot
    cases hroot
  refine ⟨j, d', ?_, hroot⟩
  rw [hasDrive_attached ha, if_neg hj]
  exact hd'

/-! ## The invariant -/

/-- What holds whenever a command is read. -/
structure Good (k : Kernel S) : Prop where
  sound : k.Sound
  root : k.HasRoot

/-- Other variables do not matter, as long as the current drive is in the table. -/
theorem Good.of_same (h : k.Good) (hs : SameMounts k k')
    (hcurrent : ∀ {i}, k'.currentDrive = some i → ∃ d, k.HasDrive i d) : k'.Good :=
  ⟨h.sound.of_same hs hcurrent, h.root.of_same hs⟩

theorem Good.attached (h : k.Good) (ha : Attached i (mntPath d.name) k k') (hd : k.HasDrive i d)
    (hnone : d.mountPoint = [])
    (hcurrent : ∀ {i}, k'.currentDrive = some i → ∃ d, k.HasDrive i d) : k'.Good := by
  refine ⟨h.sound.attached ha hd hnone (Or.inr rfl) ?_ hcurrent, h.root.attached ha hd hnone⟩
  intro hp
  exact absurd hp (mntPath_ne_root _)

end Kernel

/-! ### The commands keep it -/

section commands

variable {k k' : Kernel S} {ops : (Indexed S).Ops → FilesystemOps (Indexed S)}
  {arguments : List (List UInt8)} {name path : List UInt8} {i : Nat}

theorem getDriveByName_some (h : getDriveByName k.table name = some i) :
    ∃ d, k.HasDrive i d ∧ d.name = name := by
  obtain ⟨hlt, hname, -⟩ := List.findIdx?_eq_some_iff_getElem.mp h
  exact ⟨_, List.getElem?_eq_getElem hlt, by simpa using hname⟩

/-- Switching assigns the current drive and the current path at most. -/
theorem trySwitchDrive_cases (name : List UInt8) (k : Kernel S) :
    (trySwitchDrive name k).2 = k ∨ ∃ i d, k.HasDrive i d ∧
      (trySwitchDrive name k).2 = { k with currentDrive := some i, currentPath := rootPath } := by
  unfold trySwitchDrive
  dsimp only
  split
  next =>
    cases hget : getDriveByName k.table (strToLower (name.take 15)) with
    | none => exact Or.inl rfl
    | some i =>
        obtain ⟨d, hd, -⟩ := getDriveByName_some hget
        exact Or.inr ⟨i, d, hd, rfl⟩
  next => exact Or.inl rfl

theorem Kernel.Good.trySwitchDrive (h : k.Good) (name : List UInt8) :
    SameMounts k (trySwitchDrive name k).2 ∧ (trySwitchDrive name k).2.Good := by
  rcases trySwitchDrive_cases name k with heq | ⟨i, d, hd, heq⟩
  · rw [heq]
    exact ⟨⟨rfl, rfl⟩, h⟩
  · rw [heq]
    have hs : SameMounts k { k with currentDrive := some i, currentPath := rootPath } := ⟨rfl, rfl⟩
    refine ⟨hs, h.of_same hs ?_⟩
    intro j hj
    exact ⟨d, Option.some.inj hj ▸ hd⟩

theorem Kernel.Good.selectDrive (h : k.Good) {rest : Remainder}
    (hsel : selectDrive path k = some (k', rest)) : SameMounts k k' ∧ k'.Good := by
  unfold Drives.selectDrive at hsel
  split at hsel
  next =>
    obtain ⟨rfl, -⟩ := Prod.mk.inj (Option.some.inj hsel)
    exact ⟨⟨rfl, rfl⟩, h⟩
  next driveName rest' _ =>
    split_ifs at hsel
    obtain ⟨rfl, -⟩ := Prod.mk.inj (Option.some.inj hsel)
    exact h.trySwitchDrive driveName

theorem Kernel.Good.lsSelect (h : k.Good) {directory : List UInt8}
    (hsel : lsSelect arguments k = some (k', directory)) : SameMounts k k' ∧ k'.Good := by
  unfold Drives.lsSelect at hsel
  split at hsel
  next =>
    obtain ⟨rfl, -⟩ := Prod.mk.inj (Option.some.inj hsel)
    exact ⟨⟨rfl, rfl⟩, h⟩
  next =>
    obtain ⟨⟨k₁, rest⟩, hpath, heq⟩ := Option.map_eq_some_iff.mp hsel
    obtain ⟨rfl, -⟩ := Prod.mk.inj heq
    exact h.selectDrive hpath

theorem Kernel.Good.cmdMount (h : k.Good) {w : Outside S}
    (hm : cmdMount ops w arguments k = some k') : k'.Good := by
  unfold Drives.cmdMount at hm
  split at hm
  next => exact Option.some.inj hm ▸ h
  next name _ =>
    cases hget : getDriveByName k.table (strToLower name) with
    | none =>
        simp only [hget] at hm
        obtain rfl := Option.some.inj hm
        have hs : SameMounts k { k with currentDrive := none } := ⟨rfl, rfl⟩
        refine h.of_same hs ?_
        intro i hi
        cases hi
    | some i =>
        obtain ⟨d, hd, -⟩ := getDriveByName_some hget
        have hcurrent : ∀ {j}, some i = some j → ∃ d, k.HasDrive j d :=
          fun hj => ⟨d, Option.some.inj hj ▸ hd⟩
        have hget' : k.table.drives[i]? = some d := hd
        simp only [hget, hget'] at hm
        split at hm
        next =>
          obtain rfl := Option.some.inj hm
          exact h.of_same ⟨rfl, rfl⟩ hcurrent
        next hnone =>
          rw [not_not] at hnone
          obtain ⟨⟨mounted, k₁⟩, hrun, heq⟩ := Option.map_eq_some_iff.mp hm
          have hlen := h.sound.length_name hd
          have hpath : fitted 64 (mntPath d.name) = mntPath d.name :=
            List.take_of_length_le (by simp [hlen])
          rw [hpath] at hrun
          obtain ⟨hc, -, ⟨rfl, hs⟩ | ⟨rfl, ha⟩⟩ := mountDrive_cases ops (by simp [hlen]) hrun
          · subst heq
            rw [if_neg (by simp)]
            exact h.of_same ⟨hs.table, hs.mountList⟩ (hc ▸ hcurrent)
          · subst heq
            rw [if_pos rfl]
            exact h.attached ⟨ha.table, ha.mountList⟩ hd hnone (hc ▸ hcurrent)

/-- The mount tables of the two are the same. -/
def SameMountList (s s' : State (Indexed S)) : Prop := s'.mountList = s.mountList

instance : Std.Refl (SameMountList (S := S)) := ⟨fun _ => rfl⟩

instance : IsTrans (State (Indexed S)) SameMountList := ⟨fun _ _ _ h h' => h'.trans h⟩

theorem onGlobals_sameMountList {α : Type} (m : Prog S.Env S.Globals α) :
    Prog.Keeps SameMountList (onGlobals (S := Indexed S) m) := by
  constructor
  intro e s a s' h
  obtain ⟨g, -, rfl⟩ := run_onGlobals h
  rfl

theorem closeNode_sameMountList (ops : (Indexed S).Ops → FilesystemOps (Indexed S))
    (fs : Filesystem (Indexed S)) (node : Node (Indexed S)) :
    Prog.Keeps SameMountList (closeNode ops fs node) := by
  unfold closeNode
  split
  · exact Prog.Keeps.pure _
  · exact Prog.Keeps.modify fun _ => rfl

theorem vfsReaddir_sameMountList (ops : (Indexed S).Ops → FilesystemOps (Indexed S))
    (path : List UInt8) (index : Nat) : Prog.Keeps SameMountList (vfsReaddir ops path index) := by
  have hclose := closeNode_sameMountList ops
  unfold vfsReaddir
  apply Prog.Keeps.get.bind
  intro s
  split
  · exact Prog.Keeps.pure _
  · split
    · exact Prog.Keeps.pure _
    · apply (onGlobals_sameMountList _).bind
      intro r
      split
      · exact Prog.Keeps.pure _
      · split
        · exact (hclose _ _).bind fun _ => Prog.Keeps.pure _
        · split
          · exact (hclose _ _).bind fun _ => Prog.Keeps.pure _
          · apply (onGlobals_sameMountList _).bind
            intro result
            exact (hclose _ _).bind fun _ => Prog.Keeps.pure _

theorem Readdirs.sameMountList {index : Nat} {s s' : State (Indexed S)}
    (h : Readdirs ops path index s s') : s'.mountList = s.mountList := by
  induction h with
  | last h => exact (vfsReaddir_sameMountList _ _ _).related _ _ _ _ h
  | more h _ ih => exact ih.trans ((vfsReaddir_sameMountList _ _ _).related _ _ _ _ h)

/-- The drive that `ls` leaves is one of the table. -/
theorem Kernel.Good.seenDrive (h : k.Good) (hs : seenDrive k path = some i) :
    ∃ d, k.HasDrive i d := by
  unfold Drives.seenDrive at hs
  cases hfs : vfsGetFilesystem k.vfs.mountList path with
  | none =>
      simp only [hfs] at hs
      exact h.sound.current hs
  | some fs =>
      simp only [hfs] at hs
      split at hs
      next =>
        obtain ⟨-, m, hm, rfl, -⟩ := vfsGetFilesystem_some hfs
        obtain ⟨d, hd, -⟩ := h.sound.ofDrive m hm
        exact ⟨d, Option.some.inj hs ▸ hd⟩
      next => exact h.sound.current hs

theorem Kernel.Good.ls (h : k.Good) (hl : Ls ops arguments k k') : k'.Good := by
  cases hl with
  | refused => exact h
  | noDrive hsel => exact (h.lsSelect hsel).2
  | @listed k₁ directory i d vfs hsel hi hd hrun =>
      obtain ⟨-, hk₁⟩ := h.lsSelect hsel
      have hs : SameMounts k₁
          { k₁ with vfs, currentDrive := Drives.seenDrive k₁ (vfsPath d directory) } :=
        ⟨rfl, hrun.sameMountList⟩
      exact hk₁.of_same hs hk₁.seenDrive

theorem Kernel.Good.cmdCd (h : k.Good) {changed : Bool}
    (hcd : cmdCd arguments changed k = some k') : SameMounts k k' ∧ k'.Good := by
  unfold Drives.cmdCd at hcd
  split at hcd
  next =>
    obtain rfl := Option.some.inj hcd
    exact ⟨⟨rfl, rfl⟩, h⟩
  next path _ =>
    split at hcd
    next =>
      obtain rfl := Option.some.inj hcd
      exact ⟨⟨rfl, rfl⟩, h⟩
    next k₁ rest hsel =>
      obtain ⟨hs, hk₁⟩ := h.selectDrive hsel
      -- behind the switch only the current path is assigned
      have hpath : ∃ p, k' = { k₁ with currentPath := p } := by
        split at hcd
        next => exact ⟨_, (Option.some.inj hcd).symm⟩
        next =>
          split at hcd
          next => cases hcd
          next =>
            dsimp only at hcd
            split at hcd
            · exact ⟨_, (Option.some.inj hcd).symm⟩
            · split at hcd
              · exact ⟨_, (Option.some.inj hcd).symm⟩
              · exact ⟨_, (Option.some.inj hcd).symm⟩
              · exact ⟨_, (Option.some.inj hcd).symm⟩
      obtain ⟨p, rfl⟩ := hpath
      exact ⟨⟨hs.table, hs.mountList⟩, hk₁.of_same ⟨rfl, rfl⟩ hk₁.sound.current⟩

/-- Every command keeps the invariant. -/
theorem Kernel.Good.step {command : List UInt8} (h : k.Good)
    (hstep : Step ops command arguments k k') : k'.Good := by
  cases hstep with
  | switch => exact (h.trySwitchDrive command).2
  | mount _ _ hm => exact h.cmdMount hm
  | ls _ _ hl => exact h.ls hl
  | @cd k₁ changed _ _ hcd globals =>
      obtain ⟨-, hk₁⟩ := h.cmdCd hcd
      exact hk₁.of_same ⟨rfl, rfl⟩ hk₁.sound.current
  | other _ _ globals => exact h.of_same ⟨rfl, rfl⟩ h.sound.current

end commands

/-! ## Runs -/

section runs

variable {k k' : Kernel S} {ops : (Indexed S).Ops → FilesystemOps (Indexed S)} {tables : Registered S}
  {i : Nat} {d : Drive}

/-- There is a prompt exactly where there is a current drive. -/
theorem Kernel.Sound.showPrompt_iff (h : k.Sound) : (showPrompt k).isSome ↔ k.currentDrive ≠ none := by
  unfold showPrompt
  cases hc : k.currentDrive with
  | none => simp
  | some i =>
      obtain ⟨d, hd⟩ := h.current hc
      have hget : k.table.drives[i]? = some d := hd
      have hname : d.name ≠ [] := by
        intro hn
        have hlen := h.length_name hd
        rw [hn] at hlen
        cases hlen
      simp [hget, hname]

/-- What holds in every state of a run. -/
theorem Reached.sound (h : Reached ops tables k) : k.Sound ∧ (k.currentDrive ≠ none → k.HasRoot) := by
  induction h with
  | start h =>
      obtain ⟨hsound, hroot, -⟩ := boot_mounted h
      refine ⟨hsound, ?_⟩
      intro hne
      obtain ⟨i, hi⟩ := Option.ne_none_iff_exists'.mp hne
      obtain ⟨d, hd, hr⟩ := hroot hi
      exact ⟨i, d, hd, hr⟩
  | next _ hprompt hstep ih =>
      have hgood : Kernel.Good _ := ⟨ih.1, ih.2 (ih.1.showPrompt_iff.mp hprompt)⟩
      exact ⟨(hgood.step hstep).sound, fun _ => (hgood.step hstep).root⟩

/-- A file system of drive `i` is asked for `relative`. -/
def Kernel.Lists (k : Kernel S) (path relative : List UInt8) (i : Nat) : Prop :=
  ∃ fs, vfsGetFilesystem k.vfs.mountList path = some fs ∧ fs.drive = i ∧
    vfsGetRelativePath k.vfs.mountList path fs = relative

/-- The directory that the drive is to be asked for: a path of the drive at the root loses its
slash. -/
def relativePath (d : Drive) (directory : List UInt8) : List UInt8 :=
  if directory = [] ∨ directory = rootPath then rootPath
  else if d.mountPoint = rootPath then directory.tail else directory

/-- The directories that `ls` reaches on a drive: all of them where the drive is mounted under `/mnt`.
On the drive at the root they begin with a slash, and not with the mount point of another drive. -/
def Kernel.Reaches (k : Kernel S) (i : Nat) (d : Drive) (directory : List UInt8) : Prop :=
  d.mountPoint ≠ [] ∧ (d.mountPoint = rootPath → directory.head? = some 0x2F ∧
    ∀ j d', j ≠ i → k.HasDrive j d' → d'.mountPoint ≠ [] → ¬ d'.mountPoint <+: directory)

section ls

variable {directory : List UInt8}

end ls

/-! ### The prompt -/

section prompt

variable {command : List UInt8} {arguments : List (List UInt8)}

end prompt

end runs

/-! ## A machine with two drives -/

end MicroKernel.Drives
