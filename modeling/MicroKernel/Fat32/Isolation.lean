import MicroKernel.Fat32.Footprint
import MicroKernel.Fat32.Image
import MicroKernel.Vfs.Algebra

set_option autoImplicit false

/-! # Several FAT32 drives

The adapter keeps a boot sector for every file system it mounts, and never uses it: the driver works
with one boot sector, one base address for writes and one current directory, which are those of the
drive mounted last. `isolated_of_harmless` says that a drive is not disturbed by later mounts as long
as each of them that reads a boot sector reads one with the same fields, on the same controller.
-/

namespace MicroKernel.Fat32

open MicroKernel.Lib Bytes Prog Adapter

/-! ## What a mount does to the driver -/

/-- The boot sector on a drive. -/
def bootOf (disks : Drive → Nat → Sector) (drive : Drive) : BootSector :=
  BootSector.ofBytes (Sector.bytes (disks drive 0))

/-- The state after `fat32_init_fs`, with what it has made of FSInfo. -/
def Fs.booted (s : Fs) (drive : Drive) (i : Sector) (v : Bool) : Fs :=
  { s with
    bootSector := bootOf s.disks drive
    ataBaseAddress := drive.base
    currentDirectoryCluster := (bootOf s.disks drive).rootCluster
    fsinfo := i
    fsinfoValid := v }

section mount

variable (e : Env) (s : Fs)

theorem bootOf_copy (b : Bytes) (drive : Drive) :
    BootSector.ofBytes (copy b 0 (Sector.bytes (s.disks drive 0)) 0 512) = bootOf s.disks drive := by
  have hbyte : ∀ x, x < 512 →
      copy b 0 (Sector.bytes (s.disks drive 0)) 0 512 x = Sector.bytes (s.disks drive 0) x := by
    intro x hx
    rw [copy_inside _ _ _ (Nat.zero_le x) (by omega), Nat.zero_add, Nat.sub_zero]
  unfold bootOf BootSector.ofBytes load16 load32
  simp (disch := decide) only [hbyte]

theorem run_readFsinfo : ∃ r i v,
    readFsinfo.run e s = some (r, { s with fsinfo := i, fsinfoValid := v }) := by
  unfold readFsinfo
  rw [run_bind, run_get, Option.bind_some, run_bind, run_readSector, Option.bind_some]
  cases e.fails (.load 0) with
  | true => exact ⟨false, s.fsinfo, s.fsinfoValid, rfl⟩
  | false =>
      simp only [Bool.false_eq_true, if_false, Bool.not_true, run_bind, run_modify, Option.bind_some,
        run_ite]
      split
      · exact ⟨false, _, s.fsinfoValid, rfl⟩
      · exact ⟨true, _, true, rfl⟩

/-- **`fat32_init_fs`**. -/
theorem run_fat32InitFs (drive : Drive) : ∃ i v, (fat32InitFs drive).run e s
    = some (if e.fails (.load 0) then (false, s) else (true, s.booted drive i v)) := by
  unfold fat32InitFs ataReadSector
  rw [run_bind, run_bind, run_ask, Option.bind_some]
  cases e.fails (.load 0) with
  | true => exact ⟨s.fsinfo, s.fsinfoValid, rfl⟩
  | false =>
      simp only [Bool.false_eq_true, if_false, run_bind, run_get, Option.bind_some, run_pure,
        Bool.not_true, run_modify, Nat.zero_mod, bootOf_copy, run_ite]
      split
      · rw [run_within]
        obtain ⟨r, i, v, hrun⟩ := run_readFsinfo (e.enter .sync)
          { s with bootSector := bootOf s.disks drive, ataBaseAddress := drive.base,
                   currentDirectoryCluster := (bootOf s.disks drive).rootCluster }
        rw [hrun]
        exact ⟨i, v, rfl⟩
      · exact ⟨s.fsinfo, s.fsinfoValid, rfl⟩

/-- What `fat32_vfs_mount` returns when it has read the boot sector. -/
def mountResult (boot : BootSector) : Except Vfs.Error (Vfs.Mounted sig) :=
  if e.outOfMemory (.store 0 :: e.path) then .error .noMemory
  else if e.outOfMemory (.store 1 :: e.path) then .error .noMemory
  else .ok ⟨some boot, some boot.rootCluster⟩

/-- **`fat32_vfs_mount`**. -/
theorem run_fat32VfsMount (fs : Vfs.Filesystem sig) : ∃ i v, (fat32VfsMount fs).run e s
    = some (if e.fails (.load 0) then (.error .io, s)
        else (mountResult e (bootOf s.disks fs.drive), s.booted fs.drive i v)) := by
  obtain ⟨i, v, hinit⟩ := run_fat32InitFs e s fs.drive
  refine ⟨i, v, ?_⟩
  unfold fat32VfsMount mountResult
  rw [run_bind, hinit, Option.bind_some]
  cases e.fails (.load 0) with
  | true => rfl
  | false =>
      simp only [Bool.false_eq_true, if_false, Bool.not_true, run_bind, run_ask, Option.bind_some,
        run_get, run_ite]
      split
      · rfl
      · split
        · rfl
        · rfl

end mount

/-! ## Runs of the kernel -/

/-- The calls by which the file systems are used. -/
inductive Call where
  | mount (memory : Vfs.Memory) (drive : Drive) (mountPath : List UInt8)
  | openNode (path : List UInt8)
  | readdir (path : List UInt8) (index : Nat)
  | read (node : Vfs.Node sig) (offset size : Nat) (buffer : Bytes)

/-- The state after a call, whatever it returns. -/
def Call.After (e : Env) (s s' : Vfs.State sig) : Call → Prop
  | .mount memory drive mountPath =>
      ∃ r, (Vfs.vfsMount tables memory drive fat32Name mountPath).run e s = some (r, s')
  | .openNode path => ∃ r, (Vfs.vfsOpen tables path).run e s = some (r, s')
  | .readdir path index => ∃ r, (Vfs.vfsReaddir tables path index).run e s = some (r, s')
  | .read node offset size buffer =>
      ∃ r, (Vfs.vfsRead tables node offset size buffer).run e s = some (r, s')

/-- One call that meets the condition `P`. -/
def Step (P : Env → Call → Prop) (s s' : Vfs.State sig) : Prop :=
  ∃ e call, P e call ∧ call.After e s s'

section step

variable {e : Env} {s s' : Vfs.State sig}

/-- What a mount does: nothing, or what `fat32_init_fs` does, and no mount goes away. -/
theorem after_mount {memory : Vfs.Memory} {drive : Drive} {mountPath : List UInt8}
    {r : Except Vfs.Error Unit}
    (h : (Vfs.vfsMount tables memory drive fat32Name mountPath).run e s = some (r, s')) :
    s'.registered = s.registered ∧ (∀ m ∈ s.mountList.mounts, m ∈ s'.mountList.mounts) ∧
      (s'.globals = s.globals ∨ (e.fails (.load 0) = false ∧ memory.fs ≠ none ∧
        ∃ i v, s'.globals = s.globals.booted drive i v)) := by
  -- the globals after the operation table has been called
  have hglobals : ∀ {addr : Nat} {result : Except Vfs.Error (Vfs.Mounted sig)} {g : Fs},
      memory.fs = some addr →
      (fat32VfsMount (Vfs.newFilesystem drive fat32Name addr ())).run e s.globals = some (result, g) →
      g = s.globals ∨ (e.fails (.load 0) = false ∧ memory.fs ≠ none ∧
        ∃ i v, g = s.globals.booted drive i v) := by
    intro addr result g haddr hrun
    obtain ⟨i, v, heq⟩ := run_fat32VfsMount e s.globals (Vfs.newFilesystem drive fat32Name addr ())
    rw [heq] at hrun
    cases hfail : e.fails (.load 0) with
    | true =>
        rw [hfail] at hrun
        exact Or.inl (Prod.mk.inj (Option.some.inj hrun)).2.symm
    | false =>
        rw [hfail] at hrun
        right
        exact ⟨rfl, by rw [haddr]; exact Option.some_ne_none _, i, v,
          (Prod.mk.inj (Option.some.inj hrun)).2.symm⟩
  cases Vfs.vfsMount_inv _ h with
  | refused _ => exact ⟨rfl, fun _ hm => hm, Or.inl rfl⟩
  | failed _ haddr _ hrun => exact ⟨rfl, fun _ hm => hm, hglobals haddr hrun⟩
  | undone _ haddr _ hrun _ hunmount =>
      obtain rfl := Option.some.inj hunmount
      exact ⟨rfl, fun _ hm => hm, hglobals haddr hrun⟩
  | mounted _ haddr _ hrun _ =>
      exact ⟨rfl, fun _ hm => List.mem_cons_of_mem _ hm, hglobals haddr hrun⟩

/-- A program of the adapter, as a call. -/
theorem after_onGlobals {α : Type} {m : Io α} {r : α} (hm : Keeps Fs.OnlyDrive m)
    (h : (Vfs.onGlobals (S := sig) m).run e s = some (r, s')) :
    ∃ drive, s' = { s with globals := { s.globals with currentDrive := drive } } := by
  obtain ⟨g, hrun, rfl⟩ := Vfs.run_onGlobals h
  obtain ⟨drive, rfl⟩ := hm.related e s.globals r g hrun
  exact ⟨drive, rfl⟩

/-- The other calls set the current drive at most. -/
theorem after_other {call : Call} (h : call.After e s s')
    (hother : ∀ memory drive mountPath, call ≠ .mount memory drive mountPath) :
    ∃ drive, s' = { s with globals := { s.globals with currentDrive := drive } } := by
  have hsame : ∀ {α : Type} {a r : α}, some (a, s) = some (r, s') →
      ∃ drive, s' = { s with globals := { s.globals with currentDrive := drive } } := by
    intro α a r heq
    obtain ⟨-, rfl⟩ := Prod.mk.inj (Option.some.inj heq)
    exact ⟨s.globals.currentDrive, rfl⟩
  cases call with
  | mount memory drive mountPath => exact absurd rfl (hother memory drive mountPath)
  | openNode path =>
      obtain ⟨r, h⟩ := h
      cases hfs : Vfs.vfsGetFilesystem s.mountList path with
      | none =>
          unfold Vfs.vfsOpen at h
          rw [run_bind, run_get, Option.bind_some] at h
          simp only [hfs] at h
          exact hsame h
      | some fs =>
          rw [run_vfsOpen hfs] at h
          exact after_onGlobals (fat32VfsOpen_onlyDrive _ _) h
  | readdir path index =>
      obtain ⟨r, h⟩ := h
      cases hfs : Vfs.vfsGetFilesystem s.mountList path with
      | none =>
          unfold Vfs.vfsReaddir at h
          rw [run_bind, run_get, Option.bind_some] at h
          simp only [hfs] at h
          exact hsame h
      | some fs =>
          rw [run_vfsReaddir hfs] at h
          exact after_onGlobals (listPath_onlyDrive _ _ _) h
  | read node offset size buffer =>
      obtain ⟨r, h⟩ := h
      exact after_onGlobals (fat32VfsRead_onlyDrive _ _ _ _) h

end step

/-! ## What holds in every run -/

/-- What no call changes: the table that is registered, the disks and the partition. -/
structure Same (g : Fs) (s : Vfs.State sig) : Prop where
  table : s.registered = (registered g).registered
  disks : s.globals.disks = g.disks
  offset : s.globals.partitionLbaOffset = g.partitionLbaOffset

/-- The driver is set up for the drive, and the mount is in the table. -/
structure SetUp (g : Fs) (drive : Drive) (m : Vfs.Mount sig) (s : Vfs.State sig) : Prop
    extends Same g s where
  boot : s.globals.bootSector = bootOf g.disks drive
  base : s.globals.ataBaseAddress = drive.base
  cwd : s.globals.currentDirectoryCluster = (bootOf g.disks drive).rootCluster
  mem : m ∈ s.mountList.mounts

/-- A call that does no harm to a drive mounted before: a mount that reads a boot sector reads one
with the same fields, on the same controller. -/
def Harmless (disks : Drive → Nat → Sector) (drive : Drive) (e : Env) : Call → Prop
  | .mount memory drive' _ => e.fails (.load 0) = false → memory.fs ≠ none →
      bootOf disks drive' = bootOf disks drive ∧ drive'.base = drive.base
  | _ => True

section invariant

variable {g : Fs} {drive : Drive} {m : Vfs.Mount sig} {s s' : Vfs.State sig}

theorem Same.step (h : Same g s) {P : Env → Call → Prop} (hs : Step P s s') : Same g s' := by
  obtain ⟨e, call, -, hafter⟩ := hs
  by_cases hother : ∀ memory drive mountPath, call ≠ .mount memory drive mountPath
  · obtain ⟨drive, rfl⟩ := after_other hafter hother
    exact ⟨h.table, h.disks, h.offset⟩
  · push Not at hother
    obtain ⟨memory, drive, mountPath, rfl⟩ := hother
    obtain ⟨r, hrun⟩ := hafter
    obtain ⟨htable, -, hglobals | ⟨-, -, i, v, hglobals⟩⟩ := after_mount hrun
    · exact ⟨htable.trans h.table, by rw [hglobals, h.disks], by rw [hglobals, h.offset]⟩
    · refine ⟨htable.trans h.table, ?_, ?_⟩
      · rw [hglobals]
        exact h.disks
      · rw [hglobals]
        exact h.offset

theorem Same.run (h : Same g s) {P : Env → Call → Prop} (hs : Relation.ReflTransGen (Step P) s s') :
    Same g s' := by
  induction hs with
  | refl => exact h
  | tail _ hstep ih => exact ih.step hstep

theorem SetUp.step (h : SetUp g drive m s) (hs : Step (Harmless g.disks drive) s s') :
    SetUp g drive m s' := by
  have hsame := h.toSame.step hs
  obtain ⟨e, call, hharmless, hafter⟩ := hs
  by_cases hother : ∀ memory drive mountPath, call ≠ .mount memory drive mountPath
  · obtain ⟨drive', rfl⟩ := after_other hafter hother
    exact ⟨hsame, h.boot, h.base, h.cwd, h.mem⟩
  · push Not at hother
    obtain ⟨memory, drive', mountPath, rfl⟩ := hother
    obtain ⟨r, hrun⟩ := hafter
    obtain ⟨-, hmem, hglobals | ⟨hread, hmemory, i, v, hglobals⟩⟩ := after_mount hrun
    · refine ⟨hsame, ?_, ?_, ?_, hmem m h.mem⟩
      · rw [hglobals, h.boot]
      · rw [hglobals, h.base]
      · rw [hglobals, h.cwd]
    · obtain ⟨hboot, hbase⟩ := hharmless hread hmemory
      have hboot' : bootOf s.globals.disks drive' = bootOf g.disks drive := by
        rw [h.disks, hboot]
      refine ⟨hsame, ?_, ?_, ?_, hmem m h.mem⟩
      · rw [hglobals]
        exact hboot'
      · rw [hglobals]
        exact hbase
      · rw [hglobals]
        exact congrArg BootSector.rootCluster hboot'

theorem SetUp.run (h : SetUp g drive m s)
    (hs : Relation.ReflTransGen (Step (Harmless g.disks drive)) s s') : SetUp g drive m s' := by
  induction hs with
  | refl => exact h
  | tail _ hstep ih => exact ih.step hstep

end invariant

/-! ## Isolation -/

/-- In the state `s`, the file system `fs` answers as it does in the state `t`, and the operations
on directories that leave the stack alone write to its drive only. -/
structure Isolated (fs : Vfs.Filesystem sig) (s t : Vfs.State sig) : Prop where
  opens : ∀ e path, Vfs.vfsGetFilesystem s.mountList path = some fs →
    ((Vfs.vfsOpen tables path).run e s).map Prod.fst
      = ((Vfs.vfsOpen tables path).run e t).map Prod.fst
  lists : ∀ e path index, Vfs.vfsGetFilesystem s.mountList path = some fs →
    ((Vfs.vfsReaddir tables path index).run e s).map Prod.fst
      = ((Vfs.vfsReaddir tables path index).run e t).map Prod.fst
  reads : ∀ e (node : Vfs.Node sig) offset size buffer, node.fs = fs →
    ((Vfs.vfsRead tables node offset size buffer).run e s).map Prod.fst
      = ((Vfs.vfsRead tables node offset size buffer).run e t).map Prod.fst
  writes : ∀ (op : DirOp) nm e g', op.Contained nm e { s.globals with currentDrive := fs.drive } →
    op.Leaves nm e { s.globals with currentDrive := fs.drive } g' →
      ∀ drive, drive ≠ fs.drive → g'.disks drive = s.globals.disks drive

section isolation

variable {g : Fs} {drive : Drive} {m : Vfs.Mount sig} {s t : Vfs.State sig}

/-- Apart from the current drive, two states that are set up for the same drive differ in FSInfo
only. -/
theorem SetUp.globals_eq (hs : SetUp g drive m s) (ht : SetUp g drive m t) :
    { s.globals with currentDrive := drive }
      = Fs.withInfo s.globals.fsinfo s.globals.fsinfoValid drive.base
          { t.globals with currentDrive := drive } := by
  unfold Fs.withInfo
  dsimp only
  rw [hs.boot, ht.boot, hs.base, hs.cwd, ht.cwd, hs.disks, ht.disks, hs.offset, ht.offset]

/-- Programs that begin with the choice of the drive, and do not look at FSInfo, give the same
results. -/
theorem SetUp.results_eq (hs : SetUp g drive m s) (ht : SetUp g drive m t) {α : Type} {p : Io α}
    (hp : Ignores (Fs.withInfo s.globals.fsinfo s.globals.fsinfoValid drive.base) p) {e : Env}
    (hdrive : ∀ x : Fs, (p.run e x).map Prod.fst
      = (p.run e { x with currentDrive := drive }).map Prod.fst) :
    ((Vfs.onGlobals (S := sig) p).run e s).map Prod.fst
      = ((Vfs.onGlobals (S := sig) p).run e t).map Prod.fst := by
  have honGlobals : ∀ x : Vfs.State sig, ((Vfs.onGlobals (S := sig) p).run e x).map Prod.fst
      = (p.run e x.globals).map Prod.fst := by
    intro x
    change ((p.run e x.globals).map _).map _ = _
    rw [Option.map_map]
    rfl
  calc ((Vfs.onGlobals (S := sig) p).run e s).map Prod.fst
      = (p.run e s.globals).map Prod.fst := honGlobals s
    _ = (p.run e { s.globals with currentDrive := drive }).map Prod.fst := hdrive _
    _ = (p.run e { t.globals with currentDrive := drive }).map Prod.fst := by
        rw [hs.globals_eq ht, hp.run_eq, Option.map_map]
        rfl
    _ = (p.run e t.globals).map Prod.fst := (hdrive _).symm
    _ = ((Vfs.onGlobals (S := sig) p).run e t).map Prod.fst := (honGlobals t).symm

/-- A path finds the same file system and the same rest in a table that has its mount. -/
theorem resolves_eq {path : List UInt8} (hs : m ∈ s.mountList.mounts)
    (ht : t.mountList.mounts = [m])
    (hfs : Vfs.vfsGetFilesystem s.mountList path = some m.fs) :
    Vfs.vfsGetFilesystem t.mountList path = some m.fs ∧
      Vfs.vfsGetRelativePath t.mountList path m.fs
        = Vfs.vfsGetRelativePath s.mountList path m.fs := by
  have hmem : m ∈ t.mountList.mounts := by
    rw [ht]
    exact List.mem_singleton_self m
  have hp : path.head? = some 0x2F := by
    by_contra hne
    unfold Vfs.vfsGetFilesystem at hfs
    rw [if_neg hne] at hfs
    cases hfs
  -- the mount is the longest match in `s`, so its path is a prefix and not empty
  obtain ⟨hpre, hpos⟩ : m.path <+: path ∧ 0 < m.path.length := by
    rcases Vfs.vfsGetFilesystem_cases s.mountList hp with ⟨hnone, -⟩ | ⟨m', hm', hfirst⟩
    · rw [hnone] at hfs
      cases hfs
    · rw [hm'] at hfs
      obtain rfl := s.mountList.eq_of_fs hfirst.mem hs (Option.some.inj hfs)
      exact ⟨hfirst.1, hfirst.2.1⟩
  constructor
  · rcases Vfs.vfsGetFilesystem_cases t.mountList hp with ⟨-, hnone⟩ | ⟨m', hm', hfirst⟩
    · have := hnone m hmem hpre
      omega
    · have hm := hfirst.mem
      rw [ht, List.mem_singleton] at hm
      rw [hm', hm]
  · rw [Vfs.vfsGetRelativePath_of_mem _ hmem hpre, Vfs.vfsGetRelativePath_of_mem _ hs hpre]

theorem SetUp.isolated (hs : SetUp g m.fs.drive m s) (ht : SetUp g m.fs.drive m t)
    (hone : t.mountList.mounts = [m]) : Isolated m.fs s t where
  opens := by
    intro e path hfs
    obtain ⟨hfs', hrel⟩ := resolves_eq hs.mem hone hfs
    rw [run_vfsOpen hfs, run_vfsOpen hfs', hrel]
    exact hs.results_eq ht (fat32VfsOpen_ignores _ _) fun _ => rfl
  lists := by
    intro e path index hfs
    obtain ⟨hfs', hrel⟩ := resolves_eq hs.mem hone hfs
    rw [run_vfsReaddir hfs, run_vfsReaddir hfs', hrel]
    exact hs.results_eq ht (listPath_ignores _ _ _) fun _ => rfl
  reads := by
    intro e node offset size buffer hnode
    apply hs.results_eq ht (fat32VfsRead_ignores _ _ _ _)
    intro x
    unfold fat32VfsRead
    rw [hnode]
    by_cases htype : node.type ≠ .file
    · rw [if_pos htype]
      rfl
    · rw [if_neg htype]
      rfl
  writes := by
    intro op nm e g' hok hleaves drive hne
    apply (hleaves.footprint hok).disks
    unfold Fs.writeDrive
    rw [hs.base]
    exact hne

/-- The first state after a mount that succeeds, and the state that the mount alone leads to. -/
theorem setUp_of_mount {e : Env} {memory : Vfs.Memory} {mountPath : List UInt8} (hs : Same g s)
    (h : (Vfs.vfsMount tables memory drive fat32Name mountPath).run e s = some (.ok (), t)) :
    ∃ m t', (Vfs.vfsMount tables memory drive fat32Name mountPath).run e (registered g)
        = some (.ok (), t') ∧ m.path = mountPath.take 255 ∧ m.fs.drive = drive ∧
      SetUp g drive m t ∧ SetUp g drive m t' ∧ t'.mountList.mounts = [m] := by
  have hsame : Same g t := hs.step (P := fun _ _ => True)
    ⟨e, .mount memory drive mountPath, trivial, .ok (), h⟩
  cases Vfs.vfsMount_inv _ h with
  | @mounted _ addr result x htable haddr hfresh hrun hmount =>
      obtain ⟨i, v, heq⟩ := run_fat32VfsMount e s.globals (Vfs.newFilesystem drive fat32Name addr ())
      obtain ⟨i', v', heq'⟩ := run_fat32VfsMount e g (Vfs.newFilesystem drive fat32Name addr ())
      have hx : (fat32VfsMount (Vfs.newFilesystem drive fat32Name addr ())).run e s.globals
          = some (.ok result, x) := hrun
      rw [heq] at hx
      cases hfail : e.fails (.load 0) with
      | true =>
          rw [hfail] at hx
          cases hx
      | false =>
          rw [hfail] at hx heq'
          obtain ⟨hresult, rfl⟩ := Prod.mk.inj (Option.some.inj hx)
          -- the boot sector is read from the disk, so the result is the same from the start
          have hboot : bootOf s.globals.disks drive = bootOf g.disks drive := by rw [hs.disks]
          have hrun' : (fat32VfsMount (Vfs.newFilesystem drive fat32Name addr ())).run e g
              = some (.ok result, g.booted drive i' v') := by
            rw [heq', ← hresult]
            change some (mountResult e (bootOf g.disks drive), _) = some (mountResult e _, _)
            rw [← hboot]
            rfl
          refine ⟨_, _, Vfs.run_vfsMount tables rfl haddr (fun _ hm => absurd hm (by simp [registered,
            Vfs.MountTable.empty])) hrun' hmount, rfl, rfl, ⟨hsame, ?_, rfl, ?_, ?_⟩,
            ⟨⟨rfl, rfl, rfl⟩, rfl, rfl, rfl, ?_⟩, rfl⟩
          · exact hboot
          · exact congrArg BootSector.rootCluster hboot
          · exact List.mem_cons_self
          · exact List.mem_cons_self

end isolation

/-- **Isolation**: a drive that has been mounted is not disturbed by what comes before its mount, nor
by what comes after it as long as it is harmless. -/
theorem isolated_of_harmless {g : Fs} {e : Env} {memory : Vfs.Memory} {drive : Drive}
    {mountPath : List UInt8} {s₁ s₂ s : Vfs.State sig}
    (hbefore : Relation.ReflTransGen (Step fun _ _ => True) (registered g) s₁)
    (hmount : (Vfs.vfsMount tables memory drive fat32Name mountPath).run e s₁ = some (.ok (), s₂))
    (hafter : Relation.ReflTransGen (Step (Harmless g.disks drive)) s₂ s) :
    ∃ m t, (Vfs.vfsMount tables memory drive fat32Name mountPath).run e (registered g)
        = some (.ok (), t) ∧ m.path = mountPath.take 255 ∧ m.fs.drive = drive ∧
      t.mountList.mounts = [m] ∧ m ∈ s.mountList.mounts ∧ Isolated m.fs s t := by
  have hstart : Same g (registered g) := ⟨rfl, rfl, rfl⟩
  obtain ⟨m, t, halone, hpath, rfl, hs₂, ht, hone⟩ := setUp_of_mount (hstart.run hbefore) hmount
  have hs := hs₂.run hafter
  exact ⟨m, t, halone, hpath, rfl, hone, hs.mem, hs.isolated ht hone⟩

/-! ### Two drives on two controllers -/

/-- The boot sector of a small volume, without FSInfo. -/
def smallBootSector : Sector := fun x =>
  match x.val with
  | 12 => 2
  | 13 => 1
  | 14 => 2
  | 16 => 2
  | 32 => 12
  | 36 => 1
  | 44 => 2
  | _ => 0

/-- The master of the first controller. -/
def firstDrive : Drive := ⟨0x1F0, true⟩

/-- The master of the second controller. -/
def secondDrive : Drive := ⟨0x170, true⟩

/-- Two drives with empty roots; on the second one cluster 4 is in use. -/
def twoDrivesFs : Fs where
  disks := fun drive =>
    if drive = firstDrive then
      smallVolume.image (fun c => if c = 2 then eocMax else 0) (fun _ _ => zeroEntry) smallBootSector
    else
      smallVolume.image (fun c => if c = 2 ∨ c = 4 then eocMax else 0) (fun _ _ => zeroEntry)
        smallBootSector
  currentDrive := firstDrive
  ataBaseAddress := 0
  bootSector := smallVolume.bs
  fsinfo := fun _ => 0
  fsinfoValid := false
  currentDirectoryCluster := 2
  partitionLbaOffset := 0

/-- A mount that gets its memory. -/
def mountAt (addr : Nat) (drive : Drive) (mountPath : List UInt8) :
    Prog Env (Vfs.State sig) (Except Vfs.Error Unit) :=
  Vfs.vfsMount tables ⟨some addr, true⟩ drive fat32Name mountPath

/-- The first drive at `/` and then a drive at `/D`. -/
theorem exists_mounted (drive : Drive) (p : Vfs.State sig → Bool)
    (h : ((mountAt 1 firstDrive [0x2F]).run quietEnv (registered twoDrivesFs)).bind (fun r =>
      ((mountAt 2 drive [0x2F, 0x44]).run quietEnv r.2).map fun r' =>
        r.1.isOk && r'.1.isOk && p r'.2) = some true) :
    ∃ s₂ s, (mountAt 1 firstDrive [0x2F]).run quietEnv (registered twoDrivesFs) = some (.ok (), s₂) ∧
      (mountAt 2 drive [0x2F, 0x44]).run quietEnv s₂ = some (.ok (), s) ∧ p s = true := by
  obtain ⟨⟨r, s₂⟩, h₂, h⟩ := Option.bind_eq_some_iff.mp h
  obtain ⟨⟨r', s⟩, hs, hp⟩ := Option.map_eq_some_iff.mp h
  cases r with
  | error err => cases hp
  | ok _ =>
      cases r' with
      | error err => cases hp
      | ok _ => exact ⟨s₂, s, h₂, hs, hp⟩

/-- A drive that is mounted twice. -/
theorem isolated_mounted_twice : ∃ s₂ s m t,
    (mountAt 1 firstDrive [0x2F]).run quietEnv (registered twoDrivesFs) = some (.ok (), s₂) ∧
      (mountAt 2 firstDrive [0x2F, 0x44]).run quietEnv s₂ = some (.ok (), s) ∧
      m.fs.drive = firstDrive ∧ m ∈ s.mountList.mounts ∧ t.mountList.mounts = [m] ∧
      Isolated m.fs s t := by
  obtain ⟨s₂, s, h₂, hs, -⟩ := exists_mounted firstDrive (fun _ => true) (by decide)
  obtain ⟨m, t, -, -, hdrive, hone, hmem, hisolated⟩ := isolated_of_harmless .refl h₂
    (.single ⟨quietEnv, .mount ⟨some 2, true⟩ firstDrive [0x2F, 0x44],
      fun _ _ => ⟨rfl, rfl⟩, .ok (), hs⟩)
  exact ⟨s₂, s, m, t, h₂, hs, hdrive, hmem, hone, hisolated⟩

/-- The drive of the other controller is mounted, and a file created on the first drive: the second
drive gets the FAT of the first, and cluster 4 is free there. -/
theorem not_isolated_secondDrive : ∃ s₂ s,
    (mountAt 1 firstDrive [0x2F]).run quietEnv (registered twoDrivesFs) = some (.ok (), s₂) ∧
      (mountAt 2 secondDrive [0x2F, 0x44]).run quietEnv s₂ = some (.ok (), s) ∧
      ∀ fs, fs.drive = firstDrive → ¬ Isolated fs s s₂ := by
  obtain ⟨s₂, s, h₂, hs, hp⟩ := exists_mounted secondDrive
    (fun s => (((fat32CreateFile [0x41]).run quietEnv
      { s.globals with currentDrive := firstDrive }).map fun r : Bool × Fs =>
        smallVolume.fat (r.2.disks secondDrive) 4 == 0 &&
          smallVolume.fat (s.globals.disks secondDrive) 4 == eocMax) == some true)
    (by decide +kernel)
  refine ⟨s₂, s, h₂, hs, ?_⟩
  rintro fs hfs hisolated
  obtain ⟨⟨b, g'⟩, hrun, hfat⟩ := Option.map_eq_some_iff.mp (beq_iff_eq.mp hp)
  rw [Bool.and_eq_true, beq_iff_eq, beq_iff_eq] at hfat
  have hdisk := hisolated.writes .createFile [0x41] quietEnv g' nofun
    (.returned (by rw [hfs]; exact hrun)) secondDrive (by rw [hfs]; decide)
  rw [hdisk, hfat.2] at hfat
  exact absurd hfat.1 (by decide)

end MicroKernel.Fat32
