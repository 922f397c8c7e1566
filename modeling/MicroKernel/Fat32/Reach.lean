import MicroKernel.Fat32.FreeChain
import MicroKernel.Fat32.Search

set_option autoImplicit false

/-! # What the scanners of a directory reach

Three functions look through the current directory: `find_file_in_directory` and
`fat32_vfs_readdir` in its first cluster, `find_next_cluster` along its whole chain. All of them
stop at the first slot that starts with a zero byte. `remove_entry_from_directory` fills the slot
of a deleted entry with zeros instead of marking it as deleted, so a deletion cuts off every
entry behind that slot. `delete_keepsOthers_iff` says exactly when nothing is lost.

The chain is followed as `find_next_cluster` follows it, over whatever the FAT holds.
-/

namespace MicroKernel.Fat32

open MicroKernel.Lib Bytes

/-! ## What a scan sees -/

namespace Fs

variable (s : Fs)

/-- A scan of cluster `c` arrives at slot `j` and does not skip it. -/
structure Sees (skip : DirEntry → Bool) (c j : Nat) : Prop where
  lt : j < s.slotCount
  noEnd : ∀ i, i ≤ j → (s.dirSlot c i).isEnd = false
  kept : skip (s.dirSlot c j) = false

/-- `find_next_cluster`, started at one cluster, gets to another. -/
inductive Walks (s : Fs) : Nat → Nat → Prop where
  | here (c : Nat) : Walks s c c
  | next {c c' : Nat} (hend : ∀ j, j < s.slotCount → (s.dirSlot c j).isEnd = false)
      (hlt : s.nextCluster c < eocMin) (h : Walks s (s.nextCluster c) c') : Walks s c c'

end Fs

/-- The functions that look through a directory. -/
inductive Scanner where
  | findFileInDirectory
  | findNextCluster
  | fat32VfsReaddir

/-- The function reaches slot `j` of cluster `c` of the current directory. -/
def Fs.Reaches (s : Fs) : Scanner → Nat → Nat → Prop
  | .findFileInDirectory, c, j => c = s.currentDirectoryCluster ∧ s.Sees skipDeletedLfn c j
  | .findNextCluster, c, j => s.Walks s.currentDirectoryCluster c ∧ s.Sees skipDeletedLfn c j ∧
      (s.dirSlot c j).isDirectory = true
  | .fat32VfsReaddir, c, j => c = s.currentDirectoryCluster ∧ s.Sees skipReaddir c j

/-! ## The functions

What the functions return is always an entry that they reach, and `find_file_in_directory` and
`fat32_vfs_readdir` return every entry they reach, for a suitable name or index. -/

section functions

variable {V : Volume} {s s' : Fs} {e : Env}

theorem sees_iff (h : s.On V) {c : Nat} (hc : V.Has c) {skip : DirEntry → Bool} {j : Nat} :
    s.Sees skip c j ↔ j < V.slots ∧ (∀ i, i ≤ j → (V.slot s.disk c i).isEnd = false) ∧
      skip (V.slot s.disk c j) = false := by
  constructor
  · intro hs
    have hlt := hs.lt
    rw [slotCount_eq h] at hlt
    refine ⟨hlt, fun i hi => ?_, ?_⟩
    · rw [← dirSlot_eq h hc (by omega)]
      exact hs.noEnd i hi
    · rw [← dirSlot_eq h hc hlt]
      exact hs.kept
  · rintro ⟨hlt, hend, hkept⟩
    refine ⟨by rwa [slotCount_eq h], fun i hi => ?_, ?_⟩
    · rw [dirSlot_eq h hc (by omega)]
      exact hend i hi
    · rw [dirSlot_eq h hc hlt]
      exact hkept

theorem findFileInDirectory_reaches (h : s.Ready V) {filename : List UInt8} {x : DirEntry}
    (hr : (findFileInDirectory filename).run e s = some (some x, s')) :
    ∃ j, s.Reaches .findFileInDirectory s.currentDirectoryCluster j ∧
      x = s.dirSlot s.currentDirectoryCluster j := by
  obtain ⟨-, hno | ⟨j, hj, hx⟩⟩ := findFileInDirectory_cases h hr
  · cases hno
  · rw [Option.some.injEq] at hx
    refine ⟨j, ⟨rfl, (sees_iff h.on h.cwd).mpr ⟨hj.lt, fun i hi => hj.noEnd hi, hj.taken.2.1⟩⟩, ?_⟩
    rw [hx, dirSlot_eq h.on h.cwd hj.lt]

theorem reaches_findFileInDirectory (he : e.Reliable) (hm : e.HasMemory) (h : s.Ready V)
    {filename : List UInt8} {j : Nat}
    (hj : s.Reaches .findFileInDirectory s.currentDirectoryCluster j)
    (hname : compareNames (s.dirSlot s.currentDirectoryCluster j).name filename = true) :
    ∃ x, (findFileInDirectory filename).run e s = some (some x, s) := by
  obtain ⟨hlt, hend, hkept⟩ := (sees_iff h.on h.cwd).mp hj.2
  rw [dirSlot_eq h.on h.cwd hlt] at hname
  have htaken : Taken skipDeletedLfn (fun x => compareNames x.name filename)
      (V.slot s.disk s.currentDirectoryCluster j) := ⟨hend j (Nat.le_refl j), hkept, hname⟩
  obtain ⟨i, -, hfound⟩ := exists_firstTaken hlt hend htaken
  exact ⟨_, run_findFileInDirectory (he.searches hm) h hfound⟩

/-- The entries that `fat32_vfs_readdir` reports, one after the other. -/
theorem nthEntry_eq_some {b : Bytes} {index n j cur : Nat} {x : DirEntry}
    (h : nthEntry b index n j cur = some x) :
    ∃ i, j ≤ i ∧ i < j + n ∧ (∀ i', j ≤ i' → i' ≤ i → (entryAt b i').isEnd = false) ∧
      skipReaddir (entryAt b i) = false ∧ x = entryAt b i := by
  induction n generalizing j cur with
  | zero => cases h
  | succ n ih =>
      unfold nthEntry at h
      split at h
      · cases h
      next hend =>
        rw [Bool.not_eq_true] at hend
        have hrest : ∀ cur', nthEntry b index n (j + 1) cur' = some x →
            ∃ i, j ≤ i ∧ i < j + (n + 1) ∧
              (∀ i', j ≤ i' → i' ≤ i → (entryAt b i').isEnd = false) ∧
              skipReaddir (entryAt b i) = false ∧ x = entryAt b i := by
          intro cur' hn
          obtain ⟨i, h1, h2, h3, h4⟩ := ih hn
          refine ⟨i, by omega, by omega, fun i' h5 h6 => ?_, h4⟩
          rcases Nat.eq_or_lt_of_le h5 with rfl | h5
          · exact hend
          · exact h3 i' h5 h6
        split at h
        · exact hrest cur h
        next hskip =>
          rw [Bool.not_eq_true] at hskip
          split at h
          · rw [Option.some.injEq] at h
            refine ⟨j, Nat.le_refl j, by omega, fun i' h1 h2 => ?_, hskip, h.symm⟩
            rw [Nat.le_antisymm h2 h1]
            exact hend
          · exact hrest (cur + 1) h

theorem exists_nthEntry {b : Bytes} {n j i : Nat} (cur : Nat) (h1 : j ≤ i) (h2 : i < j + n)
    (hend : ∀ i', j ≤ i' → i' ≤ i → (entryAt b i').isEnd = false)
    (hskip : skipReaddir (entryAt b i) = false) :
    ∃ index, cur ≤ index ∧ nthEntry b index n j cur = some (entryAt b i) := by
  induction n generalizing j cur with
  | zero => omega
  | succ n ih =>
      have hj := hend j (Nat.le_refl j) h1
      rcases Nat.eq_or_lt_of_le h1 with rfl | h1
      · exact ⟨cur, Nat.le_refl cur, by simp [nthEntry, hj, hskip]⟩
      · by_cases hs : skipReaddir (entryAt b j) = true
        · obtain ⟨index, h3, h4⟩ := ih cur h1 (by omega)
            fun i' h5 h6 => hend i' (by omega) h6
          exact ⟨index, h3, by simp [nthEntry, hj, hs, h4]⟩
        · obtain ⟨index, h3, h4⟩ := ih (cur + 1) h1 (by omega)
            fun i' h5 h6 => hend i' (by omega) h6
          exact ⟨index, by omega, by
            rw [nthEntry, if_neg (by simp [hj]), if_neg hs, if_neg (by omega), h4]⟩

theorem run_fat32VfsReaddir (he : e.Reliable) (hm : e.outOfMemory (.load 0 :: e.path) = false)
    (h : s.On V) {c : Nat} (hc : V.Has c) :
    ∃ b, (∀ j, j < V.slots → entryAt b j = V.slot s.disk c j) ∧
      ∀ index, (fat32VfsReaddir c index).run e s = some (nthEntry b index V.slots 0 0, s) := by
  have hl := he.allLoaded V.bs.sectorsPerCluster 0
  refine ⟨loaded e (V.clusterBytes s.disk c) V.bs.sectorsPerCluster 0 (e.junk (.load 0 :: e.path)),
    fun j hj => entryAt_loaded _ _ _ hj hl, fun index => ?_⟩
  unfold fat32VfsReaddir
  rw [Prog.run_bind, Prog.run_get, Option.bind_some]
  dsimp only
  rw [clusterToSector_eq h hc, h.boot, Prog.run_bind, Prog.run_ask, Option.bind_some,
    Prog.run_ite, if_neg (by simp [hm]), Prog.run_bind, run_uninitialised, Option.bind_some,
    Prog.run_bind, run_readSectorsChecked e hc _ (by omega), Option.bind_some]
  simp only [if_pos hl, Prog.run_pure]
  rw [Nat.mul_comm]
  rfl

/-- Without its buffer `fat32_vfs_readdir` reports nothing. -/
theorem run_fat32VfsReaddir_none (hm : e.outOfMemory (.load 0 :: e.path) = true) (c index : Nat) :
    (fat32VfsReaddir c index).run e s = some (none, s) := by
  unfold fat32VfsReaddir
  rw [Prog.run_bind, Prog.run_get, Option.bind_some]
  dsimp only
  rw [Prog.run_bind, Prog.run_ask, Option.bind_some, Prog.run_ite, if_pos hm]
  rfl

theorem fat32VfsReaddir_reaches (he : e.Reliable) (h : s.Ready V) {index : Nat} {x : DirEntry}
    (hr : (fat32VfsReaddir s.currentDirectoryCluster index).run e s = some (some x, s')) :
    ∃ j, s.Reaches .fat32VfsReaddir s.currentDirectoryCluster j ∧
      x = s.dirSlot s.currentDirectoryCluster j := by
  have hm : e.outOfMemory (.load 0 :: e.path) = false := by
    by_contra hm
    rw [run_fat32VfsReaddir_none (by simpa using hm)] at hr
    cases hr
  obtain ⟨b, hb, hrun⟩ := run_fat32VfsReaddir he hm h.on h.cwd
  rw [hrun, Option.some.injEq, Prod.mk.injEq] at hr
  obtain ⟨i, -, h2, h3, h4, rfl⟩ := nthEntry_eq_some hr.1
  rw [Nat.zero_add] at h2
  rw [hb i h2] at h4 ⊢
  refine ⟨i, ⟨rfl, (sees_iff h.on h.cwd).mpr ⟨h2, fun i' hi' => ?_, h4⟩⟩, ?_⟩
  · rw [← hb i' (by omega)]
    exact h3 i' (Nat.zero_le i') hi'
  · rw [dirSlot_eq h.on h.cwd h2]

theorem reaches_fat32VfsReaddir (he : e.Reliable) (hm : e.outOfMemory (.load 0 :: e.path) = false)
    (h : s.Ready V) {j : Nat}
    (hj : s.Reaches .fat32VfsReaddir s.currentDirectoryCluster j) :
    ∃ index, (fat32VfsReaddir s.currentDirectoryCluster index).run e s
      = some (some (s.dirSlot s.currentDirectoryCluster j), s) := by
  obtain ⟨hlt, hend, hkept⟩ := (sees_iff h.on h.cwd).mp hj.2
  obtain ⟨b, hb, hrun⟩ := run_fat32VfsReaddir he hm h.on h.cwd
  obtain ⟨index, -, hn⟩ := exists_nthEntry (b := b) (n := V.slots) 0 (Nat.zero_le j)
    (by omega) (fun i' _ hi' => by rw [hb i' (by omega)]; exact hend i' hi')
    (by rw [hb j hlt]; exact hkept)
  refine ⟨index, ?_⟩
  rw [hrun, hn, hb j hlt, dirSlot_eq h.on h.cwd hlt]

/-- The slot with a directory of that name, when the scan of a cluster comes to one, and no end
marker when it comes to the end of the cluster. -/
theorem findIn_spec (s : Fs) (dirName : List UInt8) (c : Nat) :
    match s.findIn dirName c with
    | .found x => ∃ j, FirstTaken skipDeletedLfn (Fs.isDirNamed dirName) (s.dirSlot c)
        s.slotCount j ∧ x = s.dirSlot c j
    | .ended => ∃ j, j < s.slotCount ∧ (s.dirSlot c j).isEnd = true ∧
        ∀ i, i < j → Passed skipDeletedLfn (Fs.isDirNamed dirName) (s.dirSlot c i)
    | .more => ∀ j, j < s.slotCount →
        Passed skipDeletedLfn (Fs.isDirNamed dirName) (s.dirSlot c j) := by
  have hs := scanEntries_spec skipDeletedLfn (Fs.isDirNamed dirName) (s.dirBytes c) (s.dirSlot c)
    s.slotCount 0 fun _ _ _ => rfl
  unfold Fs.findIn
  revert hs
  cases scanEntries skipDeletedLfn (Fs.isDirNamed dirName) (s.dirBytes c) s.slotCount 0 with
  | found x =>
      rintro ⟨j, -, hj, hpassed, htaken, hx⟩
      exact ⟨j, ⟨by omega, fun i hi => hpassed i (Nat.zero_le i) hi, htaken⟩, hx⟩
  | ended =>
      rintro ⟨j, -, hj, hpassed, hend⟩
      exact ⟨j, by omega, hend, fun i hi => hpassed i (Nat.zero_le i) hi⟩
  | more => exact fun hpassed j hj => hpassed j (Nat.zero_le j) (by omega)

theorem searchFrom_cases {dirName : List UInt8} {k c v : Nat}
    (hv : s.searchFrom dirName k c = some v) :
    v = invalidCluster ∨ ∃ c' j, s.Walks c c' ∧ s.Sees skipDeletedLfn c' j ∧
      (s.dirSlot c' j).isDirectory = true ∧ compareNames (s.dirSlot c' j).name dirName = true ∧
      v = readStartCluster (s.dirSlot c' j) := by
  induction k generalizing c with
  | zero => cases hv
  | succ k ih =>
      have hscan := findIn_spec s dirName c
      rw [Fs.searchFrom] at hv
      revert hv hscan
      cases s.findIn dirName c with
      | found x =>
          rintro hv ⟨j, hj, rfl⟩
          have hnamed := hj.taken.2.2
          rw [Fs.isDirNamed, Bool.and_eq_true] at hnamed
          right
          exact ⟨c, j, .here c, ⟨hj.lt, fun i hi => hj.noEnd hi, hj.taken.2.1⟩, hnamed.1, hnamed.2,
            (Option.some.inj hv).symm⟩
      | ended =>
          intro hv _
          left
          exact (Option.some.inj hv).symm
      | more =>
          intro hv hscan
          dsimp only at hv
          split at hv
          next hlt =>
            rcases ih hv with hv | ⟨c', j, hw, hrest⟩
            · exact Or.inl hv
            · exact Or.inr ⟨c', j, .next (fun j hj => (hscan j hj).1) hlt hw, hrest⟩
          next =>
            left
            exact (Option.some.inj hv).symm

theorem findNextCluster_cases (he : e.Reliable) (h : s.On V) {dirName : List UInt8} {c v : Nat}
    (hr : (findNextCluster dirName c).run e s = some (v, s')) :
    s' = s ∧ s.searchFrom dirName steps c = some v := by
  rw [run_findNextCluster he h, Option.map_eq_some_iff] at hr
  obtain ⟨v', hv, heq⟩ := hr
  rw [Prod.mk.injEq] at heq
  exact ⟨heq.2.symm, heq.1 ▸ hv⟩

/-- What `find_next_cluster` returns is the first cluster of a directory that it reaches. -/
theorem findNextCluster_reaches (he : e.Reliable) (h : s.On V) {dirName : List UInt8} {v : Nat}
    (hr : (findNextCluster dirName s.currentDirectoryCluster).run e s = some (v, s')) :
    v = invalidCluster ∨ ∃ c j, s.Reaches .findNextCluster c j ∧
      compareNames (s.dirSlot c j).name dirName = true ∧
      v = readStartCluster (s.dirSlot c j) := by
  rcases searchFrom_cases (findNextCluster_cases he h hr).2 with
    hv | ⟨c, j, hw, hs, hdir, hname, hv⟩
  · exact Or.inl hv
  · exact Or.inr ⟨c, j, ⟨hw, hs, hdir⟩, hname, hv⟩

end functions

/-! ## Deleting -/

/-- Every entry that a function reached before the deletion of slot `j`, other than that slot, is
still reached by the same function and has the same bytes. -/
def KeepsOthers (s s' : Fs) (j : Nat) : Prop :=
  ∀ f c i, s.Reaches f c i → (c, i) ≠ (s.currentDirectoryCluster, j) →
    s'.Reaches f c i ∧ s'.dirSlot c i = s.dirSlot c i

/-- Nothing that a function reaches lies behind slot `j` of the first cluster. -/
def NothingBehind (s : Fs) (j : Nat) : Prop :=
  ∀ f c i, s.Reaches f c i → c = s.currentDirectoryCluster ∧ i ≤ j

section delete

variable {V : Volume} {s s' : Fs} {e : Env} {j : Nat}

theorem Deletes.ready {nm : List UInt8} (hd : Deletes V e nm j s s') (h : s.Ready V) :
    s'.Ready V := (Outcome.deleted hd).ready h

theorem Deletes.cwd {nm : List UInt8} (hd : Deletes V e nm j s s') :
    s'.currentDirectoryCluster = s.currentDirectoryCluster := by
  obtain ⟨-, -, s₁, -, hf, rfl⟩ := hd
  rw [Fs.flushed_cwd]
  exact hf.cwd

/-- What is found and has a cluster is removed. The clusters that its links do not lead to keep their
FAT entries. -/
theorem run_freeAndRemove_true (he : e.Reliable) (h : s.Ready V) {nm : List UInt8}
    (hj : V.FoundAt s.disk s.currentDirectoryCluster nm j) {start : Nat}
    (hstart : readStartCluster (V.slot s.disk s.currentDirectoryCluster j) = start)
    (hhas : V.Has start) :
    ∃ s', (freeAndRemove (V.slot s.disk s.currentDirectoryCluster j)).run e s = some (true, s') ∧
      Deletes V e nm j s s' ∧
      ∀ c, V.Has c → ¬ ComesTo (V.freeStep s.disk) start c → V.fat s'.disk c = V.fat s.disk c := by
  subst hstart
  obtain ⟨s₁, F, hfree, hend, hcomes⟩ :=
    run_freeClusterChain_freeing (he.enter .free) h.on hhas
  obtain ⟨hb, -⟩ | ⟨-, -, hf⟩ := freeClusterChain_cases (he.enter _) h hfree
  · cases hb
  have hready := (hf.ready h).withDisk (V.putSlot s₁.disk s.currentDirectoryCluster j zeroEntry)
  obtain ⟨b₂, hb₂⟩ := run_writeFsinfo_reliable (he.enter .sync) hready
  refine ⟨_, ?_, ⟨hj, hhas, s₁, hfree, hf, rfl⟩, fun c hc hno => ?_⟩
  · unfold freeAndRemove
    simp only [Prog.run_bind, run_within, Option.bind_some, hfree, Bool.not_true,
      Bool.false_eq_true, if_false, Prog.run_get, hf.cwd, run_removeEntry_found (he.enter _) h hj hf,
      hb₂, Prog.run_pure]
  · rw [fat_flushed hready, Fs.withDisk_disk, V.fat_putSlot _ _ hj.lt hc.2,
      hend.freed.fat hend.has hc.2, if_neg fun hmem => hno ((hcomes c).mp hmem)]

/-- A deletion succeeds where the entry is found, starts in a cluster and, for `fat32_delete_dir`,
looks empty in a cluster of one sector. -/
theorem exists_deletes (he : e.Reliable) (h : s.Ready V) (op : DirOp) {nm : List UInt8}
    (hop : op = .deleteFile ∨ op = .deleteDir) (hfits : op.Fits V e nm s)
    (hs : (e.enter .find).Searches V) (hj : V.FoundAt s.disk s.currentDirectoryCluster nm j)
    {start : Nat} (hstart : readStartCluster (V.slot s.disk s.currentDirectoryCluster j) = start)
    (hhas : V.Has start) (hempty : op = .deleteDir → V.looksEmpty s.disk start = true) :
    ∃ s', (op.call nm).run e s = some (true, s') ∧ Deletes V e nm j s s' ∧
      ∀ c, V.Has c → ¬ ComesTo (V.freeStep s.disk) start c → V.fat s'.disk c = V.fat s.disk c := by
  obtain ⟨s', hrun, hd⟩ := run_freeAndRemove_true he h hj hstart hhas
  subst hstart
  refine ⟨s', ?_, hd⟩
  rw [run_delete_found h hop hfits hs hj hhas fun hdir => ?_]
  · exact hrun
  · rw [(he.enter _).fails, if_neg (by decide)]
    exact hempty hdir

/-- The slots of the current directory after a deletion: one of them is an end marker now. -/
theorem Deletes.slot {nm : List UInt8} (hd : Deletes V e nm j s s') (h : s.Ready V) (i : Nat) :
    V.slot s'.disk s.currentDirectoryCluster i
      = if i = j then zeroEntry else V.slot s.disk s.currentDirectoryCluster i := by
  obtain ⟨hfound, -, s₁, -, hf, rfl⟩ := hd
  rw [slot_flushed ((hf.ready h).withDisk _), Fs.withDisk_disk,
    V.slot_putSlot_same _ _ hfound.lt, hf.slot]

/-- The slots of all clusters after a deletion. -/
theorem Deletes.slotAt {nm : List UInt8} (hd : Deletes V e nm j s s') (h : s.Ready V) {c i : Nat}
    (hc : V.Has c) (hi : i < V.slots) : V.slot s'.disk c i
      = if c = s.currentDirectoryCluster ∧ i = j then zeroEntry else V.slot s.disk c i := by
  obtain ⟨hfound, -, s₁, -, hf, rfl⟩ := hd
  rw [slot_flushed ((hf.ready h).withDisk _), Fs.withDisk_disk,
    V.slot_putSlot _ _ hfound.lt h.cwd.1 hc.1 hi, hf.slot]

/-- The FAT after a deletion: some entries have been set to zero. -/
theorem Deletes.fat {nm : List UInt8} (hd : Deletes V e nm j s s') (h : s.Ready V) {y : Nat}
    (hy : V.Has y) : V.fat s'.disk y = 0 ∨ V.fat s'.disk y = V.fat s.disk y := by
  obtain ⟨hfound, -, s₁, -, hf, rfl⟩ := hd
  rw [fat_flushed ((hf.ready h).withDisk _), Fs.withDisk_disk, V.fat_putSlot _ _ hfound.lt hy.2]
  exact hf.fat hy

theorem Deletes.dirSlot {nm : List UInt8} (hd : Deletes V e nm j s s') (h : s.Ready V) {i : Nat}
    (hi : i < V.slots) : s'.dirSlot s.currentDirectoryCluster i
      = if i = j then zeroEntry else s.dirSlot s.currentDirectoryCluster i := by
  rw [dirSlot_eq (hd.ready h).on h.cwd hi, hd.slot h, dirSlot_eq h.on h.cwd hi]

/-- After a deletion a scan of the first cluster sees what it saw before slot `j`. -/
theorem Deletes.sees_iff {nm : List UInt8} (hd : Deletes V e nm j s s') (h : s.Ready V)
    {skip : DirEntry → Bool} {i : Nat} :
    s'.Sees skip s.currentDirectoryCluster i ↔ s.Sees skip s.currentDirectoryCluster i ∧ i < j := by
  have hj := hd.1.lt
  rw [Fat32.sees_iff (hd.ready h).on h.cwd, Fat32.sees_iff h.on h.cwd]
  constructor
  · rintro ⟨hlt, hend, hkept⟩
    have hij : i < j := by
      by_contra hge
      have := hend j (by omega)
      rw [hd.slot h, if_pos rfl] at this
      cases this
    refine ⟨⟨hlt, fun i' hi' => ?_, ?_⟩, hij⟩
    · have := hend i' hi'
      rwa [hd.slot h, if_neg (by omega)] at this
    · rwa [hd.slot h, if_neg (by omega)] at hkept
  · rintro ⟨⟨hlt, hend, hkept⟩, hij⟩
    refine ⟨hlt, fun i' hi' => ?_, ?_⟩
    · rw [hd.slot h, if_neg (by omega)]
      exact hend i' hi'
    · rw [hd.slot h, if_neg (by omega)]
      exact hkept

/-- After a deletion nothing behind slot `j` is reached, in the first cluster or later. -/
theorem Deletes.reaches {nm : List UInt8} (hd : Deletes V e nm j s s') (h : s.Ready V)
    {f : Scanner} {c i : Nat} (hr : s'.Reaches f c i) :
    c = s.currentDirectoryCluster ∧ i < j := by
  cases f with
  | findFileInDirectory =>
      obtain ⟨rfl, hs⟩ := hr
      rw [hd.cwd] at hs ⊢
      exact ⟨rfl, ((hd.sees_iff h).mp hs).2⟩
  | fat32VfsReaddir =>
      obtain ⟨rfl, hs⟩ := hr
      rw [hd.cwd] at hs ⊢
      exact ⟨rfl, ((hd.sees_iff h).mp hs).2⟩
  | findNextCluster =>
      obtain ⟨hw, hs, -⟩ := hr
      rw [hd.cwd] at hw
      cases hw with
      | here => exact ⟨rfl, ((hd.sees_iff h).mp hs).2⟩
      | next hend _ _ =>
          -- the walk leaves the first cluster only if it has no end marker
          have := hend j (by rw [slotCount_eq (hd.ready h).on]; exact hd.1.lt)
          rw [hd.dirSlot h hd.1.lt, if_pos rfl] at this
          cases this

theorem Deletes.reaches_before {nm : List UInt8} (hd : Deletes V e nm j s s') (h : s.Ready V)
    {f : Scanner} {i : Nat} (hij : i < j) (hr : s.Reaches f s.currentDirectoryCluster i) :
    s'.Reaches f s.currentDirectoryCluster i := by
  have hi : i < V.slots := by
    have := hd.1.lt
    omega
  cases f with
  | findFileInDirectory => exact ⟨hd.cwd.symm, (hd.sees_iff h).mpr ⟨hr.2, hij⟩⟩
  | fat32VfsReaddir => exact ⟨hd.cwd.symm, (hd.sees_iff h).mpr ⟨hr.2, hij⟩⟩
  | findNextCluster =>
      refine ⟨?_, (hd.sees_iff h).mpr ⟨hr.2.1, hij⟩, ?_⟩
      · rw [hd.cwd]
        exact .here _
      · rw [hd.dirSlot h hi, if_neg (by omega)]
        exact hr.2.2

/-- A deletion loses nothing exactly when there is nothing behind the slot. -/
theorem Deletes.keepsOthers_iff {nm : List UInt8} (hd : Deletes V e nm j s s') (h : s.Ready V) :
    KeepsOthers s s' j ↔ NothingBehind s j := by
  constructor
  · intro hk f c i hr
    by_cases hij : (c, i) = (s.currentDirectoryCluster, j)
    · rw [Prod.mk.injEq] at hij
      exact ⟨hij.1, by omega⟩
    · obtain ⟨hc, hi⟩ := hd.reaches h (hk f c i hr hij).1
      exact ⟨hc, by omega⟩
  · intro hn f c i hr hij
    obtain ⟨rfl, hi⟩ := hn f c i hr
    have hij : i < j := by
      rcases Nat.lt_or_eq_of_le hi with hi | rfl
      · exact hi
      · exact absurd rfl hij
    have hlt := hd.1.lt
    refine ⟨hd.reaches_before h hij hr, ?_⟩
    rw [hd.dirSlot h (by omega), if_neg (by omega)]

/-- What a deletion owes the other entries: it leaves the stack alone, and when it returns `true`
they are reached as before. -/
structure DirOp.DeletesAlone (op : DirOp) (V : Volume) (e : Env) (nm : List UInt8) (s : Fs) :
    Prop where
  defined : ¬ op.Overruns nm e s
  keeps : ∀ s' j, (op.call nm).run e s = some (true, s') →
    V.FoundAt s.disk s.currentDirectoryCluster nm j → KeepsOthers s s' j

/-- The entry that is found is not read into too small an array, and if it will be deleted, no entry
that one of the three functions reaches lies behind it. -/
def DirOp.DeletesLast (op : DirOp) (V : Volume) (e : Env) (nm : List UInt8) (s : Fs) : Prop :=
  ∀ j, (e.enter .find).Searches V → V.FoundAt s.disk s.currentDirectoryCluster nm j →
    (op = .deleteDir → V.bs.sectorsPerCluster = 1) ∧
    (V.Has (readStartCluster (V.slot s.disk s.currentDirectoryCluster j)) →
      (op = .deleteDir → V.looksEmpty s.disk
        (readStartCluster (V.slot s.disk s.currentDirectoryCluster j)) = true) →
      NothingBehind s j)

/-- A deletion that returns `true` has searched the directory and deleted what it has found. -/
theorem deletes_of_run_true (he : e.Reliable) (h : s.Ready V) {op : DirOp} {nm : List UInt8}
    (hop : op = .deleteFile ∨ op = .deleteDir) (hr : (op.call nm).run e s = some (true, s')) :
    (e.enter .find).Searches V ∧ ∃ j, Deletes V e nm j s s' ∧
      (op = .deleteDir → V.looksEmpty s.disk
        (readStartCluster (V.slot s.disk s.currentDirectoryCluster j)) = true) := by
  constructor
  · by_contra hs
    have hrefused : (op.call nm).run e s = some (false, s) :=
      run_delete_refused h hop (fun _ hs' => absurd hs' hs) fun _ hs' => absurd hs' hs
    rw [hrefused] at hr
    cases hr
  · rcases hop with rfl | rfl
    · rcases fat32DeleteFile_cases he h hr with ⟨hb, -⟩ | ⟨-, j, hd⟩
      · cases hb
      · exact ⟨j, hd, nofun⟩
    · rcases fat32DeleteDir_cases he h hr with ⟨hb, -⟩ | ⟨-, j, hd, -, hempty⟩
      · cases hb
      · exact ⟨j, hd, fun _ => hempty⟩

/-- **Deleting one entry and the others.** Slot `j` is the one that `find_file_in_directory` finds by
the name. No other entry is lost, and the stack is left alone, exactly when the array of
`is_directory_empty` has room for a cluster and no entry that one of the three functions reaches lies
behind the slot of an entry that is deleted. -/
theorem delete_keepsOthers_iff (he : e.Reliable) (h : s.Ready V) {op : DirOp}
    (hop : op = .deleteFile ∨ op = .deleteDir) (nm : List UInt8) :
    op.DeletesAlone V e nm s ↔ op.DeletesLast V e nm s := by
  constructor
  · rintro ⟨hdefined, hkeeps⟩ j hs hj
    rw [DirOp.overruns_iff h, not_not] at hdefined
    refine ⟨fun hdir => ((he.enter _).storesOne_iff V).mp (hdefined hdir hs j hj),
      fun hhas hempty => ?_⟩
    obtain ⟨s', hrun, hd, -⟩ := exists_deletes he h op hop hdefined hs hj rfl hhas hempty
    exact (hd.keepsOthers_iff h).mp (hkeeps s' j hrun hj)
  · intro hlast
    refine ⟨?_, fun s' j hrun hj => ?_⟩
    · rw [DirOp.overruns_iff h, not_not]
      exact fun hdir hs j hj => ((he.enter _).storesOne_iff V).mpr ((hlast j hs hj).1 hdir)
    · obtain ⟨hs, j', hd, hempty⟩ := deletes_of_run_true he h hop hrun
      obtain rfl := hj.unique hd.1
      exact (hd.keepsOthers_iff h).mpr ((hlast j hs hj).2 hd.2.1 hempty)

end delete

/-! ## Two files -/

/-- The small volume with the files A and B in the first two slots of the root. -/
def twoFilesFs : Fs :=
  smallFs (fun c => if 2 ≤ c ∧ c ≤ 4 then eocMax else 0)
    (fun c j => if c = 2 then
      if j = 0 then quietEnv.newEntry [0x41] 3 0
      else if j = 1 then quietEnv.newEntry [0x42] 4 0
      else zeroEntry
    else zeroEntry) (fun _ => 0)

theorem twoFilesFs_slot {j : Nat} (hj : j < 16) : smallVolume.slot twoFilesFs.disk 2 j
    = if j = 0 then quietEnv.newEntry [0x41] 3 0
      else if j = 1 then quietEnv.newEntry [0x42] 4 0
      else zeroEntry := by
  rw [twoFilesFs, smallFs_disk, smallVolume.slot_image _ _ _ (Nat.le_refl 2) hj, if_pos rfl]

theorem twoFilesFs_ready : twoFilesFs.Ready smallVolume := smallFs_ready _ _ _

theorem twoFilesFs_isEnd {j : Nat} (h2 : 2 ≤ j) (hj : j < 16) :
    (smallVolume.slot twoFilesFs.disk 2 j).isEnd = true := by
  rw [twoFilesFs_slot hj, if_neg (by omega), if_neg (by omega)]
  rfl

/-- What the two entries are. -/
theorem twoFilesFs_entries {j : Nat} (hj : j < 2) :
    (smallVolume.slot twoFilesFs.disk 2 j).isEnd = false ∧
      skipDeletedLfn (smallVolume.slot twoFilesFs.disk 2 j) = false ∧
      compareNames (smallVolume.slot twoFilesFs.disk 2 j).name [0x42] = decide (j = 1) ∧
      (smallVolume.slot twoFilesFs.disk 2 j).isDirectory = false ∧
      readStartCluster (smallVolume.slot twoFilesFs.disk 2 j) = j + 3 := by
  revert j
  decide

theorem twoFilesFs_foundAt : smallVolume.FoundAt twoFilesFs.disk 2 [0x42] 1 where
  lt := by decide
  passed := by
    intro i hi
    rw [Nat.lt_one_iff.mp hi]
    have h0 := twoFilesFs_entries (show 0 < 2 by omega)
    exact ⟨h0.1, fun _ => h0.2.2.1⟩
  taken := by
    have h1 := twoFilesFs_entries (show 1 < 2 by omega)
    exact ⟨h1.1, h1.2.1, h1.2.2.1⟩

theorem twoFilesFs_nothingBehind : NothingBehind twoFilesFs 1 := by
  have hsees : ∀ {skip : DirEntry → Bool} {i : Nat}, twoFilesFs.Sees skip 2 i → i ≤ 1 := by
    intro skip i hs
    by_contra hi
    have hlt := hs.lt
    rw [slotCount_eq twoFilesFs_ready.on] at hlt
    have hend := ((sees_iff twoFilesFs_ready.on twoFilesFs_ready.cwd).mp hs).2.1 2 (by omega)
    rw [show twoFilesFs.currentDirectoryCluster = 2 from rfl,
      twoFilesFs_isEnd (Nat.le_refl 2) (by omega)] at hend
    cases hend
  intro f c i hr
  cases f with
  | findFileInDirectory =>
      obtain ⟨rfl, hs⟩ := hr
      exact ⟨rfl, hsees hs⟩
  | fat32VfsReaddir =>
      obtain ⟨rfl, hs⟩ := hr
      exact ⟨rfl, hsees hs⟩
  | findNextCluster =>
      obtain ⟨hw, hs, -⟩ := hr
      cases hw with
      | here => exact ⟨rfl, hsees hs⟩
      | next hend _ _ =>
          have := hend 2 (by decide)
          rw [dirSlot_eq twoFilesFs_ready.on twoFilesFs_ready.cwd (by decide)] at this
          rw [show twoFilesFs.currentDirectoryCluster = 2 from rfl,
            twoFilesFs_isEnd (Nat.le_refl 2) (by omega)] at this
          cases this

theorem twoFilesFs_foundAtA : smallVolume.FoundAt twoFilesFs.disk 2 [0x41] 0 where
  lt := by decide
  passed := fun i hi => absurd hi (Nat.not_lt_zero i)
  taken := by
    have h0 := twoFilesFs_entries (show 0 < 2 by omega)
    exact ⟨h0.1, h0.2.1, by decide⟩

/-- Both files can be deleted; what is left when A has been. -/
theorem twoFilesFs_deleteA : ∃ s', (fat32DeleteFile [0x41]).run quietEnv twoFilesFs
      = some (true, s') ∧
    smallVolume.fat s'.disk 4 = eocMax ∧ smallVolume.link s'.disk 2 = .stop ∧
      (smallVolume.slot s'.disk 2 0).isEnd = true := by
  obtain ⟨s', hr, hd, hfat⟩ := exists_deletes quietEnv_reliable twoFilesFs_ready
    .deleteFile (Or.inl rfl) nofun quietEnv_searches twoFilesFs_foundAtA
    (twoFilesFs_entries (show 0 < 2 by omega)).2.2.2.2 (by decide) nofun
  -- the file is one cluster
  have hstep : smallVolume.freeStep twoFilesFs.disk 3 = none := by decide
  have hkept : ∀ c, c ≠ 3 → smallVolume.Has c →
      smallVolume.fat s'.disk c = smallVolume.fat twoFilesFs.disk c := by
    intro c hc3 hc
    refine hfat c hc fun hcomes => hc3 (Finset.mem_singleton.mp (hcomes.mem (t := {3}) (by decide) ?_))
    intro x y hx hxy
    rw [Finset.mem_singleton.mp hx, hstep] at hxy
    cases hxy
  have hslot := hd.slot twoFilesFs_ready 0
  rw [if_pos rfl] at hslot
  refine ⟨s', hr, ?_, ?_, ?_⟩
  · rw [hkept 4 (by decide) (by decide)]
    decide
  · rw [Volume.link_congr fun h2 => hkept 2 (by decide) h2]
    decide
  · change (smallVolume.slot s'.disk 2 0) = zeroEntry at hslot
    rw [hslot]
    rfl

theorem twoFilesFs_deleteB : ∃ s',
    (fat32DeleteFile [0x42]).run quietEnv twoFilesFs = some (true, s') := by
  obtain ⟨s', hr, -, -⟩ := exists_deletes quietEnv_reliable twoFilesFs_ready
    .deleteFile (Or.inl rfl) nofun quietEnv_searches twoFilesFs_foundAt
    (twoFilesFs_entries (show 1 < 2 by omega)).2.2.2.2 (by decide) nofun
  exact ⟨s', hr⟩

/-- Deleting B, which is the last entry, keeps A. -/
theorem delete_keepsOthers_last : DirOp.deleteFile.DeletesAlone smallVolume quietEnv [0x42] twoFilesFs ∧
    ∃ s', (fat32DeleteFile [0x42]).run quietEnv twoFilesFs = some (true, s') := by
  refine ⟨(delete_keepsOthers_iff quietEnv_reliable twoFilesFs_ready (Or.inl rfl) [0x42]).mpr ?_,
    twoFilesFs_deleteB⟩
  intro j _ hj
  obtain rfl := twoFilesFs_foundAt.unique hj
  exact ⟨nofun, fun _ _ => twoFilesFs_nothingBehind⟩

/-- Deleting A loses B: `find_file_in_directory` reached slot 1 before and does not after. -/
theorem delete_loses_second :
    ¬ DirOp.deleteFile.DeletesAlone smallVolume quietEnv [0x41] twoFilesFs ∧ ∃ s',
      (fat32DeleteFile [0x41]).run quietEnv twoFilesFs = some (true, s') ∧
        ¬ KeepsOthers twoFilesFs s' 0 := by
  obtain ⟨s', hr, -, -, hend⟩ := twoFilesFs_deleteA
  have hready := (DirOp.outcome quietEnv_reliable twoFilesFs_ready .deleteFile hr).ready
    twoFilesFs_ready
  rw [← dirSlot_eq hready.on (show smallVolume.Has 2 by decide) (by decide)] at hend
  suffices hlost : ¬ KeepsOthers twoFilesFs s' 0 from
    ⟨fun halone => hlost (halone.keeps s' 0 hr twoFilesFs_foundAtA), s', hr, hlost⟩
  intro hk
  have hreach : twoFilesFs.Reaches .findFileInDirectory 2 1 := by
    refine ⟨rfl, (sees_iff twoFilesFs_ready.on twoFilesFs_ready.cwd).mpr ⟨by decide, ?_, ?_⟩⟩
    · intro i hi
      exact (twoFilesFs_entries (by omega)).1
    · exact (twoFilesFs_entries (show 1 < 2 by omega)).2.1
  have hafter := (hk .findFileInDirectory 2 1 hreach (by decide)).1.2.noEnd 0 (by omega)
  rw [hend] at hafter
  cases hafter

end MicroKernel.Fat32
