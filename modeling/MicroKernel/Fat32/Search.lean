import MicroKernel.Fat32.Image
import MicroKernel.Fat32.Chain

set_option autoImplicit false

/-! # What `find_next_cluster` reads

The function looks through a directory sector by sector and follows the FAT from cluster to cluster,
over whatever these hold. `Fs.findIn` is what it makes of one cluster and `Fs.searchFrom` what it
makes of the chain; `run_findNextLoop` says that this is what it returns. `Fs.followFrom` is the
same for a path and `fat32_change_directory`.
-/

namespace MicroKernel.Fat32

open MicroKernel.Lib Bytes

/-! ## Slots and clusters as the driver reads them -/

namespace Fs

variable (s : Fs)

/-- The bytes of cluster `c`, read from where `cluster_to_sector` puts the cluster. -/
def dirBytes (c : Nat) : Bytes := fun x =>
  Sector.bytes (s.disk (u32 (s.clusterToSector c + x / 512) % 2 ^ 28)) (x % 512)

/-- Slot `j` of cluster `c`, read from where `cluster_to_sector` puts the cluster. -/
def dirSlot (c j : Nat) : DirEntry :=
  entryAt (fun x => Sector.bytes
    (s.disk (u32 (s.clusterToSector c + x / 512) % 2 ^ 28)) (x % 512)) j

/-- The slots of a cluster. -/
def slotCount : Nat := 16 * s.bootSector.sectorsPerCluster

/-- The answer of `get_next_cluster_in_chain`. -/
def nextCluster (c : Nat) : Nat :=
  nextOf (load32 (Sector.bytes (s.disk (s.fatSector 0 c % 2 ^ 28))) (s.entOffset c) % 2 ^ 28)

/-- What `find_next_cluster` looks for: a directory with that name. -/
def isDirNamed (dirName : List UInt8) (x : DirEntry) : Bool :=
  x.isDirectory && compareNames x.name dirName

/-- What `find_next_cluster` makes of one cluster. -/
def findIn (dirName : List UInt8) (c : Nat) : Scan :=
  scanEntries skipDeletedLfn (isDirNamed dirName) (s.dirBytes c) s.slotCount 0

/-- What `find_next_cluster` makes of the chain from `c` on, when it is given `k` clusters. -/
def searchFrom (dirName : List UInt8) : Nat → Nat → Option Nat
  | 0, _ => none
  | k + 1, c =>
      match s.findIn dirName c with
      | .found x => some (readStartCluster x)
      | .ended => some invalidCluster
      | .more =>
          if s.nextCluster c < eocMin then searchFrom dirName k (s.nextCluster c)
          else some invalidCluster

end Fs

section slots

variable {V : Volume} {s : Fs}

theorem slotCount_eq (h : s.On V) : s.slotCount = V.slots := by
  unfold Fs.slotCount Volume.slots
  rw [h.boot]

theorem dirSlot_eq (h : s.On V) {c j : Nat} (hc : V.Has c) (hj : j < V.slots) :
    s.dirSlot c j = V.slot s.disk c j := by
  unfold Volume.slots at hj
  funext i
  have hi := i.isLt
  have hx : (32 * j + i.val) / 512 = j / 16 := by omega
  have hlt := V.dataPos_add_lt hc (show j / 16 < V.bs.sectorsPerCluster by omega)
  unfold Fs.dirSlot Volume.slot Volume.clusterBytes entryAt
  dsimp only
  rw [hx, clusterToSector_eq h hc, u32_eq_self (by omega), Nat.mod_eq_of_lt hlt]

/-- An answer of the FAT is the invalid marker or below the end-of-chain range. -/
theorem nextCluster_cases (s : Fs) (c : Nat) :
    s.nextCluster c = invalidCluster ∨ s.nextCluster c < eocMin := by
  unfold Fs.nextCluster nextOf
  split
  · exact Or.inl rfl
  · right
    omega

end slots

/-! ## Scanning in pieces -/

section scan

variable (skip accept : DirEntry → Bool)

/-- A scan goes by the entries, wherever they lie. -/
theorem scanEntries_shift {b b' : Bytes} (n : Nat) {j j' : Nat}
    (h : ∀ i, i < n → entryAt b (j + i) = entryAt b' (j' + i)) :
    scanEntries skip accept b n j = scanEntries skip accept b' n j' := by
  induction n generalizing j j' with
  | zero => rfl
  | succ n ih =>
      have h0 := h 0 (by omega)
      rw [Nat.add_zero, Nat.add_zero] at h0
      have hrest : scanEntries skip accept b n (j + 1) = scanEntries skip accept b' n (j' + 1) := by
        apply ih
        intro i hi
        rw [Nat.add_assoc, Nat.add_comm 1 i, Nat.add_assoc, Nat.add_comm 1 i]
        exact h (i + 1) (by omega)
      unfold scanEntries
      rw [h0, hrest]

/-- A scan of `m + n` entries is one of `m`, and one of the other `n` if that comes to no end. -/
theorem scanEntries_add (b : Bytes) (m n j : Nat) :
    scanEntries skip accept b (m + n) j
      = match scanEntries skip accept b m j with
        | .more => scanEntries skip accept b n (j + m)
        | r => r := by
  induction m generalizing j with
  | zero => rw [Nat.zero_add, scanEntries, Nat.add_zero]
  | succ m ih =>
      have hj : j + (m + 1) = j + 1 + m := by omega
      rw [Nat.add_right_comm, scanEntries, scanEntries, ih, hj]
      by_cases hend : (entryAt b j).isEnd = true
      · rw [if_pos hend, if_pos hend]
      · rw [if_neg hend, if_neg hend]
        by_cases hskip : skip (entryAt b j) = true
        · rw [if_pos hskip, if_pos hskip]
        · rw [if_neg hskip, if_neg hskip]
          by_cases hacc : accept (entryAt b j) = true
          · rw [if_pos hacc, if_pos hacc]
          · rw [if_neg hacc, if_neg hacc]

end scan

/-! ## Running the search -/

section run

variable {V : Volume} {s : Fs} {e : Env}

/-- `get_next_cluster_in_chain` of any number. -/
theorem run_getNextClusterInChain_at (e : Env) (h : s.On V) (c : Nat) :
    (getNextClusterInChain c).run e s
      = some (if e.fails .fat then invalidCluster else s.nextCluster c, s) := by
  have hoff : s.entOffset c + 4 ≤ 512 := by
    unfold Fs.entOffset u32
    rw [h.boot, V.bytesPerSector_eq]
    omega
  unfold getNextClusterInChain
  rw [Prog.run_bind, Prog.run_get, Option.bind_some]
  dsimp only
  rw [Prog.run_bind, run_uninitialised, Option.bind_some, Prog.run_bind, run_readSector,
    Option.bind_some]
  cases e.fails .fat with
  | true => rfl
  | false =>
      simp only [Bool.false_eq_true, if_false, Bool.not_true]
      rw [load32_copy _ _ hoff, Prog.run_ite]
      unfold Fs.nextCluster nextOf
      split <;> split <;> first | rfl | contradiction

theorem run_getNextClusterInChain_any (he : e.Reliable) (h : s.On V) (c : Nat) :
    (getNextClusterInChain c).run e s = some (s.nextCluster c, s) := by
  rw [run_getNextClusterInChain_at e h c, he.fails, if_neg (by decide)]

/-- In the volume it is what the FAT says. -/
theorem nextCluster_eq (h : s.On V) {c : Nat} (hc : V.Has c) :
    s.nextCluster c = nextOf (V.fat s.disk c) := by
  have h1 := run_getNextClusterInChain_any quietEnv_reliable h c
  rw [run_getNext_reliable quietEnv_reliable h hc, Option.some.injEq, Prod.mk.injEq] at h1
  exact h1.1.symm

/-- The entries of a sector of a cluster, in the buffer it has been read into. -/
theorem entryAt_sector (c i : Nat) (b : Bytes) {j : Nat} (hj : j < 16) :
    entryAt (copy b 0 (Sector.bytes (s.disk (u32 (s.clusterToSector c + i) % 2 ^ 28))) 0 512) j
      = s.dirSlot c (16 * i + j) := by
  funext k
  have hk := k.isLt
  unfold Fs.dirSlot entryAt
  rw [copy_inside _ _ _ (by omega) (by omega)]
  dsimp only
  rw [show (32 * (16 * i + j) + k.val) / 512 = i by omega]
  congr 1
  omega

/-- A scan of that buffer is a scan of entries `16 * i` to `16 * i + 15` of the cluster. -/
theorem scanEntries_sector (skip accept : DirEntry → Bool) (c i : Nat) (b : Bytes) :
    scanEntries skip accept
        (copy b 0 (Sector.bytes (s.disk (u32 (s.clusterToSector c + i) % 2 ^ 28))) 0 512) 16 0
      = scanEntries skip accept (s.dirBytes c) 16 (16 * i) := by
  apply scanEntries_shift
  intro j hj
  rw [Nat.zero_add, entryAt_sector c i b hj]
  rfl

/-- The loop over the sectors of a cluster scans its entries. -/
theorem run_scanSectors (he : e.Reliable) (dirName : List UInt8) (c n i : Nat) (b : Bytes) :
    ∃ b', (scanSectors dirName (s.clusterToSector c) n i b).run e s
      = some ((scanEntries skipDeletedLfn (Fs.isDirNamed dirName) (s.dirBytes c) (16 * n) (16 * i),
          b'), s) := by
  induction n generalizing i b with
  | zero => exact ⟨b, rfl⟩
  | succ n ih =>
      rw [scanSectors, Prog.run_bind, run_readSector, he.fails, if_neg (by decide),
        Option.bind_some, Nat.mul_succ, Nat.add_comm (16 * n) 16, scanEntries_add]
      simp only [Bool.not_true, Bool.false_eq_true, if_false]
      change ∃ b', Prog.run (match scanEntries skipDeletedLfn (Fs.isDirNamed dirName) _ 16 0 with
        | .more => _
        | r => _) e s = _
      rw [scanEntries_sector]
      cases scanEntries skipDeletedLfn (Fs.isDirNamed dirName) (s.dirBytes c) 16 (16 * i) with
      | found x => exact ⟨_, rfl⟩
      | ended => exact ⟨_, rfl⟩
      | more => exact ih (i + 1) _

/-- **`find_next_cluster`**, for every content of the disk. -/
theorem run_findNextLoop (he : e.Reliable) (h : s.On V) (dirName : List UInt8) (k i c : Nat)
    (b : Bytes) :
    (findNextLoop dirName k i c b).run e s
      = (s.searchFrom dirName k c).map fun v => (v, s) := by
  induction k generalizing i c b with
  | zero => rfl
  | succ k ih =>
      obtain ⟨b', hscan⟩ := run_scanSectors (s := s) (he.enter (.cluster i)) dirName c
        s.bootSector.sectorsPerCluster 0 b
      rw [findNextLoop, Prog.run_bind, Prog.run_get, Option.bind_some]
      dsimp only
      rw [Prog.run_bind, run_within, hscan, Option.bind_some, Fs.searchFrom]
      dsimp only
      change Prog.run (match s.findIn dirName c with
        | .found x => _
        | .ended => _
        | .more => _) e s = _
      cases s.findIn dirName c with
      | found x => rfl
      | ended => rfl
      | more =>
          simp only [Prog.run_bind, run_within,
            run_getNextClusterInChain_any ((he.enter (.cluster i)).enter .next) h,
            Option.bind_some, Prog.run_ite]
          split
          · exact ih (i + 1) (s.nextCluster c) b'
          · rfl

theorem run_findNextCluster (he : e.Reliable) (h : s.On V) (dirName : List UInt8) (c : Nat) :
    (findNextCluster dirName c).run e s
      = (s.searchFrom dirName steps c).map fun v => (v, s) := by
  unfold findNextCluster
  rw [Prog.run_bind, run_uninitialised, Option.bind_some]
  exact run_findNextLoop he h dirName steps 0 c _

end run

theorem steps_eq_succ : ∃ k, steps = k + 1 :=
  Nat.exists_eq_succ_of_ne_zero (by norm_num [steps])

/-! ## Following a path -/

/-- Where a path starts. -/
def Fs.pathStart (s : Fs) (path : List UInt8) : Nat :=
  if ((path.takeWhile (· ≠ 0)).take 255).head? = some 0x2F then s.bootSector.rootCluster
  else s.currentDirectoryCluster

/-- The components of a path. -/
def pathTokens (path : List UInt8) : List (List UInt8) :=
  tokens ((path.takeWhile (· ≠ 0)).take 255)

/-- What `fat32_change_directory` makes of the components of a path, from directory `target` on. -/
def Fs.followFrom (s : Fs) : List (List UInt8) → Nat → Option (Option Nat)
  | [], target => some (some target)
  | token :: rest, target => do
      let target ← s.searchFrom token steps target
      if target = invalidCluster then return none
      s.followFrom rest target

section path

variable {V : Volume} {s : Fs} {e : Env}

theorem run_followPath (he : e.Reliable) (h : s.On V) (path : List (List UInt8)) (i target : Nat) :
    (followPath path i target).run e s = (s.followFrom path target).map fun r => (r, s) := by
  induction path generalizing i target with
  | nil => rfl
  | cons token rest ih =>
      rw [followPath, Prog.run_bind, run_within, run_findNextCluster (he.enter _) h, Fs.followFrom]
      cases s.searchFrom token steps target with
      | none => rfl
      | some v =>
          rw [Option.map_some, Option.bind_some, Prog.run_ite]
          change _ = Option.map _ (if v = invalidCluster then _ else _)
          split
          · rfl
          · exact ih (i + 1) v

/-- **`fat32_change_directory`**, for every content of the disk. -/
theorem run_fat32ChangeDirectory (he : e.Reliable) (h : s.On V) (path : List UInt8) :
    (fat32ChangeDirectory path).run e s
      = (s.followFrom (pathTokens path) (s.pathStart path)).map fun r =>
          match r with
          | none => (false, s)
          | some target => (true, { s with currentDirectoryCluster := target }) := by
  unfold fat32ChangeDirectory
  rw [Prog.run_bind, Prog.run_get, Option.bind_some]
  change Prog.run (followPath (pathTokens path) 0 (s.pathStart path) >>= _) e s = _
  rw [Prog.run_bind, run_followPath he h]
  cases s.followFrom (pathTokens path) (s.pathStart path) with
  | none => rfl
  | some r =>
      cases r with
      | none => rfl
      | some target => rfl

/-! ### On a disk that may fail

A read that fails ends the search: a directory that is found then is found on a reliable disk too. -/

theorem scanSectors_cases {dirName : List UInt8} {c n i : Nat} {b b' : Bytes} {r : Scan} {s' : Fs}
    (hr : (scanSectors dirName (s.clusterToSector c) n i b).run e s = some ((r, b'), s')) :
    s' = s ∧ (r = .ended ∨
      r = scanEntries skipDeletedLfn (Fs.isDirNamed dirName) (s.dirBytes c) (16 * n) (16 * i)) := by
  induction n generalizing i b with
  | zero =>
      obtain ⟨h1, h2⟩ := Prod.mk.inj (Option.some.inj hr)
      exact ⟨h2.symm, Or.inr (Prod.mk.inj h1).1.symm⟩
  | succ n ih =>
      rw [scanSectors, Prog.run_bind, run_readSector, Option.bind_some] at hr
      cases hfail : e.fails (.load i) with
      | true =>
          rw [hfail] at hr
          obtain ⟨h1, h2⟩ := Prod.mk.inj (Option.some.inj hr)
          exact ⟨h2.symm, Or.inl (Prod.mk.inj h1).1.symm⟩
      | false =>
          rw [hfail] at hr
          simp only [Bool.false_eq_true, if_false, Bool.not_true] at hr
          change Prog.run (match scanEntries skipDeletedLfn (Fs.isDirNamed dirName) _ 16 0 with
            | .more => _
            | r => _) e s = _ at hr
          rw [scanEntries_sector] at hr
          rw [Nat.mul_succ, Nat.add_comm (16 * n) 16, scanEntries_add]
          revert hr
          cases scanEntries skipDeletedLfn (Fs.isDirNamed dirName) (s.dirBytes c) 16 (16 * i) with
          | found x =>
              intro hr
              obtain ⟨h1, h2⟩ := Prod.mk.inj (Option.some.inj hr)
              exact ⟨h2.symm, Or.inr (Prod.mk.inj h1).1.symm⟩
          | ended =>
              intro hr
              obtain ⟨h1, h2⟩ := Prod.mk.inj (Option.some.inj hr)
              exact ⟨h2.symm, Or.inr (Prod.mk.inj h1).1.symm⟩
          | more => exact fun hr => ih hr

theorem findNextLoop_cases (h : s.On V) {dirName : List UInt8} {k i c v : Nat} {b : Bytes} {s' : Fs}
    (hr : (findNextLoop dirName k i c b).run e s = some (v, s')) :
    s' = s ∧ (v = invalidCluster ∨ s.searchFrom dirName k c = some v) := by
  induction k generalizing i c b with
  | zero => cases hr
  | succ k ih =>
      rw [findNextLoop, Prog.run_bind, Prog.run_get, Option.bind_some] at hr
      obtain ⟨⟨r, b'⟩, s₁, hscan, hgo⟩ := (Prog.run_bind_eq_some _ _).mp hr
      obtain ⟨rfl, hcases⟩ := scanSectors_cases hscan
      rw [Fs.searchFrom]
      change _ ∧ (_ ∨ (match scanEntries skipDeletedLfn (Fs.isDirNamed dirName) (s₁.dirBytes c)
          (16 * s₁.bootSector.sectorsPerCluster) 0 with
        | .found x => _
        | .ended => _
        | .more => _) = _)
      cases r with
      | ended =>
          obtain ⟨h1, h2⟩ := Prod.mk.inj (Option.some.inj hgo)
          exact ⟨h2.symm, Or.inl h1.symm⟩
      | found x =>
          obtain ⟨h1, h2⟩ := Prod.mk.inj (Option.some.inj hgo)
          rw [← hcases.resolve_left (by simp)]
          exact ⟨h2.symm, Or.inr (congrArg some h1)⟩
      | more =>
          rw [← hcases.resolve_left (by simp)]
          dsimp only at hgo ⊢
          rw [Prog.run_bind, run_within, run_within, run_getNextClusterInChain_at _ h,
            Option.bind_some, Prog.run_ite] at hgo
          cases hfail : ((e.enter (.cluster i)).enter .next).fails .fat with
          | true =>
              rw [hfail, if_pos rfl] at hgo
              dsimp only at hgo
              rw [if_neg (by decide)] at hgo
              obtain ⟨h1, h2⟩ := Prod.mk.inj (Option.some.inj hgo)
              exact ⟨h2.symm, Or.inl h1.symm⟩
          | false =>
              simp only [hfail, Bool.false_eq_true, if_false] at hgo
              split at hgo
              next hlt =>
                rw [if_pos hlt]
                exact ih hgo
              next hlt =>
                obtain ⟨h1, h2⟩ := Prod.mk.inj (Option.some.inj hgo)
                exact ⟨h2.symm, Or.inl h1.symm⟩

theorem followPath_some (h : s.On V) {path : List (List UInt8)} {i target t : Nat} {s' : Fs}
    (hr : (followPath path i target).run e s = some (some t, s')) :
    s' = s ∧ s.followFrom path target = some (some t) := by
  induction path generalizing i target with
  | nil =>
      obtain ⟨h1, h2⟩ := Prod.mk.inj (Option.some.inj hr)
      exact ⟨h2.symm, congrArg some h1⟩
  | cons token rest ih =>
      rw [followPath] at hr
      obtain ⟨v, s₁, hfind, hgo⟩ := (Prog.run_bind_eq_some _ _).mp hr
      rw [run_within, findNextCluster, Prog.run_bind, run_uninitialised, Option.bind_some] at hfind
      obtain ⟨rfl, hv⟩ := findNextLoop_cases h hfind
      rw [Prog.run_ite] at hgo
      split at hgo
      next => cases hgo
      next hne =>
        obtain ⟨hs, hrest⟩ := ih hgo
        refine ⟨hs, ?_⟩
        rw [Fs.followFrom, hv.resolve_left hne]
        change (if v = invalidCluster then _ else _) = _
        rw [if_neg hne]
        exact hrest

/-- A directory that `fat32_change_directory` has changed to is the one that its path leads to. -/
theorem changeDirectory_target (h : s.On V) {path : List UInt8} {s' : Fs}
    (hr : (fat32ChangeDirectory path).run e s = some (true, s')) :
    s.followFrom (pathTokens path) (s.pathStart path) = some (some s'.currentDirectoryCluster) := by
  unfold fat32ChangeDirectory at hr
  rw [Prog.run_bind, Prog.run_get, Option.bind_some] at hr
  change Prog.run (followPath (pathTokens path) 0 (s.pathStart path) >>= _) e s = _ at hr
  obtain ⟨r, s₁, hfollow, hgo⟩ := (Prog.run_bind_eq_some _ _).mp hr
  cases r with
  | none => cases hgo
  | some t =>
      obtain ⟨rfl, ht⟩ := followPath_some h hfollow
      obtain ⟨-, h2⟩ := Prod.mk.inj (Option.some.inj hgo)
      rw [ht, ← h2]

/-! ### On a reliable disk -/

/-- `fat32_change_directory` changes the current directory and nothing else. -/
theorem changeDirectory_state (he : e.Reliable) (h : s.On V) {s' : Fs} {path : List UInt8} {b : Bool}
    (hrun : (fat32ChangeDirectory path).run e s = some (b, s')) :
    ∃ target, s' = { s with currentDirectoryCluster := target } := by
  rw [run_fat32ChangeDirectory he h, Option.map_eq_some_iff] at hrun
  obtain ⟨a, -, heq⟩ := hrun
  cases a with
  | none => exact ⟨s.currentDirectoryCluster, (Prod.mk.inj heq).2.symm⟩
  | some target => exact ⟨target, (Prod.mk.inj heq).2.symm⟩

end path

end MicroKernel.Fat32
