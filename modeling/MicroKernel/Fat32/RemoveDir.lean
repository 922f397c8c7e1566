import MicroKernel.Fat32.Names
import MicroKernel.Fat32.Reach
import MicroKernel.Fat32.Tree

set_option autoImplicit false

/-! # Which directories are removed

`fat32_delete_dir` asks `is_directory_empty`, which reads the first cluster of the directory into an
array for one sector, and looks at the entries of that sector only; it passes over every entry with a
dot among its first two characters, and nobody asks whether the entry is one of a directory.
`removesOnlyEmpty_iff` says for which entries the call does what its name promises.
-/

namespace MicroKernel.Fat32

open MicroKernel.Lib Bytes

/-! ## What a directory holds -/

/-- One of the entries `.` and `..`. -/
def DirEntry.IsDots (x : DirEntry) : Prop :=
  (∀ i, i < 11 → x.name i = convertTo83Format [0x2E] i) ∨
    ∀ i, i < 11 → x.name i = convertTo83Format [0x2E, 0x2E] i

namespace Volume

variable (V : Volume) (d : Disk)

/-- Slot `j` of cluster `c` belongs to the directory that starts at cluster `a`: the links lead there,
and no end mark is met on the way or at the slot. -/
inductive Shows : Nat → Nat → Nat → Prop where
  | here {a j : Nat} (hj : j < V.slots) (hend : ∀ i, i ≤ j → (V.slot d a i).isEnd = false) :
      Shows a a j
  | next {a a' c j : Nat} (hend : ∀ i, i < V.slots → (V.slot d a i).isEnd = false)
      (hstep : V.freeStep d a = some a') (h : Shows a' c j) : Shows a c j

/-- The directory that starts at cluster `a` holds an entry other than `.` and `..`. -/
def HoldsEntry (a : Nat) : Prop :=
  ∃ c j, V.Shows d a c j ∧ (V.slot d c j).isLive = true ∧ ¬ (V.slot d c j).IsDots

/-- One of the first 16 entries, in front of an end mark, is neither deleted nor a part of a long name
and has no dot among its first two characters. -/
def VisibleEntry (a : Nat) : Prop :=
  ∃ i, i < 16 ∧ (∀ k, k ≤ i → (V.slot d a k).isEnd = false) ∧ (V.slot d a i).isLive = true ∧
    (V.slot d a i).name 0 ≠ 0x2E ∧ (V.slot d a i).name 1 ≠ 0x2E

/-- What is right to remove: an entry of a directory that holds nothing. -/
def Removable (x : DirEntry) : Prop :=
  x.isDirectory = true ∧ ¬ V.HoldsEntry d (readStartCluster x)

variable {V d}

theorem skipDots_eq_false {x : DirEntry} : skipDots x = false ↔
    (x.isDeleted = false ∧ x.isLfn = false) ∧ x.name 0 ≠ 0x2E ∧ x.name 1 ≠ 0x2E := by
  unfold skipDots
  simp [and_assoc]

/-- `is_directory_empty` misses what is not visible. -/
theorem looksEmpty_eq_false_iff {c : Nat} : V.looksEmpty d c = false ↔ V.VisibleEntry d c := by
  have hslots : ∀ i, i < 16 → entryAt (V.clusterBytes d c) i = V.slot d c i := fun _ _ => rfl
  unfold looksEmpty emptyScan VisibleEntry
  constructor
  · intro h
    cases hscan : scanEntries skipDots (fun _ => true) (V.clusterBytes d c) 16 0 with
    | found x =>
        obtain ⟨i, hfirst, -⟩ := firstTaken_of_found hslots hscan
        obtain ⟨hlive, hname⟩ := skipDots_eq_false.mp hfirst.taken.2.1
        exact ⟨i, hfirst.lt, fun k hk => hfirst.noEnd hk,
          DirEntry.isLive_iff.mpr ⟨hfirst.taken.1, hlive⟩, hname⟩
    | ended =>
        rw [hscan] at h
        cases h
    | more =>
        rw [hscan] at h
        cases h
  · rintro ⟨i, hi, hend, hlive, hname⟩
    obtain ⟨h1, h2⟩ := DirEntry.isLive_iff.mp hlive
    have htaken : Taken skipDots (fun _ => true) (V.slot d c i) :=
      ⟨h1, skipDots_eq_false.mpr ⟨h2, hname⟩, rfl⟩
    obtain ⟨j, -, hfirst⟩ := exists_firstTaken hi hend htaken
    rw [hfirst.scan hslots]

end Volume

/-! ## The call -/

/-- What a call of `fat32_delete_dir` has to do: it leaves the stack alone; when it returns `true` it
has removed an entry that was right to remove, and when it returns `false` it has changed nothing. -/
def RemovesOnlyEmpty (V : Volume) (e : Env) (s : Fs) (dirname : List UInt8) : Prop :=
  ∃ b s', (fat32DeleteDir dirname).run e s = some (b, s') ∧ (b = false → s' = s) ∧
    (b = true → ∃ j, Deletes V e dirname j s s' ∧
      V.Removable s.disk (V.slot s.disk s.currentDirectoryCluster j))

section call

variable {V : Volume} {s s' : Fs} {e : Env} {dirname : List UInt8} {j : Nat}

/-- When nothing is found, nothing happens. -/
theorem removesOnlyEmpty_of_not_found (h : s.Ready V) (hno : (e.enter .find).Searches V →
    ∀ j, ¬ V.FoundAt s.disk s.currentDirectoryCluster dirname j) :
    RemovesOnlyEmpty V e s dirname := by
  refine ⟨false, s, ?_, fun _ => rfl, nofun⟩
  have hfits : DirOp.deleteDir.Fits V e dirname s := fun _ hs j hj => absurd hj (hno hs j)
  exact run_delete_refused h (Or.inr rfl) hfits fun j hs hj => absurd hj (hno hs j)

/-- With more than one sector in a cluster the array overflows. -/
theorem not_removesOnlyEmpty_of_sectors (hr : e.Reliable) (he : (e.enter .find).Searches V)
    (h : s.Ready V) (hj : V.FoundAt s.disk s.currentDirectoryCluster dirname j)
    (hspc : V.bs.sectorsPerCluster ≠ 1) : ¬ RemovesOnlyEmpty V e s dirname := by
  rintro ⟨b, s', hrun, -⟩
  have ho : DirOp.deleteDir.Overruns dirname e s := by
    rw [DirOp.overruns_iff h]
    exact fun hfits => hspc (((hr.enter _).storesOne_iff V).mp (hfits rfl he j hj))
  have hnone : (fat32DeleteDir dirname).run e s = none := ho.run_eq_none
  rw [hnone] at hrun
  cases hrun

section found

variable (hr : e.Reliable) (he : (e.enter .find).Searches V) (h : s.Ready V)
  (hj : V.FoundAt s.disk s.currentDirectoryCluster dirname j) (hspc : V.bs.sectorsPerCluster = 1)

include hr he h hj hspc

/-- With one sector in a cluster and nothing visible in it, what is found is removed. -/
theorem run_fat32DeleteDir_true
    (hx : V.Has (readStartCluster (V.slot s.disk s.currentDirectoryCluster j)))
    (hv : ¬ V.VisibleEntry s.disk (readStartCluster (V.slot s.disk s.currentDirectoryCluster j))) :
    ∃ s', (fat32DeleteDir dirname).run e s = some (true, s') ∧ Deletes V e dirname j s s' := by
  rw [← Volume.looksEmpty_eq_false_iff, Bool.not_eq_false] at hv
  obtain ⟨s', hrun, hd, -⟩ := exists_deletes hr h .deleteDir (Or.inr rfl)
    (DirOp.fits_of_one hr hspc _ _ _) he hj rfl hx fun _ => hv
  exact ⟨s', hrun, hd⟩

omit he in
/-- Without a cluster, or with something visible in it, nothing happens. -/
theorem run_fat32DeleteDir_false
    (hno : ¬ V.Has (readStartCluster (V.slot s.disk s.currentDirectoryCluster j)) ∨
      V.VisibleEntry s.disk (readStartCluster (V.slot s.disk s.currentDirectoryCluster j))) :
    (fat32DeleteDir dirname).run e s = some (false, s) := by
  refine run_delete_refused h (Or.inr rfl) (DirOp.fits_of_one hr hspc _ _ _)
    fun j' _ hj' hx hgo => ?_
  obtain rfl := hj.unique hj'
  have hlooks := Volume.looksEmpty_eq_false_iff.mpr (hno.resolve_left (not_not.mpr hx))
  have hempty := hgo rfl
  rw [(hr.enter _).fails, if_neg (by decide), hlooks] at hempty
  cases hempty

/-- The entry that has been found decides. -/
theorem removesOnlyEmpty_found_iff : RemovesOnlyEmpty V e s dirname ↔
    ¬ V.Has (readStartCluster (V.slot s.disk s.currentDirectoryCluster j)) ∨
    V.VisibleEntry s.disk (readStartCluster (V.slot s.disk s.currentDirectoryCluster j)) ∨
    V.Removable s.disk (V.slot s.disk s.currentDirectoryCluster j) := by
  by_cases hno : ¬ V.Has (readStartCluster (V.slot s.disk s.currentDirectoryCluster j)) ∨
      V.VisibleEntry s.disk (readStartCluster (V.slot s.disk s.currentDirectoryCluster j))
  · have hrun := run_fat32DeleteDir_false hr h hj hspc hno
    exact iff_of_true ⟨false, s, hrun, fun _ => rfl, nofun⟩ (or_assoc.mp (Or.inl hno))
  · obtain ⟨hx, hv⟩ := not_or.mp hno
    obtain ⟨s', hrun, hd⟩ := run_fat32DeleteDir_true hr he h hj hspc (not_not.mp hx) hv
    rw [← or_assoc, or_iff_right hno]
    constructor
    · rintro ⟨b, t, hbt, -, hyes⟩
      rw [hrun] at hbt
      cases hbt
      obtain ⟨j', hd', hremovable⟩ := hyes rfl
      rwa [hd'.1.unique hj] at hremovable
    · intro hremovable
      exact ⟨true, s', hrun, nofun, fun _ => ⟨j, hd, hremovable⟩⟩

end found

/-- **Only empty directories are removed**, exactly when every entry that can be found for the name is
in a volume with one sector in a cluster, and either has no cluster, or has a visible entry behind it,
or is right to remove. -/
theorem removesOnlyEmpty_iff (he : e.Reliable) (h : s.Ready V) (dirname : List UInt8) :
    RemovesOnlyEmpty V e s dirname ↔ ∀ j, (e.enter .find).Searches V →
      V.FoundAt s.disk s.currentDirectoryCluster dirname j → V.bs.sectorsPerCluster = 1 ∧
        (¬ V.Has (readStartCluster (V.slot s.disk s.currentDirectoryCluster j)) ∨
          V.VisibleEntry s.disk (readStartCluster (V.slot s.disk s.currentDirectoryCluster j)) ∨
          V.Removable s.disk (V.slot s.disk s.currentDirectoryCluster j)) := by
  constructor
  · intro hremoves j hs hj
    have hspc : V.bs.sectorsPerCluster = 1 :=
      by_contra fun hne => not_removesOnlyEmpty_of_sectors he hs h hj hne hremoves
    exact ⟨hspc, (removesOnlyEmpty_found_iff he hs h hj hspc).mp hremoves⟩
  · intro hall
    by_cases hfound : (e.enter .find).Searches V ∧
        ∃ j, V.FoundAt s.disk s.currentDirectoryCluster dirname j
    · obtain ⟨hs, j, hj⟩ := hfound
      obtain ⟨hspc, hcond⟩ := hall j hs hj
      exact (removesOnlyEmpty_found_iff he hs h hj hspc).mpr hcond
    · exact removesOnlyEmpty_of_not_found h fun hs j hj => hfound ⟨hs, j, hj⟩

end call

/-! ## One entry -/

/-- The small volume with the entry A in the root, `slots` in cluster 3, which A starts with, and the
file B in cluster 4, which cluster 3 is linked to. -/
def oneEntryFs (attributes : UInt8) (slots : Nat → DirEntry) : Fs :=
  smallFs (fun c => if c = 3 then 4 else if c = 2 ∨ c = 4 then eocMax else 0)
    (fun c j => if c = 2 then if j = 0 then quietEnv.newEntry [0x41] 3 attributes else zeroEntry
      else if c = 3 then slots j
      else if c = 4 ∧ j = 0 then quietEnv.newEntry [0x42] 5 0 else zeroEntry) (fun _ => 0)

section oneEntry

variable (attributes : UInt8) (slots : Nat → DirEntry)

theorem oneEntryFs_ready : (oneEntryFs attributes slots).Ready smallVolume := smallFs_ready _ _ _

theorem oneEntryFs_root : smallVolume.slot (oneEntryFs attributes slots).disk 2 0
    = quietEnv.newEntry [0x41] 3 attributes := by
  rw [oneEntryFs, smallFs_disk, smallVolume.slot_image _ _ _ (Nat.le_refl 2) (by decide), if_pos rfl,
    if_pos rfl]

theorem oneEntryFs_slot {j : Nat} (hj : j < 16) :
    smallVolume.slot (oneEntryFs attributes slots).disk 3 j = slots j := by
  rw [oneEntryFs, smallFs_disk, smallVolume.slot_image _ _ _ (by decide) hj, if_neg (by decide),
    if_pos rfl]

theorem oneEntryFs_step : smallVolume.freeStep (oneEntryFs attributes slots).disk 3 = some 4 := by
  have hfat : smallVolume.fat (oneEntryFs attributes slots).disk 3 = 4 := by
    unfold Volume.fat
    rw [oneEntryFs, smallFs_disk, smallVolume.rawFat_image _ _ _ (by decide) (by decide)]
    rfl
  unfold Volume.freeStep
  rw [hfat, if_pos (by decide)]

theorem oneEntryFs_found (h : (attributes &&& 0x0F == 0x0F) = false) :
    smallVolume.FoundAt (oneEntryFs attributes slots).disk 2 [0x41] 0 := by
  have hname : compareNames (quietEnv.newEntry [0x41] 3 attributes).name [0x41] = true :=
    (compareNames_congr (fun k hk => name_newDirectoryEntry _ _ _ [0x41] 3 attributes hk) [0x41]).trans
      (by decide)
  obtain ⟨hend, hdeleted⟩ : DirEntry.isEnd (quietEnv.newEntry [0x41] 3 attributes) = false ∧
      DirEntry.isDeleted (quietEnv.newEntry [0x41] 3 attributes) = false :=
    newDirectoryEntry_live _ _ _ _ _ _
  have hlfn : DirEntry.isLfn (quietEnv.newEntry [0x41] 3 attributes) = false := h
  refine ⟨by decide, fun i hi => absurd hi (Nat.not_lt_zero i), ?_⟩
  rw [oneEntryFs_root]
  exact ⟨hend, by rw [skipDeletedLfn, hdeleted, hlfn]; rfl, hname⟩

theorem oneEntryFs_start : readStartCluster (smallVolume.slot (oneEntryFs attributes slots).disk 2 0) = 3 := by
  rw [oneEntryFs_root]
  exact readStartCluster_newDirectoryEntry _ _ _ _ _ _ (by decide)

/-- With nothing visible in its first cluster A is removed, be it right or not. -/
theorem oneEntryFs_removed (hattr : (attributes &&& 0x0F == 0x0F) = false)
    (hv : ¬ smallVolume.VisibleEntry (oneEntryFs attributes slots).disk 3)
    (hholds : ¬ (DirEntry.isDirectory (quietEnv.newEntry [0x41] 3 attributes) = true ∧
      ¬ smallVolume.HoldsEntry (oneEntryFs attributes slots).disk 3)) :
    ¬ RemovesOnlyEmpty smallVolume quietEnv (oneEntryFs attributes slots) [0x41] ∧
      ∃ s', (fat32DeleteDir [0x41]).run quietEnv (oneEntryFs attributes slots) = some (true, s') := by
  have hready := oneEntryFs_ready attributes slots
  have hj := oneEntryFs_found attributes slots hattr
  have hs : (quietEnv.enter .find).Searches smallVolume :=
    (quietEnv_reliable.enter .find).searches fun _ => rfl
  have hstart := oneEntryFs_start attributes slots
  have hx : smallVolume.Has (readStartCluster
      (smallVolume.slot (oneEntryFs attributes slots).disk 2 0)) := by
    rw [hstart]
    decide
  rw [← hstart] at hv
  obtain ⟨s', hrun, -⟩ := run_fat32DeleteDir_true quietEnv_reliable hs hready hj rfl hx hv
  refine ⟨?_, s', hrun⟩
  rw [removesOnlyEmpty_found_iff quietEnv_reliable hs hready hj rfl]
  rintro (hno | hno | hno)
  · exact hno hx
  · exact hv hno
  · change (smallVolume.slot _ 2 0).isDirectory = true ∧
      ¬ smallVolume.HoldsEntry _ (readStartCluster (smallVolume.slot _ 2 0)) at hno
    rw [hstart, oneEntryFs_root] at hno
    exact hholds hno

end oneEntry

/-- The entries of a new directory. -/
def dotSlots (j : Nat) : DirEntry :=
  if j = 0 then quietEnv.newEntry [0x2E] 3 0x10
  else if j = 1 then quietEnv.newEntry [0x2E, 0x2E] 2 0x10
  else zeroEntry

/-- An entry that has been deleted. -/
def deletedEntry : DirEntry := fun i => if i = 0 then 0xE5 else 0

/-- `removesOnlyEmpty_iff` for a directory with its dot entries only. -/
theorem removesOnlyEmpty_iff_dots :
    RemovesOnlyEmpty smallVolume quietEnv (oneEntryFs 0x10 dotSlots) [0x41] := by
  refine (removesOnlyEmpty_iff quietEnv_reliable (oneEntryFs_ready _ _) [0x41]).mpr fun j _ hj => ?_
  obtain rfl := hj.unique (oneEntryFs_found 0x10 dotSlots (by decide))
  refine ⟨rfl, Or.inr (Or.inr ⟨?_, ?_⟩)⟩
  · change (smallVolume.slot (oneEntryFs 0x10 dotSlots).disk 2 0).isDirectory = true
    rw [oneEntryFs_root]
    decide
  · change ¬ smallVolume.HoldsEntry _ (readStartCluster (smallVolume.slot _ 2 0))
    rw [oneEntryFs_start]
    have hlast : (smallVolume.slot (oneEntryFs 0x10 dotSlots).disk 3 2).isEnd = true := by
      rw [oneEntryFs_slot _ _ (by decide)]
      decide
    rintro ⟨c, j, hshows, -, hdots⟩
    cases hshows with
    | here hj hend =>
        have hlt : j < 2 := by
          by_contra hle
          rw [hend 2 (by omega)] at hlast
          cases hlast
        rw [oneEntryFs_slot _ _ (by omega)] at hdots
        interval_cases j
        · exact hdots (Or.inl (by decide))
        · exact hdots (Or.inr (by decide))
    | next hend =>
        rw [hend 2 (by decide)] at hlast
        cases hlast

/-- Not only empty directories are removed: the file A with zeros in it is, and so is the directory A
with 16 deleted entries in its first cluster and the file B in the second. -/
theorem not_removesOnlyEmpty :
    (¬ RemovesOnlyEmpty smallVolume quietEnv (oneEntryFs 0x20 fun _ => zeroEntry) [0x41] ∧
      ∃ s', (fat32DeleteDir [0x41]).run quietEnv (oneEntryFs 0x20 fun _ => zeroEntry)
        = some (true, s')) ∧
    ¬ RemovesOnlyEmpty smallVolume quietEnv (oneEntryFs 0x10 fun _ => deletedEntry) [0x41] ∧
      ∃ s', (fat32DeleteDir [0x41]).run quietEnv (oneEntryFs 0x10 fun _ => deletedEntry)
        = some (true, s') := by
  constructor
  · apply oneEntryFs_removed
    · decide
    · rintro ⟨i, -, hend, -⟩
      have hzero := hend 0 (Nat.zero_le i)
      rw [oneEntryFs_slot _ _ (by decide)] at hzero
      exact absurd hzero (by decide)
    · rintro ⟨hdirectory, -⟩
      exact absurd hdirectory (by decide)
  · apply oneEntryFs_removed
    · decide
    · rintro ⟨i, hi, -, hlive, -⟩
      rw [oneEntryFs_slot _ _ hi] at hlive
      exact absurd hlive (by decide)
    · rintro ⟨-, hholds⟩
      have hfour : smallVolume.slot (oneEntryFs 0x10 fun _ => deletedEntry).disk 4 0
          = quietEnv.newEntry [0x42] 5 0 := by
        rw [oneEntryFs, smallFs_disk, smallVolume.slot_image _ _ _ (by decide) (by decide)]
        rfl
      refine hholds ⟨4, 0, .next (fun i hi => ?_) (oneEntryFs_step _ _) (.here (by decide) ?_), ?_, ?_⟩
      · rw [oneEntryFs_slot _ _ hi]
        decide
      · intro i hi
        rw [Nat.le_zero.mp hi, hfour]
        decide
      · rw [hfour]
        decide
      · rw [hfour]
        rintro (hdots | hdots)
        · exact absurd (hdots 0 (by decide)) (by decide)
        · exact absurd (hdots 0 (by decide)) (by decide)

end MicroKernel.Fat32
