import MicroKernel.Fat32.InsertFaults

set_option autoImplicit false

/-! # Creating while calls fail

`fat32_create_file` and `fat32_create_dir` mark a cluster, put an entry into the current
directory, and take the mark back when that fails. The mark and its way back may themselves stop
after some copies of the FAT. `create_atomic_iff` says for which failing calls the operation is
all or nothing, whatever the stack holds.
-/

namespace MicroKernel.Fat32

open MicroKernel.Lib Bytes

/-! ## The two operations -/

/-- The calls that fail during a creation do no harm: if a free cluster is found, then the mark
fails before it has changed anything, or succeeds, and after that the entry is inserted cleanly.
When `fat32_create_dir` cannot write the first cluster of the new directory, the mark is taken
back. -/
def DirOp.CreatesHarmlessly (op : DirOp) (V : Volume) (e : Env) (s : Fs) (l : List Nat) : Prop :=
  s.Offers V e → (e.enter .mark).Aborts ∨ V.Marks (e.enter .mark) ∧
    ((op = .createDir → allWritten (e.enter .init) V.bs.sectorsPerCluster 0 = true) →
      V.InsertsCleanly (e.enter .insert) s.disk s.currentDirectoryCluster l
        (V.Undoes (e.enter .rollback))) ∧
    (op = .createDir → allWritten (e.enter .init) V.bs.sectorsPerCluster 0 = false →
      V.Undoes (e.enter .rollback))

section create

variable {V : Volume} {s : Fs} {e : Env} {op : DirOp} {nm : List UInt8} {r : Nat} {l : List Nat}

/-- A creation that stops before the first change. -/
theorem CreateAtomic.refused {s' : Fs} (hd : s'.disk = s.disk) : CreateAtomic V s nm l false s' := by
  refine ⟨fun hb => ?_, fun _ => ⟨fun k _ y _ => by rw [hd], fun c _ j _ => by rw [hd]⟩⟩
  cases hb

/-- The state after the mark, and after writes to the cluster that was marked. -/
theorem allocated_taking (h : s.Ready V) (hl : V.Chain s.disk s.currentDirectoryCluster l)
    (hm : V.Mirrored s.disk) (hr : V.Has r) (h0 : V.fat s.disk r = 0) (b : Bytes) {w : Nat}
    (hw : w ≤ V.bs.sectorsPerCluster) :
    Allocated V s r l ((s.taking V r).withDisk (V.putCluster (s.taking V r).disk r b w)) where
  ready := (h.taking r).withDisk _
  rawFat := by
    intro k hk y hy
    rw [Fs.withDisk_disk, V.rawFat_putCluster _ _ hk hy, Fs.taking_disk,
      V.rawFat_setFat _ hr.2 hy, ← hm.rawFat hk hr.2, ← hm.rawFat hk hy]
    by_cases hyr : y = r
    · subst hyr
      rw [if_pos ⟨hk, rfl⟩]
    · rw [if_neg hyr, ite_self]
  slot := by
    intro c hc q hq
    have hcr : c ≠ r := by
      rintro rfl
      exact hl.fat_ne_zero hc h0
    rw [Fs.withDisk_disk, V.slot_putCluster_ne _ _ hr.1 (hl.has hc).1 hcr hw hq, Fs.taking_disk,
      V.slot_setFat _ hr.2 (Nat.le_refl _)]

theorem run_create_none (hop : op = .createFile ∨ op = .createDir)
    (hf : findFreeCluster.run e s = some (invalidCluster, s)) :
    (op.call nm).run e s = some (false, s) := by
  rcases hop with rfl | rfl
  · show (fat32CreateFile nm).run e s = _
    simp [fat32CreateFile, hf]
  · show (fat32CreateDir nm).run e s = _
    simp [fat32CreateDir, hf]

/-- The mark fails. -/
theorem run_create_unmarked (hop : op = .createFile ∨ op = .createDir) (hr : V.Has r)
    (hf : findFreeCluster.run e s = some (r, s.withHint (r + 1))) {s₁ : Fs}
    (hmark : (markClusterInFat r eocMax).run (e.enter .mark) (s.withHint (r + 1))
      = some (false, s₁)) : (op.call nm).run e s = some (false, s₁) := by
  rcases hop with rfl | rfl
  · show (fat32CreateFile nm).run e s = _
    simp [fat32CreateFile, hf, hr.ne_invalidCluster, hmark]
  · show (fat32CreateDir nm).run e s = _
    simp [fat32CreateDir, hf, hr.ne_invalidCluster, hmark]

/-- The mark succeeds, and for a directory the first cluster is written. -/
theorem run_create_marked (h : s.Ready V) (hl : V.Chain s.disk s.currentDirectoryCluster l)
    (hm : V.Mirrored s.disk) (hop : op = .createFile ∨ op = .createDir) (hr : V.Has r)
    (h0 : V.fat s.disk r = 0) (hf : findFreeCluster.run e s = some (r, s.withHint (r + 1)))
    (hmark : V.Marks (e.enter .mark))
    (hinit : op = .createDir → allWritten (e.enter .init) V.bs.sectorsPerCluster 0 = true) :
    ∃ t attributes, Allocated V s r l t ∧ (attributes &&& 0x0F == 0x0F) = false ∧
      (op.call nm).run e s
        = (insertOrUndo s.currentDirectoryCluster nm r attributes).run e t := by
  have hrun := run_markClusterInFat_of_marks hmark (h.withHint (r + 1)).on hr eocMax
  rcases hop with rfl | rfl
  · have ht := allocated_taking h hl hm hr h0 (fun _ => 0) (Nat.zero_le _)
    rw [putCluster_zero, Fs.withDisk_self] at ht
    refine ⟨s.taking V r, 0, ht, by decide, ?_⟩
    show (fat32CreateFile nm).run e s = _
    unfold fat32CreateFile
    rw [Prog.run_bind, hf, Option.bind_some]
    dsimp only
    rw [if_neg hr.ne_invalidCluster, Prog.run_bind, run_within, hrun, Option.bind_some]
    simp only [Bool.not_true, Bool.false_eq_true, if_false]
    rw [Prog.run_bind, Prog.run_get, Option.bind_some]
    dsimp only
    rw [Fs.marked_cwd, Fs.withHint_cwd]
    rfl
  · have ht := allocated_taking h hl hm hr h0 ((e.enter .init).dots r s.currentDirectoryCluster)
      (Nat.le_refl _)
    refine ⟨_, 0x10, ht, by decide, ?_⟩
    show (fat32CreateDir nm).run e s = _
    unfold fat32CreateDir
    rw [Prog.run_bind, hf, Option.bind_some]
    dsimp only
    rw [if_neg hr.ne_invalidCluster, Prog.run_bind, run_within, hrun, Option.bind_some]
    simp only [Bool.not_true, Bool.false_eq_true, if_false]
    rw [Prog.run_bind, Prog.run_get, Option.bind_some]
    dsimp only
    rw [Fs.marked_cwd, Fs.withHint_cwd, Prog.run_bind]
    change Option.bind (some ((e.enter .init).dots r s.currentDirectoryCluster,
      s.taking V r)) _ = _
    rw [Option.bind_some]
    dsimp only
    rw [Prog.run_bind, run_within, run_writeCluster _ (h.taking r).on hr, Option.bind_some,
      hinit rfl, written_of_allWritten (hinit rfl)]
    simp only [Bool.not_true, Bool.false_eq_true, if_false]
    rfl

/-- The first cluster of a new directory cannot be written. -/
theorem run_createDir_unwritten (h : s.Ready V)
    (hl : V.Chain s.disk s.currentDirectoryCluster l) (hm : V.Mirrored s.disk) (hr : V.Has r)
    (h0 : V.fat s.disk r = 0) (hf : findFreeCluster.run e s = some (r, s.withHint (r + 1)))
    (hmark : V.Marks (e.enter .mark))
    (hinit : allWritten (e.enter .init) V.bs.sectorsPerCluster 0 = false) (nm : List UInt8) :
    ∃ s', (fat32CreateDir nm).run e s = some (false, s') ∧
      (V.Undoes (e.enter .rollback) ↔ ∀ k, k < V.bs.numberOfFats → ∀ y, y < V.total →
        V.rawFat s'.disk k y = V.rawFat s.disk k y) ∧
      ∀ c, c ∈ l → ∀ q, q < V.slots → V.slot s'.disk c q = V.slot s.disk c q := by
  have hrun := run_markClusterInFat_of_marks hmark (h.withHint (r + 1)).on hr eocMax
  have ht := allocated_taking h hl hm hr h0 ((e.enter .init).dots r s.currentDirectoryCluster)
    (written_le (e.enter .init) V.bs.sectorsPerCluster 0)
  obtain ⟨b, s', hback, hundo, hslots⟩ := run_rollback (e := e.enter .rollback) ht hm hr h0
  refine ⟨s', ?_, hundo, hslots⟩
  unfold fat32CreateDir
  rw [Prog.run_bind, hf, Option.bind_some]
  dsimp only
  rw [if_neg hr.ne_invalidCluster, Prog.run_bind, run_within, hrun, Option.bind_some]
  simp only [Bool.not_true, Bool.false_eq_true, if_false]
  rw [Prog.run_bind, Prog.run_get, Option.bind_some]
  dsimp only
  rw [Fs.marked_cwd, Fs.withHint_cwd, Prog.run_bind]
  change Option.bind (some ((e.enter .init).dots r s.currentDirectoryCluster,
    s.taking V r)) _ = _
  rw [Option.bind_some]
  dsimp only
  rw [Prog.run_bind, run_within, run_writeCluster _ (h.taking r).on hr, Option.bind_some, hinit]
  simp only [Bool.not_false, if_true, Prog.run_bind, run_within, hback, Option.bind_some,
    Prog.run_pure]

theorem create_atomic (h : s.Ready V) (hs : V.Sound s.disk s.currentDirectoryCluster l)
    (hm : V.Mirrored s.disk) (hop : op = .createFile ∨ op = .createDir)
    (hok : op.CreatesHarmlessly V e s l) :
    ∃ b s', (op.call nm).run e s = some (b, s') ∧ CreateAtomic V s nm l b s' := by
  rcases run_findFreeCluster e h.on with ⟨-, hf⟩ | ⟨hoffers, r, hr, h0, hf⟩
  · exact ⟨false, s, run_create_none hop hf, .refused rfl⟩
  rcases hok hoffers with hab | ⟨hmark, hinsert, hback⟩
  · refine ⟨false, s.withHint (r + 1), run_create_unmarked hop hr hf ?_, .refused ?_⟩
    · exact run_markClusterInFat_of_aborts hab (h.withHint (r + 1)).on hr eocMax
    · exact s.withHint_disk (r + 1)
  by_cases hinit : op = .createDir → allWritten (e.enter .init) V.bs.sectorsPerCluster 0 = true
  · obtain ⟨t, attributes, ht, ha, hrun⟩ :=
      run_create_marked h hs.chain hm hop hr h0 hf hmark hinit
    obtain ⟨b, s', hrun', hends⟩ := run_insertOrUndo e hs.chain hm hr h0 ht nm attributes
    refine ⟨b, s', hrun.trans hrun', atomic_of_endsCleanly ha hr h0 (fun p => insertion_mem) hends ?_⟩
    exact (hinsert hinit).endsCleanly hs.chain _
  · push Not at hinit
    obtain ⟨rfl, hinit⟩ := hinit
    rw [ne_eq, Bool.not_eq_true] at hinit
    obtain ⟨s', hrun, hundo, hslots⟩ :=
      run_createDir_unwritten h hs.chain hm hr h0 hf hmark hinit nm
    refine ⟨false, s', hrun, fun hb => ?_, fun _ => ⟨hundo.mp (hback rfl hinit), hslots⟩⟩
    cases hb

theorem create_not_atomic (h : s.Ready V) (hs : V.Sound s.disk s.currentDirectoryCluster l)
    (hm : V.Mirrored s.disk) (hop : op = .createFile ∨ op = .createDir)
    (hbad : ¬ op.CreatesHarmlessly V e s l) (nm : List UInt8) :
    ∃ junk, ∀ b s', (op.call nm).run (e.withJunk junk) s = some (b, s') →
      ¬ CreateAtomic V s nm l b s' := by
  unfold DirOp.CreatesHarmlessly at hbad
  rw [Classical.not_imp, not_or] at hbad
  obtain ⟨hoffers, hab, hbad⟩ := hbad
  -- the stack matters only while the entry is inserted
  obtain ⟨b₀, hb₀⟩ : ∃ b₀, V.InsertsCleanly (e.enter .insert) s.disk s.currentDirectoryCluster l
      (V.Undoes (e.enter .rollback)) ∨ NotAtomicWith V e s l b₀ := by
    by_cases hclean : V.InsertsCleanly (e.enter .insert) s.disk s.currentDirectoryCluster l
        (V.Undoes (e.enter .rollback))
    · exact ⟨fun _ => 0, Or.inl hclean⟩
    · obtain ⟨b₀, hb₀⟩ := exists_notAtomic hs hm hclean
      exact ⟨b₀, Or.inr hb₀⟩
  refine ⟨insertJunk b₀, fun b s' hrun hatomic => ?_⟩
  rcases run_findFreeCluster (e.withJunk (insertJunk b₀)) h.on with ⟨hno, -⟩ | ⟨-, r, hr, h0, hf⟩
  · exact hno hoffers
  by_cases hmark : V.Marks (e.enter .mark)
  · by_cases hinit : op = .createDir → allWritten (e.enter .init) V.bs.sectorsPerCluster 0 = true
    · have hundo : op = .createDir → allWritten (e.enter .init) V.bs.sectorsPerCluster 0 = false →
          V.Undoes (e.enter .rollback) := by
        intro hdir hfalse
        rw [hinit hdir] at hfalse
        cases hfalse
      have hno : NotAtomicWith V e s l b₀ :=
        hb₀.resolve_left fun hclean => hbad ⟨hmark, fun _ => hclean, hundo⟩
      obtain ⟨t, attributes, ht, -, hrun'⟩ := run_create_marked h hs.chain hm hop hr h0 hf
        (by simpa using hmark) (by simpa using hinit)
      rw [hrun'] at hrun
      exact hno r t hr h0 ht nm attributes b s' hrun hatomic
    · -- the new directory is not written, and its mark is not taken back
      push Not at hinit
      obtain ⟨rfl, hinit⟩ := hinit
      rw [ne_eq, Bool.not_eq_true] at hinit
      have hno : ¬ V.Undoes (e.enter .rollback) := by
        intro hundo
        refine hbad ⟨hmark, fun htrue => ?_, fun _ _ => hundo⟩
        rw [htrue rfl] at hinit
        cases hinit
      obtain ⟨s'', hrun', hundo, -⟩ := run_createDir_unwritten h hs.chain hm hr h0 hf
        (by simpa using hmark) (by simpa using hinit) nm
      rw [show (DirOp.createDir.call nm).run (e.withJunk (insertJunk b₀)) s = _ from hrun',
        Option.some.injEq, Prod.mk.injEq] at hrun
      obtain ⟨rfl, rfl⟩ := hrun
      exact hno (by simpa [Volume.Undoes] using hundo.mpr (hatomic.undone rfl).1)
  · -- some copies have been marked
    obtain ⟨m, hpos, hle, hpart⟩ := run_markClusterInFat_partial
      (e := (e.withJunk (insertJunk b₀)).enter .mark) (by simpa using hab) (by simpa using hmark)
      (h.withHint (r + 1)).on hr eocMax
    rw [run_create_unmarked hop hr hf hpart, Option.some.injEq, Prod.mk.injEq] at hrun
    obtain ⟨rfl, rfl⟩ := hrun
    have hsame := (hatomic.undone rfl).1 0 V.numberOfFats_pos r hr.2
    rw [Fs.withDisk_disk, Fs.withHint_disk, V.rawFat_setFat _ hr.2 hr.2, if_pos ⟨hpos, rfl⟩,
      if_pos rfl] at hsame
    have hmod := withLow28_mod (V.rawFat s.disk 0 r) eocMax
    rw [hsame] at hmod
    rw [show V.rawFat s.disk 0 r % 2 ^ 28 = 0 from h0] at hmod
    exact absurd hmod (by decide)

/-- **Creating while calls fail.** Whatever the stack holds, the call returns and is all or
nothing: this holds exactly for the patterns of failing calls that do no harm. -/
theorem create_atomic_iff (h : s.Ready V) (hs : V.Sound s.disk s.currentDirectoryCluster l)
    (hm : V.Mirrored s.disk) (hop : op = .createFile ∨ op = .createDir) :
    (∀ junk, ∃ b s', (op.call nm).run (e.withJunk junk) s = some (b, s') ∧
      CreateAtomic V s nm l b s') ↔ op.CreatesHarmlessly V e s l := by
  constructor
  · intro hatomic
    by_contra hbad
    obtain ⟨junk, hno⟩ := create_not_atomic h hs hm hop hbad nm
    obtain ⟨b, s', hrun, hyes⟩ := hatomic junk
    exact hno b s' hrun hyes
  · intro hok junk
    refine create_atomic h hs hm hop fun hoffers => ?_
    have hclean : V.InsertsCleanly (e.enter .insert) s.disk s.currentDirectoryCluster l
        (V.Undoes (e.enter .rollback)) →
        V.InsertsCleanly ((e.withJunk junk).enter .insert) s.disk s.currentDirectoryCluster l
          (V.Undoes ((e.withJunk junk).enter .rollback)) := by
      rintro ⟨hends, hread⟩
      refine ⟨?_, by simpa using hread⟩
      simp only [withJunk_enter, insertion_withJunk]
      generalize V.insertion (e.enter .insert) s.disk 0 l _ = o at hends
      cases o with
      | none => simpa [Volume.EndsCleanly, Volume.Undoes] using hends
      | some p =>
          exact ⟨by simpa using hends.stored, hends.free, by simpa using hends.same⟩
    rcases hok hoffers with hab | ⟨hmark, hinsert, hback⟩
    · exact Or.inl hab
    · refine Or.inr ⟨by simpa using hmark, fun hinit => hclean (hinsert (by simpa using hinit)), ?_⟩
      simpa [Volume.Undoes] using hback

/-- When the directory is read and written without a failure, the walk ends cleanly. -/
theorem insertion_clean (hread : ∀ i t, (e.enter (.cluster i)).fails (.load t) = false)
    (hwritten : ∀ i, V.stored e i = V.bs.sectorsPerCluster) {d : Disk} {i : Nat} {b : Bytes}
    {p : Insertion} (hp : V.insertion e d i l b = some p) : p.Clean V e d := by
  induction l generalizing i b with
  | nil => cases hp
  | cons c l ih =>
      have hentry : ∀ q, q < V.slots → entryAt (V.buffer e d i c b) q = V.slot d c q := by
        intro q hq
        rw [entryAt_buffer _ _ _ _ _ hq, hread, if_neg (by decide)]
      rw [Volume.insertion] at hp
      split at hp
      next j hj =>
        cases hp
        obtain ⟨hlt, hfree, -⟩ := freeSlot_eq_some_iff.mp hj
        refine ⟨?_, by rw [← hentry j hlt]; exact hfree, fun q hq _ _ => hentry q hq⟩
        dsimp only
        rw [hwritten]
        unfold Volume.slots at hlt
        omega
      next =>
        split at hp
        · cases hp
        · exact ih hp

/-- A creation in which no read or write of a directory fails, and no write of the FAT, can be undone
or done. -/
theorem createsHarmlessly_of_insert (op : DirOp) (s : Fs) (l : List Nat)
    (hmark : V.Marks (e.enter .mark)) (hundo : V.Undoes (e.enter .rollback))
    (hread : ∀ i t, ((e.enter .insert).enter (.cluster i)).fails (.load t) = false)
    (hwritten : ∀ i, V.stored (e.enter .insert) i = V.bs.sectorsPerCluster) :
    op.CreatesHarmlessly V e s l := by
  refine fun _ => Or.inr ⟨hmark, fun _ => ⟨?_, ?_⟩, fun _ _ => hundo⟩
  · cases hp : V.insertion (e.enter .insert) s.disk 0 l
        (V.clusterBytes s.disk s.currentDirectoryCluster) with
    | none => exact hundo
    | some p => exact insertion_clean hread hwritten hp
  · exact allLoaded_iff.mpr fun t _ _ => hread 0 t

end create

/-! ## Two files -/

/-- Creating C is all or nothing when a free cluster cannot be looked at and the write of FSInfo
fails. -/
theorem create_atomic_iff_harmless :
    ∃ b s', (fat32CreateFile [0x43]).run harmlessEnv twoFilesFs = some (b, s') ∧
      CreateAtomic smallVolume twoFilesFs [0x43] [2] b s' := by
  have hop : DirOp.createFile = .createFile ∨ DirOp.createFile = .createDir := Or.inl rfl
  have hread : ∀ i t, ((harmlessEnv.enter .insert).enter (.cluster i)).fails (.load t) = false :=
    fun _ _ => rfl
  have hwritten : ∀ i, smallVolume.stored (harmlessEnv.enter .insert) i
      = smallVolume.bs.sectorsPerCluster := fun _ => rfl
  have hok : DirOp.createFile.CreatesHarmlessly smallVolume harmlessEnv twoFilesFs [2] :=
    createsHarmlessly_of_insert _ _ _ ⟨rfl, rfl⟩ ⟨rfl, rfl⟩ hread hwritten
  exact (create_atomic_iff twoFilesFs_ready twoFilesFs_sound twoFilesFs_mirrored hop).mpr hok
    harmlessEnv.junk

/-- The write of the second copy of the FAT fails while a new cluster is marked. -/
def halfMarkEnv : Env :=
  { quietEnv with fault := fun p =>
      match p with
      | [.store 1, .mark] => true
      | _ => false }

/-- Creating C then fails, with cluster 5 marked in the first copy of the FAT. -/
theorem create_halfMarked : twoFilesFs.Ready smallVolume ∧
    smallVolume.Sound twoFilesFs.disk 2 [2] ∧ smallVolume.Mirrored twoFilesFs.disk ∧
    ∃ s', (fat32CreateFile [0x43]).run halfMarkEnv twoFilesFs = some (false, s') ∧
      ¬ CreateAtomic smallVolume twoFilesFs [0x43] [2] false s' := by
  have hrun : ((fat32CreateFile [0x43]).run halfMarkEnv twoFilesFs).map
      (fun r => (r.1, smallVolume.rawFat r.2.disk 0 5)) = some (false, eocMax) := by
    decide +kernel
  have hbefore : smallVolume.rawFat twoFilesFs.disk 0 5 = 0 := by decide
  obtain ⟨⟨b, s'⟩, hr, hb⟩ := Option.map_eq_some_iff.mp hrun
  simp only [Prod.mk.injEq] at hb
  obtain ⟨rfl, hfat⟩ := hb
  refine ⟨twoFilesFs_ready, twoFilesFs_sound, twoFilesFs_mirrored, s', hr, fun hatomic => ?_⟩
  have hsame := (hatomic.undone rfl).1 0 (by decide) 5 (by decide)
  rw [hfat, hbefore] at hsame
  cases hsame

end MicroKernel.Fat32
