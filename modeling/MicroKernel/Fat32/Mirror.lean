import MicroKernel.Fat32.FreeCount

set_option autoImplicit false

/-! # The copies of the FAT

Two functions write FAT entries, `mark_cluster_in_fat` and `write_fat_entry`. Both patch the
sector of the first copy and write it to all copies, so copies that are identical stay identical.
`fatCopies_identical` carries this through every sequence of calls.
-/

namespace MicroKernel.Fat32

open MicroKernel.Lib Bytes

/-! ## Allocating and linking -/

section allocate

variable {V : Volume} {s s' : Fs} {e : Env}

theorem scanAllocate_cases (he : e.Reliable) (h : s.On V) {n c r : Nat} (h2 : 2 ≤ c)
    (hn : c + n ≤ V.total) (hr : (scanAllocate n c).run e s = some (r, s')) :
    s' = s ∨ ∃ c, V.Has c ∧ s' = s.withDisk (V.setFat s.disk c eocMax V.bs.numberOfFats) := by
  induction n generalizing c with
  | zero =>
      simp only [scanAllocate, Prog.run_pure, Option.some.injEq, Prod.mk.injEq] at hr
      exact Or.inl hr.2.symm
  | succ n ih =>
      have hc : V.Has c := ⟨h2, by omega⟩
      rw [scanAllocate, Prog.run_bind, run_within, run_readFatEntry _ h hc, (he.enter _).fails,
        if_neg (by decide), Option.bind_some, Prog.run_ite] at hr
      dsimp only at hr
      split at hr
      · rw [Prog.run_bind, run_within, run_writeFatEntry _ h hc, (he.enter _).fails,
          if_neg (by decide), (he.enter _).allWritten,
          written_of_allWritten ((he.enter _).allWritten _ _), Option.bind_some] at hr
        simp only [if_true, Prog.run_pure, Option.some.injEq, Prod.mk.injEq] at hr
        exact Or.inr ⟨c, hc, hr.2.symm⟩
      · exact ih (by omega) (by omega) hr

/-- **`allocate_new_cluster`** changes nothing, or marks one cluster. -/
theorem allocateNewCluster_cases (he : e.Reliable) (h : s.On V) {r : Nat}
    (hr : allocateNewCluster.run e s = some (r, s')) :
    s' = s ∨ ∃ c, V.Has c ∧ s' = s.withDisk (V.setFat s.disk c eocMax V.bs.numberOfFats) := by
  unfold allocateNewCluster at hr
  rw [Prog.run_bind, Prog.run_get, Option.bind_some, h.boot] at hr
  change (scanAllocate (V.total - 2) 2).run e s = _ at hr
  by_cases ht : 2 ≤ V.total
  · exact scanAllocate_cases he h (Nat.le_refl 2) (by omega) hr
  · -- no cluster at all
    rw [show V.total - 2 = 0 by omega] at hr
    simp only [scanAllocate, Prog.run_pure, Option.some.injEq, Prod.mk.injEq] at hr
    exact Or.inl hr.2.symm

theorem lastOfChain_state (e : Env) {k i c v : Nat}
    (hr : (lastOfChain k i c).run e s = some (v, s')) : s' = s := by
  induction k generalizing i c with
  | zero => cases hr
  | succ k ih =>
      rw [lastOfChain, Prog.run_bind_eq_some] at hr
      obtain ⟨v', s₁, h1, h2⟩ := hr
      have hs := (getNextClusterInChain_state _ h1).1
      subst hs
      rw [Prog.run_ite] at h2
      split at h2
      · exact ih h2
      · simp only [Prog.run_pure, Option.some.injEq, Prod.mk.injEq] at h2
        exact h2.2.symm

/-- **`link_cluster_to_chain`** changes nothing, or marks one cluster. -/
theorem linkClusterToChain_cases (he : e.Reliable) (h : s.On V) {parent new : Nat} {b : Bool}
    (hr : (linkClusterToChain parent new).run e s = some (b, s')) :
    s' = s ∨ ∃ c, V.Has c ∧ s' = s.marked V c new := by
  unfold linkClusterToChain at hr
  rw [Prog.run_bind_eq_some] at hr
  obtain ⟨v, s₁, h1, h2⟩ := hr
  have hs := lastOfChain_state e h1
  subst hs
  rcases markClusterInFat_cases (he.enter _) h h2 with ⟨-, hc, hs⟩ | ⟨-, hs⟩
  · exact Or.inr ⟨_, hc, hs⟩
  · exact Or.inl hs

end allocate

/-! ## Calls -/

/-- The calls that may change the FAT. -/
inductive FatCall where
  | dir (op : DirOp) (nm : List UInt8)
  | markClusterInFat (cluster value : Nat)
  | allocateNewCluster
  | linkClusterToChain (parentCluster newCluster : Nat)

/-- The function of the driver, without its result. -/
def FatCall.call : FatCall → Io Unit
  | .dir op nm => do
      let _ ← op.call nm
      return ()
  | .markClusterInFat cluster value => do
      let _ ← Fat32.markClusterInFat cluster value
      return ()
  | .allocateNewCluster => do
      let _ ← Fat32.allocateNewCluster
      return ()
  | .linkClusterToChain parentCluster newCluster => do
      let _ ← Fat32.linkClusterToChain parentCluster newCluster
      return ()

/-- What a call may leave behind. -/
def FatCall.Leaves (c : FatCall) (e : Env) (s s' : Fs) : Prop :=
  match c with
  | .dir op nm => op.Leaves nm e s s'
  | c => c.call.run e s = some ((), s')

/-- A directory that is found for removal has room in the array that it is read into. -/
def FatCall.Fits (V : Volume) (e : Env) (s : Fs) : FatCall → Prop
  | .dir op nm => op.Fits V e nm s
  | _ => True

/-- One call, in which nothing fails. -/
def FatStep (s s' : Fs) : Prop :=
  ∃ (c : FatCall) (e : Env), e.Reliable ∧ c.Leaves e s s'

/-- One call that leaves the stack alone. -/
def FittingFatStep (V : Volume) (s s' : Fs) : Prop :=
  ∃ (c : FatCall) (e : Env), e.Reliable ∧ c.Fits V e s ∧ c.Leaves e s s'

/-! ## The invariant -/

section mirrored

variable {V : Volume} {s s' : Fs}

theorem mirrored_marked (hm : V.Mirrored s.disk) {c : Nat} (hc : V.Has c) (v : Nat) :
    V.Mirrored (s.marked V c v).disk := by
  rw [Fs.marked_disk]
  exact hm.setFat hc.2

theorem mirrored_withDisk {d : Disk} (hm : V.Mirrored d) : V.Mirrored (s.withDisk d).disk := by
  rwa [Fs.withDisk_disk]

theorem mirrored_flushed (hm : V.Mirrored s.disk) (h : s.Ready V) :
    V.Mirrored (s.flushed V).disk := by
  intro k hk j hj
  rw [sameData_flushed h _ (by omega), sameData_flushed h _ (by omega)]
  exact hm k hk j hj

theorem mirrored_putSlot {d : Disk} (hm : V.Mirrored d) {c j : Nat} (x : DirEntry)
    (hj : j < V.slots) : V.Mirrored (V.putSlot d c j x) := by
  rw [V.putSlot_eq_putCluster d x hj]
  exact hm.putCluster _

theorem mirrored_prepared {r : Nat} {t : Fs} (hm : V.Mirrored s.disk) (hr : V.Has r)
    (ht : Prepared V s r t) : V.Mirrored t.disk := by
  have h1 : V.Mirrored (s.taking V r).disk := by
    rw [Fs.taking_disk]
    exact hm.setFat hr.2
  rcases ht with rfl | ⟨b, rfl⟩
  · exact h1
  · exact mirrored_withDisk (h1.putCluster b)

theorem mirrored_frees (hm : V.Mirrored s.disk) (hf : Frees V s s') : V.Mirrored s'.disk := by
  induction hf with
  | refl => exact hm
  | tail _ hstep ih =>
      obtain ⟨c, hc, rfl⟩ := hstep
      exact mirrored_marked ih hc 0

theorem Outcome.mirrored {b : Bool} (ho : Outcome V s b s') (h : s.Ready V)
    (hm : V.Mirrored s.disk) : V.Mirrored s'.disk := by
  cases ho with
  | same => exact hm
  | undone hr _ ht => exact mirrored_marked (mirrored_prepared hm hr ht) hr 0
  | created x hr _ ht _ hj =>
      refine mirrored_flushed (mirrored_withDisk ?_) ((ht.ready h).withDisk _)
      exact mirrored_putSlot (mirrored_prepared hm hr ht) x hj
  | deleted hd =>
      obtain ⟨hfound, -, s₁, -, hf, rfl⟩ := hd
      refine mirrored_flushed (mirrored_withDisk ?_) ((hf.ready h).withDisk _)
      exact mirrored_putSlot (mirrored_frees hm hf) zeroEntry hfound.lt

/-- One call keeps the copies identical. -/
theorem FittingFatStep.mirrored (hstep : FittingFatStep V s s') (h : s.Ready V)
    (hm : V.Mirrored s.disk) : s'.Ready V ∧ V.Mirrored s'.disk := by
  obtain ⟨c, e, he, hfits, hr⟩ := hstep
  cases c with
  | dir op nm =>
      obtain ⟨b, -, ho⟩ := DirOp.outcome_of_fits he h hfits hr
      exact ⟨ho.ready h, ho.mirrored h hm⟩
  | markClusterInFat cluster value =>
      obtain ⟨b, s₁, h1, h2⟩ := (Prog.run_bind_eq_some e s).mp hr
      cases h2
      rcases markClusterInFat_cases he h.on h1 with ⟨-, hc, rfl⟩ | ⟨-, rfl⟩
      · exact ⟨h.marked _ _, mirrored_marked hm hc value⟩
      · exact ⟨h, hm⟩
  | allocateNewCluster =>
      obtain ⟨b, s₁, h1, h2⟩ := (Prog.run_bind_eq_some e s).mp hr
      cases h2
      rcases allocateNewCluster_cases he h.on h1 with rfl | ⟨c, hc, rfl⟩
      · exact ⟨h, hm⟩
      · exact ⟨h.withDisk _, mirrored_withDisk (hm.setFat hc.2)⟩
  | linkClusterToChain parent new =>
      obtain ⟨b, s₁, h1, h2⟩ := (Prog.run_bind_eq_some e s).mp hr
      cases h2
      rcases linkClusterToChain_cases he h.on h1 with rfl | ⟨c, hc, rfl⟩
      · exact ⟨h, hm⟩
      · exact ⟨h.marked _ _, mirrored_marked hm hc new⟩

/-- **FAT mirroring.** If the copies of the FAT are identical, they are identical after every
call of a sequence of calls in which nothing fails and `fat32_delete_dir` finds its name only on a
volume with one sector in a cluster. -/
theorem fatCopies_identical (h : s.Ready V) (hm : V.Mirrored s.disk)
    (hrun : Relation.ReflTransGen (FittingFatStep V) s s') : V.Mirrored s'.disk := by
  suffices hinv : s'.Ready V ∧ V.Mirrored s'.disk from hinv.2
  induction hrun with
  | refl => exact ⟨h, hm⟩
  | tail _ hstep ih => exact hstep.mirrored ih.1 ih.2

end mirrored

/-- On the small volume a directory is created and removed, and then cluster 5 is marked. -/
theorem fatCopies_identical_createDir : ∃ s₁ s₂,
    (fat32CreateDir [0x44]).run quietEnv emptyRootFs = some (true, s₁) ∧
    (fat32DeleteDir [0x44]).run quietEnv s₁ = some (true, s₂) ∧
    (markClusterInFat 5 eocMax).run quietEnv s₂ = some (true, s₂.marked smallVolume 5 eocMax) ∧
      smallVolume.Mirrored (s₂.marked smallVolume 5 eocMax).disk := by
  obtain ⟨s₁, s₂, h1, h2⟩ := emptyRootFs_createDir_deleteDir
  have hready₁ : s₁.Ready smallVolume :=
    (DirOp.createDir.outcome quietEnv_reliable (smallFs_ready _ _ _) h1).ready (smallFs_ready _ _ _)
  have hready₂ : s₂.Ready smallVolume :=
    (DirOp.deleteDir.outcome quietEnv_reliable hready₁ h2).ready hready₁
  have h3 := run_markClusterInFat_reliable quietEnv_reliable hready₂.on
    (show smallVolume.Has 5 by decide) eocMax
  have hcreate : FittingFatStep smallVolume emptyRootFs s₁ :=
    ⟨.dir .createDir [0x44], quietEnv, quietEnv_reliable, nofun, .returned h1⟩
  have hdelete : FittingFatStep smallVolume s₁ s₂ :=
    ⟨.dir .deleteDir [0x44], quietEnv, quietEnv_reliable,
      DirOp.fits_of_one quietEnv_reliable rfl _ _ _, .returned h2⟩
  have hmark : FittingFatStep smallVolume s₂ (s₂.marked smallVolume 5 eocMax) := by
    refine ⟨.markClusterInFat 5 eocMax, quietEnv, quietEnv_reliable, trivial, ?_⟩
    change (FatCall.call (.markClusterInFat 5 eocMax)).run quietEnv s₂ = _
    rw [FatCall.call, Prog.run_bind, h3, Option.bind_some]
    rfl
  exact ⟨s₁, s₂, h1, h2, h3, fatCopies_identical (smallFs_ready _ _ _)
    (smallVolume.mirrored_image _ _ _) (((Relation.ReflTransGen.single hcreate).tail hdelete).tail
      hmark)⟩

/-- With two sectors in a cluster the removal of an empty directory may leave anything in the second
copy. -/
theorem not_fatCopies_identical : wideFs.Ready wideVolume ∧ wideVolume.Mirrored wideFs.disk ∧
    (fat32DeleteDir [0x44]).run quietEnv wideFs = none ∧
    ∃ s', FatStep wideFs s' ∧ ¬ wideVolume.Mirrored s'.disk := by
  refine ⟨wideFs_ready, wideFs_mirrored, wideFs_overruns.run_eq_none,
    wideFs.withDisk (Function.update wideFs.disk 3 fun _ => 1), ?_, fun hm => ?_⟩
  · exact ⟨.dir .deleteDir [0x44], quietEnv, quietEnv_reliable, .overrun wideFs_overruns⟩
  · have hbyte := congrFun (hm 1 (by decide) 0 (by decide)) 0
    rw [Fs.withDisk_disk] at hbyte
    revert hbyte
    decide

end MicroKernel.Fat32
