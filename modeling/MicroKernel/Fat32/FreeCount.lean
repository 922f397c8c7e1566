import MicroKernel.Fat32.Image

set_option autoImplicit false

/-! # The count of free clusters

`mark_cluster_in_fat` moves the count in memory by one whenever an entry becomes zero or stops
being zero, and every operation that succeeds writes FSInfo back. An operation that fails has
changed neither the number of zero entries nor the sector. So the count in memory and the count
on the disk are right after every operation (`freeClusterCount_eq`).
-/

namespace MicroKernel.Fat32

open MicroKernel.Lib Bytes

/-! ## Counting -/

namespace Volume

variable (V : Volume) (d : Disk)

/-- The clusters whose FAT entry is zero. -/
def freeSet : Finset Nat := (Finset.Ico 2 V.total).filter fun c => V.fat d c = 0

/-- The number of clusters whose FAT entry is zero. -/
def freeClusters : Nat := (V.freeSet d).card

theorem freeClusters_lt : V.freeClusters d < 2 ^ 28 := by
  have h1 : V.freeClusters d ≤ (Finset.Ico 2 V.total).card := Finset.card_filter_le _ _
  have h2 := V.total_lt
  rw [Nat.card_Ico] at h1
  unfold eocMin at h2
  omega

variable {V d}

theorem mem_freeSet {c : Nat} : c ∈ V.freeSet d ↔ V.Has c ∧ V.fat d c = 0 := by
  unfold freeSet
  rw [Finset.mem_filter, Finset.mem_Ico]
  rfl

theorem freeClusters_congr {d' : Disk} (h : ∀ c, V.Has c → V.fat d' c = V.fat d c) :
    V.freeClusters d' = V.freeClusters d := by
  refine congrArg Finset.card (Finset.ext fun c => ?_)
  rw [mem_freeSet, mem_freeSet]
  refine and_congr_right fun hc => ?_
  rw [h c hc]

theorem mem_freeSet_setFat {c v x : Nat} (hc : V.Has c) :
    x ∈ V.freeSet (V.setFat d c v V.bs.numberOfFats) ↔
      V.Has x ∧ (if x = c then v % 2 ^ 28 else V.fat d x) = 0 := by
  rw [mem_freeSet]
  refine and_congr_right fun hx => ?_
  rw [V.fat_setFat d hc.2 hx.2 V.numberOfFats_pos]

theorem freeClusters_setFat_zero {c : Nat} (hc : V.Has c) :
    V.freeClusters (V.setFat d c 0 V.bs.numberOfFats)
      = if V.fat d c = 0 then V.freeClusters d else V.freeClusters d + 1 := by
  have hset : V.freeSet (V.setFat d c 0 V.bs.numberOfFats) = insert c (V.freeSet d) := by
    ext x
    rw [mem_freeSet_setFat hc, Finset.mem_insert, mem_freeSet]
    by_cases hx : x = c
    · simp [hx, hc]
    · simp [hx]
  unfold freeClusters
  rw [hset]
  split
  next h0 => rw [Finset.insert_eq_self.mpr (mem_freeSet.mpr ⟨hc, h0⟩)]
  next h0 => rw [Finset.card_insert_of_notMem fun h => h0 (mem_freeSet.mp h).2]

theorem freeClusters_setFat_used {c v : Nat} (hc : V.Has c) (hv : v % 2 ^ 28 ≠ 0)
    (h0 : V.fat d c = 0) :
    V.freeClusters (V.setFat d c v V.bs.numberOfFats) + 1 = V.freeClusters d := by
  have hset : V.freeSet (V.setFat d c v V.bs.numberOfFats) = (V.freeSet d).erase c := by
    ext x
    rw [mem_freeSet_setFat hc, Finset.mem_erase, mem_freeSet]
    by_cases hx : x = c
    · simp only [hx, if_true, ne_eq, not_true, false_and, iff_false, not_and]
      exact fun _ => hv
    · simp [hx]
  unfold freeClusters
  rw [hset]
  exact Finset.card_erase_add_one (mem_freeSet.mpr ⟨hc, h0⟩)

end Volume

/-! ## The count in memory -/

/-- FSInfo is in use and the count in memory is right. -/
def Fs.Counted (s : Fs) (V : Volume) : Prop :=
  s.fsinfoValid = true ∧ s.freeClusterCount = V.freeClusters s.disk

section counted

variable {V : Volume} {s s' : Fs}

theorem Fs.Counted.withDisk (h : s.Counted V) {d : Disk}
    (hd : ∀ c, V.Has c → V.fat d c = V.fat s.disk c) : (s.withDisk d).Counted V := by
  refine ⟨h.1, ?_⟩
  rw [Fs.withDisk_disk, Volume.freeClusters_congr hd]
  exact h.2

theorem Fs.Counted.withHint (h : s.Counted V) (c : Nat) : (s.withHint c).Counted V := by
  refine ⟨by rw [Fs.withHint_fsinfoValid, h.1], ?_⟩
  rw [Fs.withHint_disk, ← h.2, Fs.withHint, if_pos h.1]
  exact Sector.field_setField_ne _ (by omega) (by omega) _

theorem Fs.freeClusterCount_update (h : s.fsinfoValid = true) (delta : Int)
    (hlt : s.freeClusterCount < 2 ^ 28) (h0 : 0 ≤ s.freeClusterCount + delta)
    (h1 : s.freeClusterCount + delta ≤ 2 ^ 28) :
    ((s.updateFsinfoFreeCount delta).freeClusterCount : Int) = s.freeClusterCount + delta := by
  unfold Fs.updateFsinfoFreeCount
  rw [if_neg (by rw [h]; decide), if_neg (by omega), if_neg (by omega)]
  show ((Sector.field (Sector.setField _ _ _) 488 : Nat) : Int) = _
  rw [Sector.field_setField_same _ (by omega)]
  omega

/-- Freeing a cluster, used or not. -/
theorem Fs.Counted.marked_zero (h : s.Counted V) {c : Nat} (hc : V.Has c) :
    (s.marked V c 0).Counted V := by
  refine ⟨by rw [Fs.marked_fsinfoValid, h.1], ?_⟩
  rw [Fs.marked_disk, Volume.freeClusters_setFat_zero hc, ← h.2]
  have hlt : s.freeClusterCount < 2 ^ 28 := by
    rw [h.2]
    exact V.freeClusters_lt _
  unfold Fs.marked Fs.adjustCount
  rw [if_neg (by simp)]
  by_cases h0 : V.fat s.disk c = 0
  · rw [if_neg (by simp [h0]), if_pos h0]
    rfl
  · rw [if_pos ⟨h0, rfl⟩, if_neg h0]
    have hcount : (s.withDisk (V.setFat s.disk c 0 V.bs.numberOfFats)).freeClusterCount
        = s.freeClusterCount := rfl
    have := Fs.freeClusterCount_update
      (s := s.withDisk (V.setFat s.disk c 0 V.bs.numberOfFats)) h.1 1 (by omega) (by omega)
      (by omega)
    omega

/-- Taking a free cluster. -/
theorem Fs.Counted.marked_used (h : s.Counted V) {r v : Nat} (hr : V.Has r)
    (hv : v % 2 ^ 28 ≠ 0) (h0 : V.fat s.disk r = 0) : (s.marked V r v).Counted V := by
  refine ⟨by rw [Fs.marked_fsinfoValid, h.1], ?_⟩
  have hfree := Volume.freeClusters_setFat_used hr hv h0
  rw [← h.2] at hfree
  have hlt : s.freeClusterCount < 2 ^ 28 := by
    rw [h.2]
    exact V.freeClusters_lt _
  rw [Fs.marked_disk]
  unfold Fs.marked Fs.adjustCount
  rw [if_pos ⟨h0, fun hv0 => hv (by rw [hv0, Nat.zero_mod])⟩]
  have hcount : (s.withDisk (V.setFat s.disk r v V.bs.numberOfFats)).freeClusterCount
      = s.freeClusterCount := rfl
  have := Fs.freeClusterCount_update
    (s := s.withDisk (V.setFat s.disk r v V.bs.numberOfFats)) h.1 (-1) (by omega) (by omega)
    (by omega)
  omega

theorem Fs.Counted.prepared (h : s.Counted V) {r : Nat} {t : Fs} (hr : V.Has r)
    (h0 : V.fat s.disk r = 0) (ht : Prepared V s r t) : t.Counted V := by
  have h1 : (s.taking V r).Counted V :=
    (h.withHint _).marked_used hr (by decide) (by rwa [Fs.withHint_disk])
  rcases ht with rfl | ⟨b, rfl⟩
  · exact h1
  · exact h1.withDisk fun c hc => V.fat_putCluster _ b hc.2

theorem Fs.Counted.frees (h : s.Counted V) (hf : Frees V s s') : s'.Counted V := by
  induction hf with
  | refl => exact h
  | tail _ hstep ih =>
      obtain ⟨c, hc, rfl⟩ := hstep
      exact ih.marked_zero hc

end counted

/-! ## The count on the disk -/

/-- The count in the FSInfo sector. -/
def Volume.storedCount (V : Volume) (d : Disk) : Nat := (d V.fsinfoPos).field 488

/-- The count in memory and the count on the disk are right. -/
structure Fs.Accounted (s : Fs) (V : Volume) : Prop where
  valid : s.fsinfoValid = true
  memory : s.freeClusterCount = V.freeClusters s.disk
  stored : V.storedCount s.disk = V.freeClusters s.disk

section accounted

variable {V : Volume} {s s' : Fs}

theorem Fs.Accounted.counted (h : s.Accounted V) : s.Counted V := ⟨h.valid, h.memory⟩

/-- Writing FSInfo back makes the count on the disk right. -/
theorem Fs.Counted.flushed (h : s.Counted V) (hs : s.Ready V) : (s.flushed V).Accounted V := by
  have hdisk : (s.flushed V).disk = Function.update s.disk V.fsinfoPos s.fsinfo := by
    rw [Fs.flushed, if_pos h.1, Fs.synced, Fs.withDisk_disk]
  have hfree : V.freeClusters (s.flushed V).disk = V.freeClusters s.disk :=
    Volume.freeClusters_congr fun c _ => fat_flushed hs c
  refine ⟨by rw [Fs.flushed_fsinfoValid, h.1], ?_, ?_⟩
  · rw [hfree, ← h.2]
    unfold Fs.freeClusterCount
    rw [Fs.flushed_fsinfo]
  · rw [hfree, ← h.2, Volume.storedCount, hdisk, Function.update_self]
    rfl

/-- Giving back the cluster that was taken leaves every entry and the sector of FSInfo as they
were. -/
theorem disk_undone {r : Nat} {t : Fs} (hi : V.bs.fsInfo < V.bs.reservedSectorCount)
    (hr : V.Has r) (h0 : V.fat s.disk r = 0) (ht : Prepared V s r t) :
    (∀ c, V.Has c → V.fat (t.marked V r 0).disk c = V.fat s.disk c) ∧
      (t.marked V r 0).disk V.fsinfoPos = s.disk V.fsinfoPos := by
  have hlt : V.fsinfoPos < V.offset + V.bs.reservedSectorCount := by
    unfold Volume.fsinfoPos
    omega
  have hstart : V.fsinfoPos < V.dataStart := by
    unfold Volume.dataStart
    omega
  have hinfo : t.disk V.fsinfoPos = s.disk V.fsinfoPos := by
    rcases ht with rfl | ⟨b, rfl⟩
    · rw [Fs.taking_disk, V.setFat_reserved _ hlt]
    · rw [Fs.withDisk_disk, V.putCluster_before _ _ hstart, Fs.taking_disk,
        V.setFat_reserved _ hlt]
  rw [Fs.marked_disk]
  refine ⟨fun c hc => ?_, by rw [V.setFat_reserved _ hlt, hinfo]⟩
  rw [V.fat_setFat _ hr.2 hc.2 V.numberOfFats_pos, ht.fat hr hc]
  by_cases hcr : c = r
  · rw [if_pos hcr, hcr, h0, Nat.zero_mod]
  · rw [if_neg hcr, if_neg hcr]

/-- One operation keeps both counts right. -/
theorem Outcome.accounted {b : Bool} (ho : Outcome V s b s') (h : s.Ready V)
    (ha : s.Accounted V) : s'.Accounted V := by
  cases ho with
  | same => exact ha
  | undone hr h0 ht =>
      obtain ⟨hfat, hinfo⟩ := disk_undone (h.info ha.valid) hr h0 ht
      obtain ⟨h1, h2⟩ := (ha.counted.prepared hr h0 ht).marked_zero hr
      refine ⟨h1, h2, ?_⟩
      rw [Volume.freeClusters_congr hfat, Volume.storedCount, hinfo]
      exact ha.stored
  | created x hr h0 ht hc hj =>
      refine ((ha.counted.prepared hr h0 ht).withDisk fun c hc => ?_).flushed
        ((ht.ready h).withDisk _)
      exact V.fat_putSlot _ x hj hc.2
  | deleted hd =>
      obtain ⟨hfound, -, s₁, -, hf, rfl⟩ := hd
      refine ((ha.counted.frees hf).withDisk fun c hc => ?_).flushed
        ((hf.ready h).withDisk _)
      exact V.fat_putSlot _ zeroEntry hfound.lt hc.2

/-- One operation in which no call of the ATA driver fails. -/
def DirStep (s s' : Fs) : Prop :=
  ∃ (op : DirOp) (nm : List UInt8) (e : Env), e.Reliable ∧ op.Leaves nm e s s'

/-- One operation that leaves the stack alone. -/
def FittingDirStep (V : Volume) (s s' : Fs) : Prop :=
  ∃ (op : DirOp) (nm : List UInt8) (e : Env),
    e.Reliable ∧ op.Fits V e nm s ∧ op.Leaves nm e s s'

theorem FittingDirStep.accounted (hstep : FittingDirStep V s s') (h : s.Ready V)
    (ha : s.Accounted V) : s'.Ready V ∧ s'.Accounted V := by
  obtain ⟨op, nm, e, he, hfits, hl⟩ := hstep
  obtain ⟨b, -, ho⟩ := DirOp.outcome_of_fits he h hfits hl
  exact ⟨ho.ready h, ho.accounted h ha⟩

/-- **Free-cluster accounting.** If the count of FSInfo, in memory and on the disk, is the number
of zero FAT entries, then it is after every operation of a sequence of operations, successful or
not, in which no call of the ATA driver fails and `fat32_delete_dir` finds its name only on a volume
with one sector in a cluster. -/
theorem freeClusterCount_eq (h : s.Ready V) (ha : s.Accounted V)
    (hrun : Relation.ReflTransGen (FittingDirStep V) s s') :
    s'.freeClusterCount = V.freeClusters s'.disk ∧
      V.storedCount s'.disk = V.freeClusters s'.disk := by
  suffices hinv : s'.Ready V ∧ s'.Accounted V from ⟨hinv.2.memory, hinv.2.stored⟩
  induction hrun with
  | refl => exact ⟨h, ha⟩
  | tail _ hstep ih => exact hstep.accounted ih.1 ih.2

end accounted

/-- The small volume with an empty root and five free clusters. -/
def emptyRootFs : Fs :=
  smallFs (fun c => if c = 2 then eocMax else 0) (fun _ _ => zeroEntry)
    (Sector.setField (fun _ => 0) 488 5)

theorem emptyRootFs_accounted : emptyRootFs.Accounted smallVolume where
  valid := rfl
  memory := by decide
  stored := by decide

theorem emptyRootFs_canCreate : emptyRootFs.CanCreate smallVolume where
  cluster := ⟨3, by decide, by decide⟩
  slot := ⟨0, by decide, by decide⟩

/-- A file can be created in it. -/
theorem emptyRootFs_createFile (nm : List UInt8) : ∃ s',
    (fat32CreateFile nm).run quietEnv emptyRootFs = some (true, s') :=
  exists_fat32CreateFile quietEnv_reliable (smallFs_ready _ _ _) emptyRootFs_canCreate nm

/-- A directory can be created in it, and removed again. -/
theorem emptyRootFs_createDir_deleteDir : ∃ s₁ s₂,
    (fat32CreateDir [0x44]).run quietEnv emptyRootFs = some (true, s₁) ∧
      (fat32DeleteDir [0x44]).run quietEnv s₁ = some (true, s₂) := by
  have hrun : ((do
      let created ← fat32CreateDir [0x44]
      let deleted ← fat32DeleteDir [0x44]
      return (created, deleted) : Io (Bool × Bool)).run quietEnv emptyRootFs).map (·.1)
        = some (true, true) := by
    decide +kernel
  obtain ⟨⟨r, s₂⟩, hr, hb⟩ := Option.map_eq_some_iff.mp hrun
  obtain ⟨created, s₁, h1, h2⟩ := (Prog.run_bind_eq_some _ _).mp hr
  obtain ⟨deleted, s₃, h3, h4⟩ := (Prog.run_bind_eq_some _ _).mp h2
  cases h4
  cases hb
  exact ⟨s₁, s₂, h1, h3⟩

/-- Creating and removing a directory in it. -/
theorem freeClusterCount_eq_createDir : ∃ s₁ s₂,
    (fat32CreateDir [0x44]).run quietEnv emptyRootFs = some (true, s₁) ∧
    (fat32DeleteDir [0x44]).run quietEnv s₁ = some (true, s₂) ∧
    s₂.freeClusterCount = smallVolume.freeClusters s₂.disk ∧
      smallVolume.storedCount s₂.disk = smallVolume.freeClusters s₂.disk := by
  obtain ⟨s₁, s₂, h1, h2⟩ := emptyRootFs_createDir_deleteDir
  have hcreate : FittingDirStep smallVolume emptyRootFs s₁ :=
    ⟨.createDir, [0x44], quietEnv, quietEnv_reliable, nofun, .returned h1⟩
  have hdelete : FittingDirStep smallVolume s₁ s₂ :=
    ⟨.deleteDir, [0x44], quietEnv, quietEnv_reliable,
      DirOp.fits_of_one quietEnv_reliable rfl _ _ _, .returned h2⟩
  exact ⟨s₁, s₂, h1, h2, freeClusterCount_eq (smallFs_ready _ _ _) emptyRootFs_accounted
    ((Relation.ReflTransGen.single hcreate).tail hdelete)⟩

/-- With two sectors in a cluster the removal of an empty directory may leave any count behind. -/
theorem not_freeClusterCount_eq : wideFs.Ready wideVolume ∧ wideFs.Accounted wideVolume ∧
    (fat32DeleteDir [0x44]).run quietEnv wideFs = none ∧
    ∃ s', DirStep wideFs s' ∧ s'.freeClusterCount ≠ wideVolume.freeClusters s'.disk := by
  refine ⟨wideFs_ready, ⟨rfl, by decide, by decide⟩, wideFs_overruns.run_eq_none,
    { wideFs with fsinfo := fun _ => 0 }, ?_, by decide⟩
  exact ⟨.deleteDir, [0x44], quietEnv, quietEnv_reliable, .overrun wideFs_overruns⟩

end MicroKernel.Fat32
