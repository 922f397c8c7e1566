import MicroKernel.Fat32.FreeChain

set_option autoImplicit false

/-! # An entry of the FAT, written and read

`mark_cluster_in_fat` and `write_fat_entry` set the entry of a cluster; `read_fat_entry` and
`get_next_cluster_in_chain` read it. What is written is read back, and nothing else of the FAT is
read differently (`fatEntry_written`). The writers read the sector of the first copy and write it
to all of them, so another copy keeps its entries only where it agrees with the first.
-/

namespace MicroKernel.Fat32

open MicroKernel.Lib Bytes

/-! ## The sectors of the FAT -/

namespace Volume

variable (V : Volume)

/-- A sector of a copy of the FAT. -/
def InFat (n : Nat) : Prop :=
  ∃ k j, k < V.bs.numberOfFats ∧ j < V.bs.fatSize32 ∧
    n = V.offset + V.bs.reservedSectorCount + k * V.bs.fatSize32 + j

/-- The index of an entry of the FAT, of a cluster or not. -/
def HasEntry (i : Nat) : Prop := i < 128 * V.bs.fatSize32

theorem Has.hasEntry {V : Volume} {c : Nat} (hc : V.Has c) : V.HasEntry c := by
  have hroom := V.fat_room
  have hlt := hc.2
  change 4 * V.total ≤ _ at hroom
  unfold HasEntry
  omega

theorem inFat_fatPos {k i : Nat} (hk : k < V.bs.numberOfFats) (hi : V.HasEntry i) :
    V.InFat (V.fatPos k i) := by
  unfold HasEntry at hi
  exact ⟨k, i / 128, hk, by omega, rfl⟩

/-- Entries in the same sector are in the same copy. -/
theorem fatPos_copy {k k' i i' : Nat} (hi : V.HasEntry i) (hi' : V.HasEntry i')
    (h : V.fatPos k i = V.fatPos k' i') : k = k' ∧ i / 128 = i' / 128 := by
  unfold HasEntry at hi hi'
  unfold fatPos at h
  rcases Nat.lt_trichotomy k k' with hlt | rfl | hlt
  · have hle : (k + 1) * V.bs.fatSize32 ≤ k' * V.bs.fatSize32 := Nat.mul_le_mul_right _ hlt
    rw [Nat.add_mul, Nat.one_mul] at hle
    omega
  · exact ⟨rfl, by omega⟩
  · have hle : (k' + 1) * V.bs.fatSize32 ≤ k * V.bs.fatSize32 := Nat.mul_le_mul_right _ hlt
    rw [Nat.add_mul, Nat.one_mul] at hle
    omega

/-- Entries in other sectors stay. -/
theorem rawFat_setFat_other {d : Disk} {c v m k i : Nat} (hc : V.HasEntry c) (hi : V.HasEntry i)
    (h : i / 128 ≠ c / 128) : V.rawFat (V.setFat d c v m) k i = V.rawFat d k i := by
  have hsame : V.setFat d c v m (V.fatPos k i) = d (V.fatPos k i) := by
    rw [setFat, putCopies, if_neg]
    rintro ⟨j, -, hpos⟩
    exact h (V.fatPos_copy hi hc hpos).2
  rw [rawFat, hsame, rawFat]

/-- Sectors outside the copies of the FAT stay. -/
theorem setFat_outside {d : Disk} {c v n : Nat} (hc : V.HasEntry c) (hn : ¬ V.InFat n) :
    V.setFat d c v V.bs.numberOfFats n = d n := by
  rw [setFat, putCopies, if_neg]
  rintro ⟨k, hk, rfl⟩
  exact hn (V.inFat_fatPos hk hc)

end Volume

/-- The top four bits of a new entry are those of the old one. -/
theorem withLow28_top (n v : Nat) : withLow28 n v / 2 ^ 28 = n / 2 ^ 28 := by
  unfold withLow28
  omega

/-! ## What is written -/

/-- The entry of `c` has been set to `v`, and nothing else that can be read of the disks has
changed, but for the entries of the copies that differ from the first: they become those of the
first. -/
structure EntryWritten (V : Volume) (s : Fs) (c v : Nat) (s' : Fs) : Prop where
  read : ∀ e : Env, e.Reliable → (readFatEntry c).run e s' = some (v % 2 ^ 28, s')
  others : ∀ e : Env, e.Reliable → ∀ x, V.Has x → x ≠ c → ∃ value,
    (readFatEntry x).run e s = some (value, s) ∧ (readFatEntry x).run e s' = some (value, s')
  next : ∀ e : Env, e.Reliable → (getNextClusterInChain c).run e s'
    = some (if v % 2 ^ 28 < eocMin then v % 2 ^ 28 else invalidCluster, s')
  top : ∀ k i, k < V.bs.numberOfFats → V.HasEntry i →
    (i / 128 = c / 128 → V.rawFat s.disk k i / 2 ^ 28 = V.rawFat s.disk 0 i / 2 ^ 28) →
    V.rawFat s'.disk k i / 2 ^ 28 = V.rawFat s.disk k i / 2 ^ 28
  copies : ∀ k i, k < V.bs.numberOfFats → V.HasEntry i → i / 128 = c / 128 →
    V.rawFat s'.disk k i = V.rawFat s'.disk 0 i
  outside : ∀ n, ¬ V.InFat n → s'.disk n = s.disk n
  drives : ∀ drive, drive ≠ s.currentDrive → s'.disks drive = s.disks drive

/-- A state that differs from another in its disk, where the entry of `c` is set, and in FSInfo. -/
theorem entryWritten_setFat {V : Volume} {s : Fs} (h : s.On V) {c : Nat} (hc : V.Has c) (v : Nat)
    (f : Sector) : EntryWritten V s c v
      { s.withDisk (V.setFat s.disk c v V.bs.numberOfFats) with fsinfo := f } := by
  generalize hs' : ({ s.withDisk (V.setFat s.disk c v V.bs.numberOfFats) with fsinfo := f } : Fs)
    = s'
  have hon : s'.On V := by
    rw [← hs']
    exact ⟨h.boot, h.offset, h.drive⟩
  have hdisk : s'.disk = V.setFat s.disk c v V.bs.numberOfFats := by
    rw [← hs']
    exact s.withDisk_disk (V.setFat s.disk c v V.bs.numberOfFats)
  have hfat : ∀ x, V.Has x → V.fat s'.disk x = if x = c then v % 2 ^ 28 else V.fat s.disk x := by
    intro x hx
    rw [hdisk, V.fat_setFat _ hc.2 hx.2 V.numberOfFats_pos]
  have hsector : ∀ k i, k < V.bs.numberOfFats → i / 128 = c / 128 → V.rawFat s'.disk k i
      = if i = c then withLow28 (V.rawFat s.disk 0 c) v else V.rawFat s.disk 0 i := by
    intro k i hk hi
    rw [hdisk, V.rawFat_setFat_sector _ hk hi]
  constructor
  · intro e he
    rw [run_readFatEntry e hon hc, he.fails, if_neg Bool.false_ne_true, hfat c hc, if_pos rfl]
  · intro e he x hx hne
    refine ⟨V.fat s.disk x, ?_, ?_⟩
    · rw [run_readFatEntry e h hx, he.fails, if_neg Bool.false_ne_true]
    · rw [run_readFatEntry e hon hx, he.fails, if_neg Bool.false_ne_true, hfat x hx, if_neg hne]
  · intro e he
    rw [run_getNextClusterInChain e hon hc.2, he.fails, if_neg Bool.false_ne_true, hfat c hc,
      if_pos rfl, nextOf]
    by_cases heoc : eocMin ≤ v % 2 ^ 28
    · rw [if_pos heoc, if_neg (Nat.not_lt.mpr heoc)]
    · rw [if_neg heoc, if_pos (Nat.not_le.mp heoc)]
  · intro k i hk hi hagree
    by_cases hsame : i / 128 = c / 128
    · rw [hsector k i hk hsame, hagree hsame]
      by_cases hic : i = c
      · rw [if_pos hic, withLow28_top, hic]
      · rw [if_neg hic]
    · rw [hdisk, V.rawFat_setFat_other hc.hasEntry hi hsame]
  · intro k i hk _ hsame
    rw [hsector k i hk hsame, hsector 0 i V.numberOfFats_pos hsame]
  · intro n hn
    rw [hdisk, V.setFat_outside hc.hasEntry hn]
  · intro drive hdrive
    rw [← hs']
    exact Function.update_of_ne hdrive _ _

/-- **Read after write.** Both writers set the entry of a cluster, so that both readers find the
new value, and leave the rest alone. -/
theorem fatEntry_written {V : Volume} {e : Env} {s : Fs} (he : e.Reliable) (h : s.On V) {c : Nat}
    (hc : V.Has c) (v : Nat) :
    (∃ s', (markClusterInFat c v).run e s = some (true, s') ∧ EntryWritten V s c v s') ∧
      ∃ s', (writeFatEntry c v).run e s = some (true, s') ∧ EntryWritten V s c v s' := by
  constructor
  · obtain ⟨f, hf⟩ := Fs.adjustCount_eq (s.withDisk (V.setFat s.disk c v V.bs.numberOfFats))
      (V.fat s.disk c) v
    refine ⟨s.marked V c v, run_markClusterInFat_of_marks he.marks h hc v, ?_⟩
    rw [Fs.marked, hf]
    exact entryWritten_setFat h hc v f
  · have hall : allWritten e V.bs.numberOfFats 0 = true := he.allWritten _ _
    refine ⟨s.withDisk (V.setFat s.disk c v V.bs.numberOfFats), ?_,
      entryWritten_setFat h hc v s.fsinfo⟩
    rw [run_writeFatEntry e h hc, he.fails, if_neg Bool.false_ne_true, hall,
      written_of_allWritten hall]

/-- The entry of cluster 3, on the small volume. -/
theorem fatEntry_written_linked : ∃ s', (markClusterInFat 3 0xF0000005).run quietEnv linkedFs
    = some (true, s') ∧ EntryWritten smallVolume linkedFs 3 0xF0000005 s' :=
  (fatEntry_written quietEnv_reliable (show linkedFs.On smallVolume from ⟨rfl, rfl, rfl⟩)
    (show smallVolume.Has 3 by decide) 0xF0000005).1

/-- The second copy of the FAT is all ones. -/
def onesFs : Fs := linkedFs.withDisk (Function.update linkedFs.disk 3 fun _ => 0xFF)

/-- The top four bits of every entry stay. -/
def TopKept (V : Volume) (s s' : Fs) : Prop :=
  ∀ k i, k < V.bs.numberOfFats → V.HasEntry i →
    V.rawFat s'.disk k i / 2 ^ 28 = V.rawFat s.disk k i / 2 ^ 28

/-- Setting the entry of cluster 3 clears the top bits of entry 5 in the second copy. -/
theorem not_topKept : onesFs.On smallVolume ∧ smallVolume.Has 3 ∧
    ∃ s', (markClusterInFat 3 4).run quietEnv onesFs = some (true, s') ∧
      ¬ TopKept smallVolume onesFs s' := by
  refine ⟨⟨rfl, rfl, rfl⟩, by decide, ?_⟩
  have hrun : ((markClusterInFat 3 4).run quietEnv onesFs).map
      (fun r => (r.1, smallVolume.rawFat r.2.disk 1 5 / 2 ^ 28)) = some (true, 0) := by
    decide +kernel
  obtain ⟨⟨b, s'⟩, hs', hr⟩ := Option.map_eq_some_iff.mp hrun
  obtain ⟨rfl, htop⟩ := Prod.mk.inj hr
  refine ⟨s', hs', fun hkept => ?_⟩
  have h15 : smallVolume.rawFat onesFs.disk 1 5 / 2 ^ 28 = 15 := by decide
  have hsame := hkept 1 5 (by decide) (by unfold Volume.HasEntry; decide)
  rw [htop, h15] at hsame
  exact absurd hsame (by decide)

end MicroKernel.Fat32
